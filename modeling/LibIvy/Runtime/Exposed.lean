import LibIvy.Runtime.Machine

/-!
Contract: the system with its request handlers open to anyone.

Owns: the delivery of an arbitrary POST body to the two page-request handlers of
the manager, next to every step of the system itself.

Does not own: who sends such bodies, HTTP.

An adapter that throws has not touched the directory yet; the HTTP server answers
with an error status.
-/

namespace LibIvy

open Lib

/-- The handler that serves the requests of a kind. -/
def Rq.handlerName : Rq → RpcName
  | .rd => .getRdPageFromManager
  | .wr => .getWrPageFromManager

/-- Scheduling choices, and bodies from outside. -/
inductive ExposedAction where
  | system (action : Action)
  | deliver (rq : Rq) (body : Text) (fresh : HandlerId)
deriving DecidableEq

/-- The manager gets a body. The instance that serves it is `fresh`, an unused
name. -/
def Sys.deliver (cfg : Config) (s : Sys) (rq : Rq) (body : Text) (fresh : HandlerId) :
    Option (Sys × List Event) :=
  match rq.handlerName.accept body with
  | none => some (s, [])
  | some (addr, job) =>
      match s.handler fresh with
      | none => some (s.setHandler fresh ⟨cfg.managerId, addr, job⟩, [])
      | some _ => none

/-- The runs of the system among arbitrary deliveries. -/
def exposed (cfg : Config) : TransitionSystem Sys ExposedAction Event where
  init := Sys.initial
  step s
    | .system action => s.step cfg action
    | .deliver rq body fresh => s.deliver cfg rq body fresh

/-- A body that parses is served, any other one changes nothing. -/
theorem Sys.deliver_cases {cfg : Config} {s after : Sys} {rq : Rq} {body : Text}
    {fresh : HandlerId} {events : List Event}
    (taken : s.deliver cfg rq body fresh = some (after, events)) :
    events = [] ∧
      ((rq.handlerName.accept body = none ∧ after = s) ∨
        ∃ addr job, rq.handlerName.accept body = some (addr, job) ∧ s.handler fresh = none ∧
          after = s.setHandler fresh ⟨cfg.managerId, addr, job⟩) := by
  simp only [deliver] at taken
  split at taken
  · rename_i thrown
    obtain ⟨rfl, rfl⟩ := taken
    exact ⟨rfl, .inl ⟨thrown, rfl⟩⟩
  · rename_i addr job accepted
    split at taken
    · rename_i unused
      obtain ⟨rfl, rfl⟩ := taken
      exact ⟨rfl, .inr ⟨addr, job, accepted, unused, rfl⟩⟩
    · contradiction

/-- Both handlers parse alike and keep the number they have read. -/
theorem Rq.accept_eq (rq : Rq) (body : Text) :
    rq.handlerName.accept body =
      (parsePageRequest body).map fun parsed => (parsed.1, rq.job parsed.2) := by
  cases rq <;> rfl

theorem Rq.parses_of_accept {rq : Rq} {body : Text} {addr : Addr} {job : Job}
    (accepted : rq.handlerName.accept body = some (addr, job)) : parsePageRequest body ≠ none := by
  rw [Rq.accept_eq] at accepted
  intro rejected
  simp [rejected] at accepted

end LibIvy
