import LibIvy.Lib.Interleaving

/-!
Contract: rely and guarantee reasoning for interleaved programs.

A guarantee says, for every thread, which events it may perform in which
configuration (the memory and the log of events so far). A thread may rely on
the other threads keeping to theirs. A triple states that a program, started
where its precondition holds, keeps to its thread's guarantee whatever the
others do, never becomes undefined, and establishes its postcondition when it
returns. Triples are partial: a loop may run forever.

Owns: configurations, interference and stability, triples and their rules, the
rule that derives a triple from an evaluation alone on locations the others
leave alone, what a thread has printed, and soundness for every run.

Does not own: termination, or the choice of guarantees.
-/

namespace LibIvy.Lib

open TransitionSystem

/-- The memory and the events that led to it. -/
structure Snapshot (Thread Loc Value Note : Type) where
  mem : Loc → Value
  log : List (Thread × Effect Loc Value Note)

namespace Snapshot

variable {Thread Loc Value Note : Type} [DecidableEq Loc]

/-- The configuration after an event of a thread. -/
def record (config : Snapshot Thread Loc Value Note) (thread : Thread)
    (event : Effect Loc Value Note) : Snapshot Thread Loc Value Note :=
  ⟨event.apply config.mem, config.log ++ [(thread, event)]⟩

@[simp] theorem record_mem (config : Snapshot Thread Loc Value Note) (thread : Thread)
    (event : Effect Loc Value Note) : (config.record thread event).mem = event.apply config.mem :=
  rfl

@[simp] theorem record_log (config : Snapshot Thread Loc Value Note) (thread : Thread)
    (event : Effect Loc Value Note) :
    (config.record thread event).log = config.log ++ [(thread, event)] := rfl

/-- The configuration after a list of events. -/
def recordAll (config : Snapshot Thread Loc Value Note)
    (entries : List (Thread × Effect Loc Value Note)) : Snapshot Thread Loc Value Note :=
  entries.foldl (fun now entry => now.record entry.1 entry.2) config

theorem recordAll_append (config : Snapshot Thread Loc Value Note)
    (first second : List (Thread × Effect Loc Value Note)) :
    config.recordAll (first ++ second) = (config.recordAll first).recordAll second := by
  simp [recordAll]

@[simp] theorem recordAll_log (config : Snapshot Thread Loc Value Note)
    (entries : List (Thread × Effect Loc Value Note)) :
    (config.recordAll entries).log = config.log ++ entries := by
  induction entries generalizing config with
  | nil => simp [recordAll]
  | cons entry entries inductionHypothesis =>
      change ((config.record entry.1 entry.2).recordAll entries).log = _
      simp [inductionHypothesis]

end Snapshot

/-- Two memories hold the same values in a region. -/
def Agree {Loc Value : Type} (region : Loc → Prop) (left right : Loc → Value) : Prop :=
  ∀ loc, region loc → left loc = right loc

theorem Agree.apply {Loc Value Note : Type} [DecidableEq Loc] {region : Loc → Prop}
    {left right : Loc → Value} (agree : Agree region left right) (event : Effect Loc Value Note) :
    Agree region (event.apply left) (event.apply right) := by
  intro loc inside
  cases event with
  | load => exact agree loc inside
  | note => exact agree loc inside
  | store stored value =>
      by_cases same : loc = stored
      · subst same
        simp
      · simpa [Function.update_of_ne same] using agree loc inside

/-- What each thread may do in each configuration. -/
abbrev Guarantee (Thread Loc Value Note : Type) :=
  Thread → Snapshot Thread Loc Value Note → Effect Loc Value Note → Prop

namespace Guarantee

variable {Thread Loc Value Note Result Other State Exit : Type} [DecidableEq Loc]
variable (guarantee : Guarantee Thread Loc Value Note)

/-- The guarantee with a limit on the effects of every thread. -/
def restrict (allowed : Effect Loc Value Note → Prop) : Guarantee Thread Loc Value Note :=
  fun thread config event => guarantee thread config event ∧ allowed event

/-- Any number of events of the other threads. -/
inductive Interference (thread : Thread) :
    Snapshot Thread Loc Value Note → Snapshot Thread Loc Value Note → Prop where
  | refl {config : Snapshot Thread Loc Value Note} : Interference thread config config
  | step {config after : Snapshot Thread Loc Value Note} {other : Thread}
      {event : Effect Loc Value Note} (different : other ≠ thread)
      (kept : guarantee other config event)
      (rest : Interference thread (config.record other event) after) :
      Interference thread config after

/-- An assertion that the other threads cannot falsify. -/
def Stable (thread : Thread) (assertion : Snapshot Thread Loc Value Note → Prop) : Prop :=
  ∀ config other event, other ≠ thread → assertion config → guarantee other config event →
    assertion (config.record other event)

/-- For its next `fuel` steps the program keeps to the guarantee of its thread
under interference; when it returns, the postcondition holds. -/
def Keeps (thread : Thread) (post : Result → Snapshot Thread Loc Value Note → Prop) :
    Nat → Program Loc Value Note Result → Snapshot Thread Loc Value Note → Prop
  | 0, _, _ => True
  | fuel + 1, program, config =>
      ∀ now, Interference guarantee thread config now →
        match program with
        | .ret result => post result now
        | .undefined => False
        | .load loc next =>
            guarantee thread now (.load loc (now.mem loc)) ∧
              Keeps thread post fuel (next (now.mem loc))
                (now.record thread (.load loc (now.mem loc)))
        | .store loc value next =>
            guarantee thread now (.store loc value) ∧
              Keeps thread post fuel next (now.record thread (.store loc value))
        | .note text next =>
            guarantee thread now (.note text) ∧
              Keeps thread post fuel next (now.record thread (.note text))
        | .loop state body next =>
            Keeps thread post fuel ((body state).bind (Program.again body next)) now

/-- From `pre`, the program keeps to the guarantee forever and returns in `post`. -/
def Triple (thread : Thread) (pre : Snapshot Thread Loc Value Note → Prop)
    (program : Program Loc Value Note Result)
    (post : Result → Snapshot Thread Loc Value Note → Prop) : Prop :=
  ∀ fuel config, pre config → Keeps guarantee thread post fuel program config

variable {guarantee} {thread : Thread}

theorem Interference.trans {first second third : Snapshot Thread Loc Value Note}
    (left : Interference guarantee thread first second)
    (right : Interference guarantee thread second third) :
    Interference guarantee thread first third := by
  induction left with
  | refl => exact right
  | step different kept _ inductionHypothesis =>
      exact .step different kept (inductionHypothesis right)

theorem Stable.interference {assertion : Snapshot Thread Loc Value Note → Prop}
    (stable : Stable guarantee thread assertion) {config after : Snapshot Thread Loc Value Note}
    (interfered : Interference guarantee thread config after) (holds : assertion config) :
    assertion after := by
  induction interfered with
  | refl => exact holds
  | step different kept _ inductionHypothesis =>
      exact inductionHypothesis (stable _ _ _ different holds kept)

theorem Stable.and {left right : Snapshot Thread Loc Value Note → Prop}
    (stableLeft : Stable guarantee thread left) (stableRight : Stable guarantee thread right) :
    Stable guarantee thread (fun config => left config ∧ right config) :=
  fun config other event different holds kept =>
    ⟨stableLeft config other event different holds.1 kept,
      stableRight config other event different holds.2 kept⟩

theorem Interference.of_restrict {allowed : Effect Loc Value Note → Prop}
    {config after : Snapshot Thread Loc Value Note}
    (interfered : Interference (guarantee.restrict allowed) thread config after) :
    Interference guarantee thread config after := by
  induction interfered with
  | refl => exact .refl
  | step different kept _ inductionHypothesis => exact .step different kept.1 inductionHypothesis

theorem Stable.restrict {assertion : Snapshot Thread Loc Value Note → Prop}
    (stable : Stable guarantee thread assertion) (allowed : Effect Loc Value Note → Prop) :
    Stable (guarantee.restrict allowed) thread assertion :=
  fun config other event different holds kept => stable config other event different holds kept.1

section Keeps

variable {post : Result → Snapshot Thread Loc Value Note → Prop}

theorem Keeps.interference {fuel : Nat} {program : Program Loc Value Note Result}
    {config after : Snapshot Thread Loc Value Note}
    (keeps : Keeps guarantee thread post fuel program config)
    (interfered : Interference guarantee thread config after) :
    Keeps guarantee thread post fuel program after := by
  cases fuel with
  | zero => trivial
  | succ fuel =>
      intro now later
      exact keeps now (interfered.trans later)

theorem Keeps.mono {weaker : Result → Snapshot Thread Loc Value Note → Prop}
    (weaken : ∀ result config, post result config → weaker result config)
    {fuel : Nat} {program : Program Loc Value Note Result} {config : Snapshot Thread Loc Value Note}
    (keeps : Keeps guarantee thread post fuel program config) :
    Keeps guarantee thread weaker fuel program config := by
  induction fuel generalizing program config with
  | zero => trivial
  | succ fuel inductionHypothesis =>
      intro now interfered
      have here := keeps now interfered
      cases program with
      | ret result => exact weaken _ _ here
      | undefined => exact here
      | load loc next => exact ⟨here.1, inductionHypothesis here.2⟩
      | store loc value next => exact ⟨here.1, inductionHypothesis here.2⟩
      | note text next => exact ⟨here.1, inductionHypothesis here.2⟩
      | loop state body next => exact inductionHypothesis here

theorem Keeps.pure {result : Result} {fuel : Nat} {config : Snapshot Thread Loc Value Note}
    (holds : ∀ now, Interference guarantee thread config now → post result now) :
    Keeps guarantee thread post fuel (Pure.pure result) config := by
  cases fuel with
  | zero => trivial
  | succ fuel => exact holds

/-- Fewer steps ask for less. -/
theorem Keeps.pred {fuel : Nat} {program : Program Loc Value Note Result}
    {config : Snapshot Thread Loc Value Note}
    (keeps : Keeps guarantee thread post (fuel + 1) program config) :
    Keeps guarantee thread post fuel program config := by
  induction fuel generalizing program config with
  | zero => trivial
  | succ fuel inductionHypothesis =>
      intro now interfered
      have here := keeps now interfered
      cases program with
      | ret result => exact here
      | undefined => exact here
      | load loc next => exact ⟨here.1, inductionHypothesis here.2⟩
      | store loc value next => exact ⟨here.1, inductionHypothesis here.2⟩
      | note text next => exact ⟨here.1, inductionHypothesis here.2⟩
      | loop state body next => exact inductionHypothesis here

theorem Keeps.bind {middle : Other → Snapshot Thread Loc Value Note → Prop}
    {rest : Other → Program Loc Value Note Result} {program : Program Loc Value Note Other}
    {fuel : Nat} {config : Snapshot Thread Loc Value Note}
    (keeps : Keeps guarantee thread middle fuel program config)
    (next : ∀ result config, middle result config →
      Keeps guarantee thread post fuel (rest result) config) :
    Keeps guarantee thread post fuel (program.bind rest) config := by
  induction fuel generalizing program config with
  | zero => trivial
  | succ fuel inductionHypothesis =>
      have nextPred := fun result config holds => (next result config holds).pred
      intro now interfered
      have here := keeps now interfered
      cases program with
      | ret result => exact next result now here now .refl
      | undefined => exact here
      | load loc following => exact ⟨here.1, inductionHypothesis here.2 nextPred⟩
      | store loc value following => exact ⟨here.1, inductionHypothesis here.2 nextPred⟩
      | note text following => exact ⟨here.1, inductionHypothesis here.2 nextPred⟩
      | loop state body following =>
          have unfolded := inductionHypothesis here nextPred
          rw [Program.bind_assoc] at unfolded
          simp only [Program.again_bind] at unfolded
          exact unfolded

/-- The frame rule for programs with limited effects: what the others keep, and the
program's own events keep, is kept. -/
theorem Keeps.frame {allowed : Effect Loc Value Note → Prop}
    {frame : Snapshot Thread Loc Value Note → Prop} (stable : Stable guarantee thread frame)
    (own : ∀ config event, frame config → allowed event → guarantee thread config event →
      frame (config.record thread event))
    {fuel : Nat} {program : Program Loc Value Note Result} {config : Snapshot Thread Loc Value Note}
    (only : program.Only allowed) (keeps : Keeps guarantee thread post fuel program config)
    (holds : frame config) :
    Keeps guarantee thread (fun result now => post result now ∧ frame now) fuel program config := by
  induction fuel generalizing program config with
  | zero => trivial
  | succ fuel inductionHypothesis =>
      intro now interfered
      have here := keeps now interfered
      have framed := stable.interference interfered holds
      cases only with
      | ret => exact ⟨here, framed⟩
      | undefined => exact here
      | load permitted rest =>
          have kept := own _ _ framed (permitted _) here.1
          exact ⟨here.1, inductionHypothesis (rest _) here.2 kept⟩
      | store permitted rest =>
          exact ⟨here.1, inductionHypothesis rest here.2 (own _ _ framed permitted here.1)⟩
      | note permitted rest =>
          exact ⟨here.1, inductionHypothesis rest here.2 (own _ _ framed permitted here.1)⟩
      | loop once rest => exact inductionHypothesis (.unfold once rest _) here framed

/-- A program with limited effects keeps to a guarantee that limits the effects of
all threads. -/
theorem Keeps.restrict {allowed : Effect Loc Value Note → Prop} {fuel : Nat}
    {program : Program Loc Value Note Result} {config : Snapshot Thread Loc Value Note}
    (only : program.Only allowed) (keeps : Keeps guarantee thread post fuel program config) :
    Keeps (guarantee.restrict allowed) thread post fuel program config := by
  induction fuel generalizing program config with
  | zero => trivial
  | succ fuel inductionHypothesis =>
      intro now interfered
      have here := keeps now interfered.of_restrict
      cases only with
      | ret => exact here
      | undefined => exact here
      | load permitted rest => exact ⟨⟨here.1, permitted _⟩, inductionHypothesis (rest _) here.2⟩
      | store permitted rest => exact ⟨⟨here.1, permitted⟩, inductionHypothesis rest here.2⟩
      | note permitted rest => exact ⟨⟨here.1, permitted⟩, inductionHypothesis rest here.2⟩
      | loop once rest => exact inductionHypothesis (.unfold once rest _) here

end Keeps

/-! ### Programs on locations of their own -/

variable (guarantee thread) in
/-- The events of a program that runs alone stay in a region that the other
threads leave alone, and the thread may perform each of them. `along` carries
what else is known after the first events. -/
structure Undisturbed (region : Loc → Prop)
    (along : List (Effect Loc Value Note) → Snapshot Thread Loc Value Note → Prop)
    (start : Loc → Value) (events : List (Effect Loc Value Note)) : Prop where
  within : ∀ event ∈ events, event.Within region
  stable : ∀ performed memory, Stable guarantee thread fun config =>
    along performed config ∧ Agree region config.mem memory
  own : ∀ before event later config, events = before ++ event :: later → along before config →
    Agree region config.mem (Effect.applyAll start before) →
    (∀ loc value, event = .load loc value → value = config.mem loc) →
    guarantee thread config event ∧ along (before ++ [event]) (config.record thread event)

namespace Undisturbed

variable {region : Loc → Prop} {start : Loc → Value} {event : Effect Loc Value Note}
variable {events : List (Effect Loc Value Note)} {config now : Snapshot Thread Loc Value Note}
variable {along : List (Effect Loc Value Note) → Snapshot Thread Loc Value Note → Prop}

theorem tail (undisturbed : Undisturbed guarantee thread region along start (event :: events)) :
    Undisturbed guarantee thread region (fun performed => along (event :: performed))
      (event.apply start) events where
  within later member := undisturbed.within later (List.mem_cons_of_mem _ member)
  stable performed memory := undisturbed.stable _ memory
  own before next later config split holds agree truthful :=
    undisturbed.own (event :: before) next later config (by rw [split]; rfl) holds agree truthful

/-- What a load sees after interference. -/
theorem loaded {loc : Loc} {value : Value}
    (undisturbed : Undisturbed guarantee thread region along start (.load loc value :: events))
    (interfered : Interference guarantee thread config now)
    (holds : along [] config ∧ Agree region config.mem start) : now.mem loc = start loc := by
  have stable := undisturbed.stable [] start
  exact (stable.interference interfered holds).2 loc (undisturbed.within _ (List.mem_cons_self ..))

/-- The first event, after interference. -/
theorem head (undisturbed : Undisturbed guarantee thread region along start (event :: events))
    (interfered : Interference guarantee thread config now)
    (holds : along [] config ∧ Agree region config.mem start)
    (truthful : ∀ loc value, event = .load loc value → value = start loc) :
    guarantee thread now event ∧ along [event] (now.record thread event) ∧
      Agree region (now.record thread event).mem (event.apply start) := by
  obtain ⟨holdsNow, agree⟩ := (undisturbed.stable [] start).interference interfered holds
  have seen : ∀ loc value, event = .load loc value → value = now.mem loc := by
    intro loc value same
    subst same
    rw [undisturbed.loaded interfered holds]
    exact truthful loc value rfl
  obtain ⟨kept, holdsNext⟩ := undisturbed.own [] event events now rfl holdsNow agree seen
  exact ⟨kept, holdsNext, agree.apply event⟩

/-- Events that are allowed keep to the limited guarantee. -/
theorem restrict (allowed : Effect Loc Value Note → Prop)
    (undisturbed : Undisturbed guarantee thread region along start events)
    (permitted : ∀ event ∈ events, allowed event) :
    Undisturbed (guarantee.restrict allowed) thread region along start events where
  within := undisturbed.within
  stable performed memory := (undisturbed.stable performed memory).restrict allowed
  own before event later config split holds agree truthful := by
    obtain ⟨kept, next⟩ := undisturbed.own before event later config split holds agree truthful
    exact ⟨⟨kept, permitted event (by rw [split]; simp)⟩, next⟩

end Undisturbed

namespace Triple

variable {pre : Snapshot Thread Loc Value Note → Prop}
variable {post : Result → Snapshot Thread Loc Value Note → Prop}

theorem conseq {stronger : Snapshot Thread Loc Value Note → Prop}
    {weaker : Result → Snapshot Thread Loc Value Note → Prop}
    {program : Program Loc Value Note Result}
    (triple : Triple guarantee thread pre program post)
    (strengthen : ∀ config, stronger config → pre config)
    (weaken : ∀ result config, post result config → weaker result config) :
    Triple guarantee thread stronger program weaker :=
  fun fuel config holds => (triple fuel config (strengthen config holds)).mono weaken

theorem pure {result : Result} (stable : Stable guarantee thread pre)
    (holds : ∀ config, pre config → post result config) :
    Triple guarantee thread pre (Pure.pure result) post := by
  intro fuel config start
  exact Keeps.pure fun now interfered => holds now (stable.interference interfered start)

theorem bind {middle : Other → Snapshot Thread Loc Value Note → Prop}
    {program : Program Loc Value Note Other} {rest : Other → Program Loc Value Note Result}
    (first : Triple guarantee thread pre program middle)
    (next : ∀ result, Triple guarantee thread (middle result) (rest result) post) :
    Triple guarantee thread pre (program >>= rest) post :=
  fun fuel config start => (first fuel config start).bind fun result now holds =>
    next result fuel now holds

theorem frame {allowed : Effect Loc Value Note → Prop}
    {program : Program Loc Value Note Result} {frame : Snapshot Thread Loc Value Note → Prop}
    (triple : Triple guarantee thread pre program post) (only : program.Only allowed)
    (stable : Stable guarantee thread frame)
    (own : ∀ config event, frame config → allowed event → guarantee thread config event →
      frame (config.record thread event)) :
    Triple guarantee thread (fun config => pre config ∧ frame config) program
      fun result config => post result config ∧ frame config :=
  fun fuel config holds => (triple fuel config holds.1).frame stable own only holds.2

theorem restrict {allowed : Effect Loc Value Note → Prop}
    {program : Program Loc Value Note Result} (triple : Triple guarantee thread pre program post)
    (only : program.Only allowed) : Triple (guarantee.restrict allowed) thread pre program post :=
  fun fuel config holds => (triple fuel config holds).restrict only

theorem read {loc : Loc} {post : Value → Snapshot Thread Loc Value Note → Prop}
    (stable : Stable guarantee thread pre)
    (allowed : ∀ config, pre config → guarantee thread config (.load loc (config.mem loc)))
    (after : ∀ value, Stable guarantee thread (post value))
    (holds : ∀ config, pre config →
      post (config.mem loc) (config.record thread (.load loc (config.mem loc)))) :
    Triple guarantee thread pre (Program.read loc) post := by
  intro fuel config start
  cases fuel with
  | zero => trivial
  | succ fuel =>
      intro now interfered
      have here := stable.interference interfered start
      exact ⟨allowed now here, Triple.pure (after _) (fun _ holds => holds) fuel _ (holds now here)⟩

theorem write {loc : Loc} {value : Value} {post : Unit → Snapshot Thread Loc Value Note → Prop}
    (stable : Stable guarantee thread pre)
    (allowed : ∀ config, pre config → guarantee thread config (.store loc value))
    (after : Stable guarantee thread (post ()))
    (holds : ∀ config, pre config → post () (config.record thread (.store loc value))) :
    Triple guarantee thread pre (Program.write loc value) post := by
  intro fuel config start
  cases fuel with
  | zero => trivial
  | succ fuel =>
      intro now interfered
      have here := stable.interference interfered start
      exact ⟨allowed now here, Triple.pure after (fun _ holds => holds) fuel _ (holds now here)⟩

theorem emit {text : Note} {post : Unit → Snapshot Thread Loc Value Note → Prop}
    (stable : Stable guarantee thread pre)
    (allowed : ∀ config, pre config → guarantee thread config (.note text))
    (after : Stable guarantee thread (post ()))
    (holds : ∀ config, pre config → post () (config.record thread (.note text))) :
    Triple guarantee thread pre (Program.emit text) post := by
  intro fuel config start
  cases fuel with
  | zero => trivial
  | succ fuel =>
      intro now interfered
      have here := stable.interference interfered start
      exact ⟨allowed now here, Triple.pure after (fun _ holds => holds) fuel _ (holds now here)⟩

/-- The loop rule: the body keeps the invariant or establishes the exit
condition. -/
theorem iterate (inv : State → Snapshot Thread Loc Value Note → Prop)
    {post : Exit → Snapshot Thread Loc Value Note → Prop}
    {body : State → Program Loc Value Note (State ⊕ Exit)}
    (stable : ∀ exit, Stable guarantee thread (post exit))
    (once : ∀ state, Triple guarantee thread (inv state) (body state)
      fun outcome config => outcome.elim (inv · config) (post · config)) (state : State) :
    Triple guarantee thread (inv state) (Program.iterate state body) post := by
  intro fuel
  induction fuel generalizing state with
  | zero => exact fun _ _ => trivial
  | succ fuel inductionHypothesis =>
      intro config start now interfered
      refine Keeps.interference ?_ interfered
      refine (once state fuel config start).bind fun outcome config holds => ?_
      cases outcome with
      | inl following => exact inductionHypothesis following config holds
      | inr exit => exact Triple.pure (stable exit) (fun _ holds => holds) fuel config holds

/-- The rule for `while`: the test decides between the invariant and the exit
condition. -/
theorem whileDo {exit : Snapshot Thread Loc Value Note → Prop}
    {test : Program Loc Value Note Bool} {body : Program Loc Value Note Unit}
    (stable : Stable guarantee thread pre) (stableExit : Stable guarantee thread exit)
    (tested : Triple guarantee thread pre test fun goesOn config =>
      if goesOn then pre config else exit config)
    (once : Triple guarantee thread pre body fun _ => pre) :
    Triple guarantee thread pre (Program.whileDo test body) fun _ => exit := by
  refine Triple.iterate (fun _ => pre) (fun _ => stableExit)
    (fun _ => tested.bind fun goesOn => ?_) ()
  cases goesOn with
  | true => exact once.bind fun _ => Triple.pure stable fun _ holds => holds
  | false => exact Triple.pure stableExit fun _ holds => holds

/-- A bounded loop over a list whose body keeps an assertion. -/
theorem forM {Item : Type} {items : List Item} {body : Item → Program Loc Value Note Unit}
    (stable : Stable guarantee thread pre)
    (once : ∀ item ∈ items, Triple guarantee thread pre (body item) fun _ => pre) :
    Triple guarantee thread pre (items.forM body) fun _ => pre := by
  induction items with
  | nil => exact Triple.pure stable fun _ holds => holds
  | cons item items inductionHypothesis =>
      exact (once item (List.mem_cons_self ..)).bind fun _ =>
        inductionHypothesis fun other member => once other (List.mem_cons_of_mem _ member)

/-- A bounded loop with an accumulator. -/
theorem foldlM {Item Acc : Type} {items : List Item}
    {body : Acc → Item → Program Loc Value Note Acc}
    (inv : Nat → Acc → Snapshot Thread Loc Value Note → Prop)
    (stable : ∀ count acc, Stable guarantee thread (inv count acc))
    (once : ∀ count (inside : count < items.length) acc,
      Triple guarantee thread (inv count acc) (body acc items[count]) (inv (count + 1))) (acc : Acc) :
    Triple guarantee thread (inv 0 acc) (items.foldlM body acc) (inv items.length) := by
  induction items generalizing inv acc with
  | nil => exact Triple.pure (stable 0 acc) fun _ holds => holds
  | cons item items inductionHypothesis =>
      rw [List.foldlM_cons]
      refine (once 0 (Nat.zero_lt_succ _) acc).bind fun next => ?_
      exact inductionHypothesis (fun count => inv (count + 1)) (fun count => stable (count + 1))
        (fun count inside => once (count + 1) (Nat.succ_lt_succ inside)) next

/-- A program that touches only locations the others leave alone behaves as it
does alone. -/
theorem of_eval {program : Program Loc Value Note Result} {start after : Loc → Value}
    {events : List (Effect Loc Value Note)} {result : Result} {region : Loc → Prop}
    {along : List (Effect Loc Value Note) → Snapshot Thread Loc Value Note → Prop}
    (evaluated : program.Eval start events result after)
    (undisturbed : Undisturbed guarantee thread region along start events) :
    Triple guarantee thread (fun config => along [] config ∧ Agree region config.mem start) program
      fun outcome config => outcome = result ∧ along events config ∧
        Agree region config.mem after := by
  intro fuel config holds
  induction evaluated generalizing along fuel config with
  | ret =>
      exact Triple.pure (undisturbed.stable _ _) (fun _ holds => ⟨rfl, holds⟩) fuel config holds
  | @load loc next start _ events _ _ inductionHypothesis =>
      cases fuel with
      | zero => trivial
      | succ fuel =>
          intro now interfered
          obtain ⟨kept, holdsNext⟩ := undisturbed.head interfered holds (by simp)
          have loaded : now.mem loc = start loc := undisturbed.loaded interfered holds
          change guarantee thread now (.load loc (now.mem loc)) ∧ _
          rw [loaded]
          exact ⟨kept, inductionHypothesis undisturbed.tail fuel _ holdsNext⟩
  | store _ inductionHypothesis =>
      cases fuel with
      | zero => trivial
      | succ fuel =>
          intro now interfered
          obtain ⟨kept, holdsNext⟩ := undisturbed.head interfered holds (by simp)
          exact ⟨kept, inductionHypothesis undisturbed.tail fuel _ holdsNext⟩
  | note _ inductionHypothesis =>
      cases fuel with
      | zero => trivial
      | succ fuel =>
          intro now interfered
          obtain ⟨kept, holdsNext⟩ := undisturbed.head interfered holds (by simp)
          exact ⟨kept, inductionHypothesis undisturbed.tail fuel _ holdsNext⟩
  | loop _ inductionHypothesis =>
      cases fuel with
      | zero => trivial
      | succ fuel =>
          intro now interfered
          exact inductionHypothesis undisturbed fuel now
            ((undisturbed.stable _ _).interference interfered holds)

end Triple

/-! ### Output -/

section Printed

variable [DecidableEq Thread] {lines : List Note}

/-- What the thread has printed. -/
def Printed (thread : Thread) (lines : List Note) (config : Snapshot Thread Loc Value Note) : Prop :=
  Effect.notes (Threads.eventsOf thread config.log) = lines

theorem printed_stable (guarantee : Guarantee Thread Loc Value Note) (thread : Thread)
    (lines : List Note) : Stable guarantee thread (Printed thread lines) := by
  intro config other event different printed _
  rw [Printed, Snapshot.record_log, Threads.eventsOf_append, Threads.eventsOf_other different,
    List.append_nil]
  exact printed

theorem Printed.record {config : Snapshot Thread Loc Value Note} (event : Effect Loc Value Note)
    (printed : Printed thread lines config) :
    Printed thread (lines ++ Effect.notes [event]) (config.record thread event) := by
  rw [Printed, Snapshot.record_log, Threads.eventsOf_append, Threads.eventsOf_own,
    Effect.notes_append, printed]

theorem Printed.record_silent {config : Snapshot Thread Loc Value Note}
    {event : Effect Loc Value Note} (printed : Printed thread lines config)
    (silent : event.Silent) : Printed thread lines (config.record thread event) := by
  have recorded := printed.record event
  rwa [Effect.notes_silent silent, List.append_nil] at recorded

namespace Triple

variable {pre : Snapshot Thread Loc Value Note → Prop}

/-- A silent program keeps the output. -/
theorem silent {program : Program Loc Value Note Result}
    {post : Result → Snapshot Thread Loc Value Note → Prop}
    (triple : Triple guarantee thread pre program post) (only : program.Only Effect.Silent)
    (lines : List Note) :
    Triple guarantee thread (fun config => pre config ∧ Printed thread lines config) program
      fun result config => post result config ∧ Printed thread lines config :=
  triple.frame only (printed_stable _ _ _) fun _ _ printed quiet _ => printed.record_silent quiet

/-- What is printed is added to the output. -/
theorem emit_printed {text : Note} {post : Unit → Snapshot Thread Loc Value Note → Prop}
    (triple : Triple guarantee thread pre (Program.emit text) post) (lines : List Note) :
    Triple guarantee thread (fun config => pre config ∧ Printed thread lines config)
      (Program.emit text)
      fun result config => post result config ∧ Printed thread (lines ++ [text]) config := by
  rintro fuel config ⟨holds, printed⟩
  cases fuel with
  | zero => trivial
  | succ fuel =>
      intro now interfered
      obtain ⟨permitted, returned⟩ := triple (fuel + 1) config holds now interfered
      have later := ((printed_stable guarantee thread lines).interference interfered printed).record
        (.note text)
      have nothing : ∀ result : Unit, (Program.ret result : Program Loc Value Note Unit).Only
          fun _ => False := fun _ => .ret
      exact ⟨permitted, returned.frame (printed_stable _ _ _) (fun _ _ _ => False.elim) (nothing _)
        later⟩

end Triple

end Printed

/-! ### Soundness -/

variable (guarantee) in
/-- Every event of the list is one its thread may perform at that point. -/
def Guaranteed : Snapshot Thread Loc Value Note → List (Thread × Effect Loc Value Note) → Prop
  | _, [] => True
  | config, (thread, event) :: later =>
      guarantee thread config event ∧ Guaranteed (config.record thread event) later

theorem guaranteed_append {config : Snapshot Thread Loc Value Note}
    {first second : List (Thread × Effect Loc Value Note)} :
    Guaranteed guarantee config (first ++ second) ↔
      Guaranteed guarantee config first ∧ Guaranteed guarantee (config.recordAll first) second := by
  induction first generalizing config with
  | nil => simp [Guaranteed, Snapshot.recordAll]
  | cons entry first inductionHypothesis =>
      simp only [List.cons_append, Guaranteed, inductionHypothesis, and_assoc]
      rfl

/-- What every guaranteed event preserves holds after all of them. -/
theorem Guaranteed.invariant {inv : Snapshot Thread Loc Value Note → Prop}
    {config : Snapshot Thread Loc Value Note} {entries : List (Thread × Effect Loc Value Note)}
    (guaranteed : Guaranteed guarantee config entries) (initial : inv config)
    (preserved : ∀ thread now event, inv now → guarantee thread now event →
      inv (now.record thread event)) :
    inv (config.recordAll entries) := by
  induction entries generalizing config with
  | nil => exact initial
  | cons entry entries inductionHypothesis =>
      exact inductionHypothesis guaranteed.2 (preserved _ _ _ initial guaranteed.1)

/-- Every event happens where the invariant holds. -/
theorem Guaranteed.of_mem {inv : Snapshot Thread Loc Value Note → Prop}
    {config : Snapshot Thread Loc Value Note} {entries : List (Thread × Effect Loc Value Note)}
    (guaranteed : Guaranteed guarantee config entries) (initial : inv config)
    (preserved : ∀ thread now event, inv now → guarantee thread now event →
      inv (now.record thread event))
    {thread : Thread} {event : Effect Loc Value Note} (member : (thread, event) ∈ entries) :
    ∃ now, inv now ∧ guarantee thread now event := by
  induction entries generalizing config with
  | nil => contradiction
  | cons entry entries inductionHypothesis =>
      rcases List.mem_cons.mp member with rfl | later
      · exact ⟨config, initial, guaranteed.1⟩
      · exact inductionHypothesis guaranteed.2 (preserved _ _ _ initial guaranteed.1) later

/-- Every event is one that its thread may perform somewhere. -/
theorem Guaranteed.permitted {config : Snapshot Thread Loc Value Note}
    {entries : List (Thread × Effect Loc Value Note)}
    (guaranteed : Guaranteed guarantee config entries)
    {thread : Thread} {event : Effect Loc Value Note} (member : (thread, event) ∈ entries) :
    ∃ now, guarantee thread now event := by
  induction entries generalizing config with
  | nil => contradiction
  | cons entry entries inductionHypothesis =>
      rcases List.mem_cons.mp member with rfl | later
      · exact ⟨config, guaranteed.1⟩
      · exact inductionHypothesis guaranteed.2 later

section Soundness

variable [DecidableEq Thread] {mem : Loc → Value}
variable {programs : Thread → Program Loc Value Note Unit}
variable {post : Thread → Unit → Snapshot Thread Loc Value Note → Prop}
variable {trace : List (Thread × Effect Loc Value Note)} {state : Threads Thread Loc Value Note}

omit [DecidableEq Thread] in
/-- One event of a thread that keeps to its guarantee. -/
theorem Keeps.step {post : Unit → Snapshot Thread Loc Value Note → Prop}
    {program next : Program Loc Value Note Unit} {emitted : Option (Effect Loc Value Note)}
    {config : Snapshot Thread Loc Value Note}
    (keeps : ∀ fuel, Keeps guarantee thread post fuel program config)
    (stepped : program.step config.mem = some (next, emitted)) :
    (emitted = none ∧ ∀ fuel, Keeps guarantee thread post fuel next config) ∨
      ∃ event, emitted = some event ∧ guarantee thread config event ∧
        ∀ fuel, Keeps guarantee thread post fuel next (config.record thread event) := by
  cases program with
  | ret => contradiction
  | undefined => contradiction
  | load loc following =>
      cases stepped
      exact .inr ⟨_, rfl, (keeps 1 config .refl).1, fun fuel => (keeps (fuel + 1) config .refl).2⟩
  | store loc value following =>
      cases stepped
      exact .inr ⟨_, rfl, (keeps 1 config .refl).1, fun fuel => (keeps (fuel + 1) config .refl).2⟩
  | note text following =>
      cases stepped
      exact .inr ⟨_, rfl, (keeps 1 config .refl).1, fun fuel => (keeps (fuel + 1) config .refl).2⟩
  | loop state body following =>
      cases stepped
      exact .inl ⟨rfl, fun fuel => keeps (fuel + 1) config .refl⟩

/-- In every run the events so far are guaranteed, and what is left of each
program keeps to the guarantee. -/
theorem run_keeps
    (starts : ∀ thread fuel, Keeps guarantee thread (post thread) fuel (programs thread) ⟨mem, []⟩)
    (run : Run (Threads.interleaving mem programs) anyStep trace state) :
    Guaranteed guarantee ⟨mem, []⟩ trace ∧ Snapshot.recordAll ⟨mem, []⟩ trace = ⟨state.mem, trace⟩ ∧
      ∀ thread fuel, Keeps guarantee thread (post thread) fuel (state.programs thread)
        ⟨state.mem, trace⟩ := by
  induction run with
  | init => exact ⟨trivial, rfl, starts⟩
  | @step trace events before after moved run _ taken inductionHypothesis =>
      obtain ⟨guaranteed, reached, keeps⟩ := inductionHypothesis
      obtain ⟨program, emitted, stepped, left, cases⟩ := Threads.step_cases taken
      have others : ∀ thread, thread ≠ moved → after.programs thread = before.programs thread :=
        fun thread different => by rw [left, Function.update_of_ne different]
      have own : after.programs moved = program := by rw [left, Function.update_self]
      rcases Keeps.step (keeps moved) stepped with ⟨silent, next⟩ | ⟨event, rfl, kept, next⟩
      · rcases cases with ⟨-, rfl, sameMem⟩ | ⟨event, emits, -, -⟩
        · rw [List.append_nil, sameMem]
          refine ⟨guaranteed, reached, fun thread fuel => ?_⟩
          by_cases same : thread = moved
          · subst same
            rw [own]
            exact next fuel
          · rw [others thread same]
            exact keeps thread fuel
        · rw [silent] at emits
          contradiction
      · rcases cases with ⟨silent, -, -⟩ | ⟨_, emits, rfl, newMem⟩
        · contradiction
        · obtain rfl : event = _ := Option.some.inj emits
          rw [newMem]
          refine ⟨guaranteed_append.mpr ⟨guaranteed, ?_, trivial⟩, ?_, fun thread fuel => ?_⟩
          · rw [reached]
            exact kept
          · rw [Snapshot.recordAll_append, reached]
            rfl
          · by_cases same : thread = moved
            · subst same
              rw [own]
              exact next fuel
            · rw [others thread same]
              exact (keeps thread fuel).interference (.step (Ne.symm same) kept .refl)

/-- A thread that has returned has established its postcondition. -/
theorem run_returned
    (starts : ∀ thread fuel, Keeps guarantee thread (post thread) fuel (programs thread) ⟨mem, []⟩)
    (run : Run (Threads.interleaving mem programs) anyStep trace state)
    (returned : state.programs thread = .ret ()) : post thread () ⟨state.mem, trace⟩ := by
  have keeps := (run_keeps starts run).2.2 thread 1
  rw [returned] at keeps
  exact keeps _ .refl

/-- No thread ever takes a step without a meaning. -/
theorem run_defined
    (starts : ∀ thread fuel, Keeps guarantee thread (post thread) fuel (programs thread) ⟨mem, []⟩)
    (run : Run (Threads.interleaving mem programs) anyStep trace state) (thread : Thread) :
    state.programs thread ≠ .undefined := by
  intro undefined
  have keeps := (run_keeps starts run).2.2 thread 1
  rw [undefined] at keeps
  exact keeps _ .refl

end Soundness

end Guarantee

end LibIvy.Lib
