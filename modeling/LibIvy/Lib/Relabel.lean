import LibIvy.Lib.Program

/-!
Contract: a program over the locations and notes of a larger one.

Owns: the renaming of programs and their events, that it commutes with binds and
loops, and that a renamed program evaluates as before on the locations it has.

Does not own: several programs at once.
-/

namespace LibIvy.Lib

variable {Loc Wide Value Note Text Result Other State Exit Item Acc : Type}

/-- The event at the renamed location, with the renamed note. -/
def Effect.relabel (place : Loc → Wide) (text : Note → Text) :
    Effect Loc Value Note → Effect Wide Value Text
  | .load loc value => .load (place loc) value
  | .store loc value => .store (place loc) value
  | .note line => .note (text line)

/-- The memory of the renamed locations changes as the memory of the program. -/
theorem Effect.apply_relabel [DecidableEq Loc] [DecidableEq Wide] {place : Loc → Wide}
    (text : Note → Text) (injective : Function.Injective place) {wide : Wide → Value}
    {mem : Loc → Value} (same : ∀ loc, wide (place loc) = mem loc) (event : Effect Loc Value Note)
    (loc : Loc) : (event.relabel place text).apply wide (place loc) = event.apply mem loc := by
  cases event with
  | load => exact same loc
  | note => exact same loc
  | store stored value =>
      change Function.update wide (place stored) value (place loc) = Function.update mem stored value loc
      by_cases here : loc = stored
      · subst here
        rw [Function.update_self, Function.update_self]
      · rw [Function.update_of_ne (injective.ne here), Function.update_of_ne here, same]

namespace Program

/-- The program at the renamed locations, with the renamed notes. -/
def relabel (place : Loc → Wide) (text : Note → Text) {Result : Type} :
    Program Loc Value Note Result → Program Wide Value Text Result
  | .ret result => .ret result
  | .load loc next => .load (place loc) fun value => (next value).relabel place text
  | .store loc value next => .store (place loc) value (next.relabel place text)
  | .note line next => .note (text line) (next.relabel place text)
  | .undefined => .undefined
  | .loop state body next =>
      .loop state (fun state => (body state).relabel place text)
        fun exit => (next exit).relabel place text

section Rules

variable (place : Loc → Wide) (text : Note → Text)

@[simp] theorem relabel_pure (result : Result) :
    (Pure.pure result : Program Loc Value Note Result).relabel place text = Pure.pure result := rfl

@[simp] theorem relabel_read (loc : Loc) :
    (read loc : Program Loc Value Note Value).relabel place text = read (place loc) := rfl

@[simp] theorem relabel_write (loc : Loc) (value : Value) :
    (write loc value : Program Loc Value Note Unit).relabel place text = write (place loc) value := rfl

theorem relabel_bind' (program : Program Loc Value Note Result)
    (rest : Result → Program Loc Value Note Other) :
    (program.bind rest).relabel place text =
      (program.relabel place text).bind fun result => (rest result).relabel place text := by
  induction program with
  | ret => rfl
  | undefined => rfl
  | load loc next inductionHypothesis => simp only [bind, relabel, inductionHypothesis]
  | store loc value next inductionHypothesis => simp only [bind, relabel, inductionHypothesis]
  | note line next inductionHypothesis => simp only [bind, relabel, inductionHypothesis]
  | loop state body next _ inductionHypothesis => simp only [bind, relabel, inductionHypothesis]

@[simp] theorem relabel_bind (program : Program Loc Value Note Result)
    (rest : Result → Program Loc Value Note Other) :
    (program >>= rest).relabel place text =
      program.relabel place text >>= fun result => (rest result).relabel place text :=
  relabel_bind' place text program rest

@[simp] theorem relabel_discard (program : Program Loc Value Note Result) :
    (discard program).relabel place text = discard (program.relabel place text) :=
  relabel_bind' place text program fun _ => .ret ()

@[simp] theorem relabel_iterate (state : State) (body : State → Program Loc Value Note (State ⊕ Exit)) :
    (iterate state body).relabel place text =
      iterate state fun state => (body state).relabel place text := rfl

@[simp] theorem relabel_whileDo (test : Program Loc Value Note Bool)
    (body : Program Loc Value Note Unit) :
    (whileDo test body).relabel place text =
      whileDo (test.relabel place text) (body.relabel place text) := by
  unfold whileDo
  rw [relabel_iterate]
  congr 1
  funext _
  rw [relabel_bind]
  congr 1
  funext goesOn
  cases goesOn with
  | true => exact relabel_bind ..
  | false => rfl

@[simp] theorem relabel_forM (items : List Item) (body : Item → Program Loc Value Note Unit) :
    (items.forM body).relabel place text = items.forM fun item => (body item).relabel place text := by
  induction items with
  | nil => rfl
  | cons item items inductionHypothesis =>
      change ((body item) >>= fun _ => items.forM body).relabel place text = _
      rw [relabel_bind, inductionHypothesis]
      rfl

@[simp] theorem relabel_foldlM (items : List Item) (acc : Acc)
    (body : Acc → Item → Program Loc Value Note Acc) :
    (items.foldlM body acc).relabel place text =
      items.foldlM (fun acc item => (body acc item).relabel place text) acc := by
  induction items generalizing acc with
  | nil => rfl
  | cons item items inductionHypothesis =>
      rw [List.foldlM_cons, relabel_bind, List.foldlM_cons]
      congr 1
      funext next
      exact inductionHypothesis next

end Rules

variable {place : Loc → Wide} {text : Note → Text}
variable {program : Program Loc Value Note Result}

theorem Only.relabel {allowed : Effect Wide Value Text → Prop}
    (only : program.Only fun event => allowed (event.relabel place text)) :
    Only allowed (program.relabel place text) := by
  induction only with
  | ret => exact .ret
  | undefined => exact .undefined
  | load permitted _ inductionHypothesis => exact .load permitted inductionHypothesis
  | store permitted _ inductionHypothesis => exact .store permitted inductionHypothesis
  | note permitted _ inductionHypothesis => exact .note permitted inductionHypothesis
  | loop _ _ onceHypothesis restHypothesis => exact .loop onceHypothesis restHypothesis

/-- A program that has no notes prints none. -/
theorem relabel_silent (program : Program Loc Value Empty Result) (place : Loc → Wide) :
    Only Effect.Silent (program.relabel place (Empty.elim : Empty → Text)) := by
  apply Only.relabel
  apply Only.of_all
  intro event
  cases event with
  | note line => exact line.elim
  | _ => trivial

theorem relabel_again (body : State → Program Loc Value Note (State ⊕ Exit))
    (next : Exit → Program Loc Value Note Result) (outcome : State ⊕ Exit) :
    (again body next outcome).relabel place text =
      again (fun state => (body state).relabel place text)
        (fun exit => (next exit).relabel place text) outcome := by
  cases outcome with
  | inl state => rfl
  | inr exit => rfl

variable (place text) in
/-- A renamed program that runs alone does what the program does. -/
theorem Eval.relabel [DecidableEq Loc] [DecidableEq Wide] {mem after : Loc → Value}
    {events : List (Effect Loc Value Note)} {result : Result} (injective : Function.Injective place)
    (evaluated : program.Eval mem events result after) (wide : Wide → Value)
    (same : ∀ loc, wide (place loc) = mem loc) :
    ∃ later, (program.relabel place text).Eval wide (events.map (Effect.relabel place text)) result
      later ∧ ∀ loc, later (place loc) = after loc := by
  induction evaluated generalizing wide with
  | ret => exact ⟨wide, .ret, same⟩
  | @load loc next mem _ _ _ _ inductionHypothesis =>
      obtain ⟨later, rest, sameLater⟩ := inductionHypothesis wide same
      have loaded : (Program.load loc next).relabel place text =
          .load (place loc) fun value => (next value).relabel place text := rfl
      rw [loaded, List.map_cons, Effect.relabel, ← same loc]
      rw [← same loc] at rest
      exact ⟨later, .load rest, sameLater⟩
  | @store loc value _ _ _ _ _ _ inductionHypothesis =>
      obtain ⟨later, rest, sameLater⟩ := inductionHypothesis
        (Function.update wide (place loc) value)
        (Effect.apply_relabel text injective same (.store loc value))
      exact ⟨later, .store rest, sameLater⟩
  | note _ inductionHypothesis =>
      obtain ⟨later, rest, sameLater⟩ := inductionHypothesis wide same
      exact ⟨later, .note rest, sameLater⟩
  | loop _ inductionHypothesis =>
      obtain ⟨later, rest, sameLater⟩ := inductionHypothesis wide same
      rw [relabel_bind'] at rest
      simp only [relabel_again] at rest
      exact ⟨later, .loop rest, sameLater⟩

end Program

end LibIvy.Lib
