import Mathlib.Data.List.Basic
import Mathlib.Logic.Function.Basic

/-!
Contract: sequential programs over a memory of typed locations.

A program is a tree of its memory accesses. It loads and stores one location at
a time, emits notes (its output), may loop forever, and may run into undefined
behaviour. Local computation is Lean's own and takes no step. The same tree is
evaluated alone here and interleaved with other programs elsewhere.

Owns: accesses and the memory they leave, the program monad, the small step,
programs that keep to a set of events, the terminating evaluation of one program
alone, and the rules to evaluate binds, bounded loops and unbounded loops.

Does not own: several programs at once, or any particular program.
-/

namespace LibIvy.Lib

/-- What a program does in one step that others can observe. -/
inductive Effect (Loc Value Note : Type) where
  | load (loc : Loc) (value : Value)
  | store (loc : Loc) (value : Value)
  | note (text : Note)
deriving DecidableEq, Repr

namespace Effect

variable {Loc Value Note : Type} [DecidableEq Loc]

/-- The memory after an event. -/
def apply (mem : Loc → Value) : Effect Loc Value Note → Loc → Value
  | .store loc value => Function.update mem loc value
  | _ => mem

/-- The memory after a list of events. -/
def applyAll (mem : Loc → Value) (events : List (Effect Loc Value Note)) : Loc → Value :=
  events.foldl apply mem

@[simp] theorem apply_load (mem : Loc → Value) (loc : Loc) (value : Value) :
    apply mem (.load loc value : Effect Loc Value Note) = mem := rfl

@[simp] theorem apply_store (mem : Loc → Value) (loc : Loc) (value : Value) :
    apply mem (.store loc value : Effect Loc Value Note) = Function.update mem loc value := rfl

@[simp] theorem apply_note (mem : Loc → Value) (text : Note) :
    apply mem (.note text : Effect Loc Value Note) = mem := rfl

@[simp] theorem applyAll_nil (mem : Loc → Value) :
    applyAll mem ([] : List (Effect Loc Value Note)) = mem := rfl

@[simp] theorem applyAll_cons (mem : Loc → Value) (event : Effect Loc Value Note)
    (later : List (Effect Loc Value Note)) :
    applyAll mem (event :: later) = applyAll (event.apply mem) later := rfl

theorem applyAll_append (mem : Loc → Value) (first second : List (Effect Loc Value Note)) :
    applyAll mem (first ++ second) = applyAll (applyAll mem first) second := by
  simp [applyAll]

/-- Stores of values to locations, in order. -/
def stores (entries : List (Loc × Value)) : List (Effect Loc Value Note) :=
  entries.map fun entry => .store entry.1 entry.2

omit [DecidableEq Loc] in
theorem mem_stores {entries : List (Loc × Value)} {event : Effect Loc Value Note} :
    event ∈ stores entries ↔ ∃ entry ∈ entries, event = .store entry.1 entry.2 := by
  simp only [stores, List.mem_map, eq_comm]

omit [DecidableEq Loc] in
theorem stores_append (first second : List (Loc × Value)) :
    (stores (first ++ second) : List (Effect Loc Value Note)) = stores first ++ stores second :=
  List.map_append ..

/-- After stores that put the same value wherever they hit a location, and hit it
at least once, the location holds that value. -/
theorem applyAll_stores {entries : List (Loc × Value)} {mem : Loc → Value} {loc : Loc}
    {value : Value}
    (same : ∀ entry ∈ entries, entry.1 = loc → entry.2 = value)
    (hit : mem loc = value ∨ ∃ entry ∈ entries, entry.1 = loc) :
    applyAll mem (stores entries : List (Effect Loc Value Note)) loc = value := by
  induction entries generalizing mem with
  | nil => exact hit.resolve_right (by simp)
  | cons entry entries inductionHypothesis =>
      refine inductionHypothesis (fun other member => same other (List.mem_cons_of_mem _ member)) ?_
      by_cases here : entry.1 = loc
      · left
        rw [← same entry (List.mem_cons_self ..) here, ← here]
        exact Function.update_self ..
      · rw [apply_store, Function.update_of_ne (Ne.symm here)]
        refine hit.imp_right ?_
        rintro ⟨other, member, hits⟩
        rcases List.mem_cons.mp member with rfl | later
        · exact absurd hits here
        · exact ⟨other, later, hits⟩

/-- A loop that stores each item at its index leaves it there, whatever is stored
elsewhere afterwards. -/
theorem applyAll_stores_indexed {Item : Type} {items : List Item} (place : Nat → Loc)
    (content : Item → Value) (distinct : Function.Injective place)
    {before after : List (Loc × Value)}
    (elsewhere : ∀ entry ∈ after, ∀ index, entry.1 ≠ place index)
    {mem : Loc → Value} {index : Nat} {item : Item} (found : items[index]? = some item) :
    applyAll mem (stores (before ++ ((items.zipIdx.map fun entry =>
      (place entry.2, content entry.1)) ++ after)) : List (Effect Loc Value Note)) (place index) =
      content item := by
  rw [stores_append, applyAll_append]
  have member : (place index, content item) ∈
      items.zipIdx.map fun entry => (place entry.2, content entry.1) :=
    List.mem_map.mpr ⟨(item, index), List.mem_zipIdx_iff_getElem?.mpr found, rfl⟩
  refine applyAll_stores (fun entry stored here => ?_)
    (.inr ⟨_, List.mem_append_left _ member, rfl⟩)
  rcases List.mem_append.mp stored with fromItems | later
  · obtain ⟨⟨other, position⟩, listed, rfl⟩ := List.mem_map.mp fromItems
    obtain rfl := distinct here
    rw [List.mem_zipIdx_iff_getElem?, found] at listed
    rw [Option.some.inj listed]
  · exact absurd here (elsewhere entry later index)

/-- The event loads or stores only locations of `region`. -/
def Within (region : Loc → Prop) : Effect Loc Value Note → Prop
  | .load loc _ => region loc
  | .store loc _ => region loc
  | .note _ => True

omit [DecidableEq Loc] in
theorem within_all (event : Effect Loc Value Note) : event.Within fun _ => True := by
  cases event <;> trivial

/-- The event stores only in `region`. -/
def StoresWithin (region : Loc → Prop) : Effect Loc Value Note → Prop
  | .store loc _ => region loc
  | _ => True

/-- The event prints nothing. -/
def Silent : Effect Loc Value Note → Prop
  | .note _ => False
  | _ => True

/-- The notes among the events, in order. -/
def notes (events : List (Effect Loc Value Note)) : List Note :=
  events.filterMap fun
    | .note text => some text
    | _ => none

omit [DecidableEq Loc] in
@[simp] theorem notes_nil : notes ([] : List (Effect Loc Value Note)) = [] := rfl

omit [DecidableEq Loc] in
@[simp] theorem notes_append (first second : List (Effect Loc Value Note)) :
    notes (first ++ second) = notes first ++ notes second := by
  simp [notes]

omit [DecidableEq Loc] in
@[simp] theorem notes_cons_note (text : Note) (later : List (Effect Loc Value Note)) :
    notes (.note text :: later) = text :: notes later := rfl

omit [DecidableEq Loc] in
@[simp] theorem notes_cons_load (loc : Loc) (value : Value) (later : List (Effect Loc Value Note)) :
    notes (.load loc value :: later) = notes later := rfl

omit [DecidableEq Loc] in
theorem notes_silent {event : Effect Loc Value Note} (silent : event.Silent) :
    notes [event] = [] := by
  cases event with
  | note => exact silent.elim
  | _ => rfl

omit [DecidableEq Loc] in
@[simp] theorem notes_cons_store (loc : Loc) (value : Value)
    (later : List (Effect Loc Value Note)) :
    notes (.store loc value :: later) = notes later := rfl

end Effect

/-- A program with a result. `undefined` stands for a step without a meaning
(a division by zero, the use of an unset variable). -/
inductive Program (Loc Value Note : Type) : Type → Type 1 where
  | ret {Result : Type} (result : Result) : Program Loc Value Note Result
  | load {Result : Type} (loc : Loc) (next : Value → Program Loc Value Note Result) :
      Program Loc Value Note Result
  | store {Result : Type} (loc : Loc) (value : Value) (next : Program Loc Value Note Result) :
      Program Loc Value Note Result
  | note {Result : Type} (text : Note) (next : Program Loc Value Note Result) :
      Program Loc Value Note Result
  | undefined {Result : Type} : Program Loc Value Note Result
  /-- Run the body on the state; it gives the next state or leaves the loop. -/
  | loop {State Exit Result : Type} (state : State)
      (body : State → Program Loc Value Note (State ⊕ Exit))
      (next : Exit → Program Loc Value Note Result) : Program Loc Value Note Result

namespace Program

variable {Loc Value Note Result Other Third State Exit : Type}

def bind : Program Loc Value Note Result → (Result → Program Loc Value Note Other) →
    Program Loc Value Note Other
  | .ret result, rest => rest result
  | .load loc next, rest => .load loc fun value => (next value).bind rest
  | .store loc value next, rest => .store loc value (next.bind rest)
  | .note text next, rest => .note text (next.bind rest)
  | .undefined, _ => .undefined
  | .loop state body next, rest => .loop state body fun exit => (next exit).bind rest

instance : Monad (Program Loc Value Note) where
  pure := ret
  bind := bind

/-! ### The primitives, for `do` blocks -/

def read (loc : Loc) : Program Loc Value Note Value := .load loc .ret

def write (loc : Loc) (value : Value) : Program Loc Value Note Unit := .store loc value (.ret ())

def emit (text : Note) : Program Loc Value Note Unit := .note text (.ret ())

/-- Repeat the body until it leaves the loop. -/
def iterate (state : State) (body : State → Program Loc Value Note (State ⊕ Exit)) :
    Program Loc Value Note Exit :=
  .loop state body .ret

/-- `while (test) body`. -/
def whileDo (test : Program Loc Value Note Bool) (body : Program Loc Value Note Unit) :
    Program Loc Value Note Unit :=
  iterate () fun _ => do
    if ← test then
      body
      return .inl ()
    else
      return .inr ()

theorem bind_ret (program : Program Loc Value Note Result) : program.bind .ret = program := by
  induction program with
  | ret => rfl
  | undefined => rfl
  | load loc next inductionHypothesis => simp only [bind, inductionHypothesis]
  | store loc value next inductionHypothesis => simp only [bind, inductionHypothesis]
  | note text next inductionHypothesis => simp only [bind, inductionHypothesis]
  | loop state body next _ inductionHypothesis => simp only [bind, inductionHypothesis]

theorem bind_assoc (program : Program Loc Value Note Result)
    (first : Result → Program Loc Value Note Other)
    (second : Other → Program Loc Value Note Third) :
    (program.bind first).bind second = program.bind fun result => (first result).bind second := by
  induction program with
  | ret => rfl
  | undefined => rfl
  | load loc next inductionHypothesis => simp only [bind, inductionHypothesis]
  | store loc value next inductionHypothesis => simp only [bind, inductionHypothesis]
  | note text next inductionHypothesis => simp only [bind, inductionHypothesis]
  | loop state body next _ inductionHypothesis => simp only [bind, inductionHypothesis]

instance : LawfulMonad (Program Loc Value Note) :=
  LawfulMonad.mk' _ bind_ret (fun _ _ => rfl) bind_assoc

/-! ### Steps -/

/-- What follows one run of a loop's body. -/
def again (body : State → Program Loc Value Note (State ⊕ Exit))
    (next : Exit → Program Loc Value Note Result) : State ⊕ Exit → Program Loc Value Note Result
  | .inl state => .loop state body next
  | .inr exit => next exit

/-- One step: at most one event. Entering the body of a loop is a step of its
own. A program that has returned or is undefined takes no step. -/
def step (mem : Loc → Value) : Program Loc Value Note Result →
    Option (Program Loc Value Note Result × Option (Effect Loc Value Note))
  | .ret _ => none
  | .undefined => none
  | .load loc next => some (next (mem loc), some (.load loc (mem loc)))
  | .store loc value next => some (next, some (.store loc value))
  | .note text next => some (next, some (.note text))
  | .loop state body next => some ((body state).bind (again body next), none)

/-- A step depends on the memory only in the location that it loads. -/
theorem step_congr {program next : Program Loc Value Note Result} {mem other : Loc → Value}
    {emitted : Option (Effect Loc Value Note)} (stepped : program.step mem = some (next, emitted))
    (same : ∀ loc value, emitted = some (.load loc value) → mem loc = other loc) :
    program.step other = some (next, emitted) := by
  cases program with
  | load loc following =>
      cases stepped
      simp only [step, same loc _ rfl]
  | ret => contradiction
  | undefined => contradiction
  | _ => exact stepped

/-- A program that loads a location loads it from any memory. -/
theorem step_load {program next : Program Loc Value Note Result} {mem : Loc → Value} {loc : Loc}
    {value : Value} (stepped : program.step mem = some (next, some (.load loc value)))
    (other : Loc → Value) :
    ∃ after, program.step other = some (after, some (.load loc (other loc))) := by
  cases program with
  | load loaded following =>
      cases stepped
      exact ⟨_, rfl⟩
  | _ => simp [step] at stepped

theorem again_bind (body : State → Program Loc Value Note (State ⊕ Exit))
    (next : Exit → Program Loc Value Note Result)
    (rest : Result → Program Loc Value Note Other) (outcome : State ⊕ Exit) :
    (again body next outcome).bind rest =
      again body (fun exit => (next exit).bind rest) outcome := by
  cases outcome with
  | inl => rfl
  | inr => rfl

/-! ### Programs with limited effects -/

/-- Whatever is loaded, the program performs allowed events only. -/
inductive Only (allowed : Effect Loc Value Note → Prop) :
    ∀ {Result : Type}, Program Loc Value Note Result → Prop where
  | ret {Result : Type} {result : Result} : Only allowed (.ret result)
  | undefined {Result : Type} : Only allowed (.undefined : Program Loc Value Note Result)
  | load {Result : Type} {loc : Loc} {next : Value → Program Loc Value Note Result}
      (permitted : ∀ value, allowed (.load loc value)) (rest : ∀ value, Only allowed (next value)) :
      Only allowed (.load loc next)
  | store {Result : Type} {loc : Loc} {value : Value} {next : Program Loc Value Note Result}
      (permitted : allowed (.store loc value)) (rest : Only allowed next) :
      Only allowed (.store loc value next)
  | note {Result : Type} {text : Note} {next : Program Loc Value Note Result}
      (permitted : allowed (.note text)) (rest : Only allowed next) :
      Only allowed (.note text next)
  | loop {State Exit Result : Type} {state : State}
      {body : State → Program Loc Value Note (State ⊕ Exit)}
      {next : Exit → Program Loc Value Note Result} (once : ∀ state, Only allowed (body state))
      (rest : ∀ exit, Only allowed (next exit)) : Only allowed (.loop state body next)

namespace Only

variable {allowed : Effect Loc Value Note → Prop} {program : Program Loc Value Note Result}

theorem pure (result : Result) : Only allowed (Pure.pure result : Program Loc Value Note Result) :=
  .ret

theorem read {loc : Loc} (permitted : ∀ value, allowed (.load loc value)) :
    Only allowed (Program.read loc : Program Loc Value Note Value) :=
  .load permitted fun _ => .ret

theorem write {loc : Loc} {value : Value} (permitted : allowed (.store loc value)) :
    Only allowed (Program.write loc value : Program Loc Value Note Unit) :=
  .store permitted .ret

theorem emit {text : Note} (permitted : allowed (.note text)) :
    Only allowed (Program.emit text : Program Loc Value Note Unit) :=
  .note permitted .ret

/-- Every effect is allowed. -/
theorem of_all (all : ∀ event, allowed event) (program : Program Loc Value Note Result) :
    Only allowed program := by
  induction program with
  | ret => exact .ret
  | undefined => exact .undefined
  | load loc next inductionHypothesis => exact .load (fun _ => all _) inductionHypothesis
  | store loc value next inductionHypothesis => exact .store (all _) inductionHypothesis
  | note text next inductionHypothesis => exact .note (all _) inductionHypothesis
  | loop state body next onceHypothesis restHypothesis =>
      exact .loop onceHypothesis restHypothesis

/-- More effects may be allowed. -/
theorem mono {wider : Effect Loc Value Note → Prop} (only : Only allowed program)
    (widen : ∀ event, allowed event → wider event) : Only wider program := by
  induction only with
  | ret => exact .ret
  | undefined => exact .undefined
  | load permitted _ inductionHypothesis =>
      exact .load (fun value => widen _ (permitted value)) inductionHypothesis
  | store permitted _ inductionHypothesis => exact .store (widen _ permitted) inductionHypothesis
  | note permitted _ inductionHypothesis => exact .note (widen _ permitted) inductionHypothesis
  | loop _ _ onceHypothesis restHypothesis => exact .loop onceHypothesis restHypothesis

theorem bind {rest : Result → Program Loc Value Note Other} (first : Only allowed program)
    (next : ∀ result, Only allowed (rest result)) : Only allowed (program >>= rest) := by
  change Only allowed (program.bind rest)
  induction program with
  | ret result => exact next result
  | undefined => exact .undefined
  | load loc following inductionHypothesis =>
      cases first with
      | load permitted later =>
          exact .load permitted fun value => inductionHypothesis value (later value) next
  | store loc value following inductionHypothesis =>
      cases first with
      | store permitted later => exact .store permitted (inductionHypothesis later next)
  | note text following inductionHypothesis =>
      cases first with
      | note permitted later => exact .note permitted (inductionHypothesis later next)
  | loop state body following _ inductionHypothesis =>
      cases first with
      | loop once later => exact .loop once fun exit => inductionHypothesis exit (later exit) next

theorem discard (only : Only allowed program) : Only allowed (Functor.discard program) :=
  only.bind fun _ => .ret

theorem iterate {body : State → Program Loc Value Note (State ⊕ Exit)}
    (once : ∀ state, Only allowed (body state)) (state : State) :
    Only allowed (Program.iterate state body) :=
  .loop once fun _ => .ret

theorem whileDo {test : Program Loc Value Note Bool} {body : Program Loc Value Note Unit}
    (tested : Only allowed test) (once : Only allowed body) :
    Only allowed (Program.whileDo test body) := by
  refine iterate (fun _ => tested.bind fun goesOn => ?_) ()
  cases goesOn with
  | true => exact once.bind fun _ => .ret
  | false => exact .ret

theorem forM {Item : Type} {items : List Item} {body : Item → Program Loc Value Note Unit}
    (once : ∀ item ∈ items, Only allowed (body item)) : Only allowed (items.forM body) := by
  induction items with
  | nil => exact .ret
  | cons item items inductionHypothesis =>
      apply (once item (List.mem_cons_self ..)).bind
      exact fun _ => inductionHypothesis fun other member => once other (List.mem_cons_of_mem _ member)

theorem foldlM {Item Acc : Type} {items : List Item} {acc : Acc}
    {body : Acc → Item → Program Loc Value Note Acc}
    (once : ∀ current, ∀ item ∈ items, Only allowed (body current item)) :
    Only allowed (items.foldlM body acc) := by
  induction items generalizing acc with
  | nil => exact .ret
  | cons item items inductionHypothesis =>
      rw [List.foldlM_cons]
      apply (once acc item (List.mem_cons_self ..)).bind
      exact fun _ => inductionHypothesis fun current other member =>
        once current other (List.mem_cons_of_mem _ member)

/-- The next run of a loop's body. -/
theorem unfold {body : State → Program Loc Value Note (State ⊕ Exit)}
    {next : Exit → Program Loc Value Note Result} (once : ∀ state, Only allowed (body state))
    (rest : ∀ exit, Only allowed (next exit)) (state : State) :
    Only allowed ((body state).bind (again body next)) := by
  refine (once state).bind fun outcome => ?_
  cases outcome with
  | inl following => exact .loop once rest
  | inr exit => exact rest exit

/-- The step is allowed, and what is left of the program performs allowed events only. -/
theorem step {mem : Loc → Value} {next : Program Loc Value Note Result}
    {emitted : Option (Effect Loc Value Note)} (only : Only allowed program)
    (stepped : program.step mem = some (next, emitted)) :
    Only allowed next ∧ ∀ event, emitted = some event → allowed event := by
  cases only with
  | ret => contradiction
  | undefined => contradiction
  | load permitted rest =>
      cases stepped
      exact ⟨rest _, by rintro _ ⟨⟩; exact permitted _⟩
  | store permitted rest =>
      cases stepped
      exact ⟨rest, by rintro _ ⟨⟩; exact permitted⟩
  | note permitted rest =>
      cases stepped
      exact ⟨rest, by rintro _ ⟨⟩; exact permitted⟩
  | loop once rest =>
      cases stepped
      exact ⟨unfold once rest _, nofun⟩

end Only

/-! ### Evaluation of a program that runs alone -/

variable [DecidableEq Loc]

/-- `Eval program mem events result after`: alone from `mem`, the program
terminates with `result` and leaves `after`, with these events. -/
inductive Eval {Result : Type} : Program Loc Value Note Result → (Loc → Value) →
    List (Effect Loc Value Note) → Result → (Loc → Value) → Prop where
  | ret {mem : Loc → Value} {result : Result} : Eval (.ret result) mem [] result mem
  | load {loc : Loc} {next : Value → Program Loc Value Note Result} {mem after : Loc → Value}
      {events : List (Effect Loc Value Note)} {result : Result}
      (rest : Eval (next (mem loc)) mem events result after) :
      Eval (.load loc next) mem (.load loc (mem loc) :: events) result after
  | store {loc : Loc} {value : Value} {next : Program Loc Value Note Result}
      {mem after : Loc → Value} {events : List (Effect Loc Value Note)} {result : Result}
      (rest : Eval next (Function.update mem loc value) events result after) :
      Eval (.store loc value next) mem (.store loc value :: events) result after
  | note {text : Note} {next : Program Loc Value Note Result} {mem after : Loc → Value}
      {events : List (Effect Loc Value Note)} {result : Result}
      (rest : Eval next mem events result after) :
      Eval (.note text next) mem (.note text :: events) result after
  | loop {State Exit : Type} {state : State} {body : State → Program Loc Value Note (State ⊕ Exit)}
      {next : Exit → Program Loc Value Note Result} {mem after : Loc → Value}
      {events : List (Effect Loc Value Note)} {result : Result}
      (rest : Eval ((body state).bind (again body next)) mem events result after) :
      Eval (.loop state body next) mem events result after

namespace Eval

variable {mem middle after : Loc → Value} {events later : List (Effect Loc Value Note)}
variable {result : Result} {other : Other}
variable {program : Program Loc Value Note Result} {rest : Result → Program Loc Value Note Other}

theorem allowed {allowed : Effect Loc Value Note → Prop} (only : program.Only allowed)
    (evaluated : Eval program mem events result after) : ∀ event ∈ events, allowed event := by
  induction evaluated with
  | ret => simp
  | load _ inductionHypothesis =>
      cases only with
      | load permitted next => exact List.forall_mem_cons.mpr ⟨permitted _, inductionHypothesis (next _)⟩
  | store _ inductionHypothesis =>
      cases only with
      | store permitted next => exact List.forall_mem_cons.mpr ⟨permitted, inductionHypothesis next⟩
  | note _ inductionHypothesis =>
      cases only with
      | note permitted next => exact List.forall_mem_cons.mpr ⟨permitted, inductionHypothesis next⟩
  | loop _ inductionHypothesis =>
      cases only with
      | loop once next => exact inductionHypothesis (.unfold once next _)

/-- The memory left behind is the one the events leave. -/
theorem after_eq (evaluated : Eval program mem events result after) :
    after = Effect.applyAll mem events := by
  induction evaluated with
  | ret => rfl
  | load _ inductionHypothesis => exact inductionHypothesis
  | store _ inductionHypothesis => exact inductionHypothesis
  | note _ inductionHypothesis => exact inductionHypothesis
  | loop _ inductionHypothesis => exact inductionHypothesis

theorem bind (first : Eval program mem events result middle)
    (second : Eval (rest result) middle later other after) :
    Eval (program >>= rest) mem (events ++ later) other after := by
  change Eval (program.bind rest) _ _ _ _
  induction first with
  | ret => exact second
  | load _ inductionHypothesis => exact .load (inductionHypothesis second)
  | store _ inductionHypothesis => exact .store (inductionHypothesis second)
  | note _ inductionHypothesis => exact .note (inductionHypothesis second)
  | loop _ inductionHypothesis =>
      refine .loop ?_
      have rerun := inductionHypothesis second
      rw [bind_assoc] at rerun
      simpa only [again_bind] using rerun

/-- A program alone has at most one outcome. -/
theorem unique {otherEvents : List (Effect Loc Value Note)} {otherResult : Result}
    {otherAfter : Loc → Value} (left : Eval program mem events result after)
    (right : Eval program mem otherEvents otherResult otherAfter) :
    events = otherEvents ∧ result = otherResult ∧ after = otherAfter := by
  induction left generalizing otherEvents with
  | ret =>
      cases right
      exact ⟨rfl, rfl, rfl⟩
  | load _ inductionHypothesis =>
      cases right with
      | load right =>
          obtain ⟨rfl, same⟩ := inductionHypothesis right
          exact ⟨rfl, same⟩
  | store _ inductionHypothesis =>
      cases right with
      | store right =>
          obtain ⟨rfl, same⟩ := inductionHypothesis right
          exact ⟨rfl, same⟩
  | note _ inductionHypothesis =>
      cases right with
      | note right =>
          obtain ⟨rfl, same⟩ := inductionHypothesis right
          exact ⟨rfl, same⟩
  | loop _ inductionHypothesis =>
      cases right with
      | loop right => exact inductionHypothesis right

theorem pure (result : Result) (mem : Loc → Value) :
    Eval (Pure.pure result : Program Loc Value Note Result) mem [] result mem := .ret

theorem read (loc : Loc) (mem : Loc → Value) :
    Eval (Program.read loc : Program Loc Value Note Value) mem [.load loc (mem loc)]
      (mem loc) mem :=
  .load .ret

theorem write (loc : Loc) (value : Value) (mem : Loc → Value) :
    Eval (Program.write loc value : Program Loc Value Note Unit) mem [.store loc value] ()
      (Function.update mem loc value) :=
  .store .ret

theorem emit (text : Note) (mem : Loc → Value) :
    Eval (Program.emit text : Program Loc Value Note Unit) mem [.note text] () mem :=
  .note .ret

/-! #### Loops -/

/-- A loop that stores once for each item. -/
theorem forM_write {Item : Type} (items : List Item) (target : Item → Loc × Value)
    (mem : Loc → Value) :
    Eval (items.forM fun item =>
        (Program.write (target item).1 (target item).2 : Program Loc Value Note Unit))
      mem (Effect.stores (items.map target)) ()
      (Effect.applyAll mem (Effect.stores (items.map target) : List (Effect Loc Value Note))) := by
  induction items generalizing mem with
  | nil => exact .pure () mem
  | cons item items inductionHypothesis => exact .store (inductionHypothesis _)

/-- The body leaves the loop. -/
theorem iterate_exit {state : State} {exit : Exit}
    {body : State → Program Loc Value Note (State ⊕ Exit)}
    (left : Eval (body state) mem events (.inr exit) after) :
    Eval (iterate state body) mem events exit after := by
  refine .loop ?_
  have whole : Eval (body state >>= again body .ret) mem (events ++ []) exit after :=
    left.bind (.pure exit after)
  rwa [List.append_nil] at whole

/-- The body is run once more. -/
theorem iterate_next {state following : State} {exit : Exit}
    {body : State → Program Loc Value Note (State ⊕ Exit)}
    (once : Eval (body state) mem events (.inl following) middle)
    (others : Eval (iterate following body) middle later exit after) :
    Eval (iterate state body) mem (events ++ later) exit after := by
  have whole : Eval (body state >>= again body .ret) mem (events ++ later) exit after :=
    once.bind others
  exact .loop whole

/-- The test of a `while` loop fails. -/
theorem whileDo_exit {test : Program Loc Value Note Bool} {body : Program Loc Value Note Unit}
    (tested : Eval test mem events false after) : Eval (whileDo test body) mem events () after := by
  refine iterate_exit ?_
  have whole : Eval (test >>= fun goesOn =>
      if goesOn then body >>= fun _ => Pure.pure (.inl ()) else Pure.pure (.inr ()))
      mem (events ++ [])
      (.inr () : Unit ⊕ Unit) after := tested.bind (.pure _ after)
  rwa [List.append_nil] at whole

end Eval

/-! ### Total correctness -/

/-- Alone from `mem` the program terminates, all its events are allowed, and the
result and the memory it leaves meet `post`. -/
def Ensures (allowed : Effect Loc Value Note → Prop) (program : Program Loc Value Note Result)
    (mem : Loc → Value) (post : Result → (Loc → Value) → Prop) : Prop :=
  ∃ events result after, program.Eval mem events result after ∧
    (∀ event ∈ events, allowed event) ∧ post result after

namespace Ensures

variable {allowed : Effect Loc Value Note → Prop} {mem : Loc → Value}

theorem pure {result : Result} {post : Result → (Loc → Value) → Prop} (holds : post result mem) :
    Ensures allowed (Pure.pure result : Program Loc Value Note Result) mem post :=
  ⟨[], result, mem, .pure result mem, by simp, holds⟩

theorem read {loc : Loc} {post : Value → (Loc → Value) → Prop}
    (permitted : allowed (.load loc (mem loc))) (holds : post (mem loc) mem) :
    Ensures allowed (Program.read loc : Program Loc Value Note Value) mem post :=
  ⟨_, _, _, .read loc mem, by simpa using permitted, holds⟩

theorem write {loc : Loc} {value : Value} {post : Unit → (Loc → Value) → Prop}
    (permitted : allowed (.store loc value)) (holds : post () (Function.update mem loc value)) :
    Ensures allowed (Program.write loc value : Program Loc Value Note Unit) mem post :=
  ⟨_, _, _, .write loc value mem, by simpa using permitted, holds⟩

theorem bind {middle : Result → (Loc → Value) → Prop} {post : Other → (Loc → Value) → Prop}
    {program : Program Loc Value Note Result} {rest : Result → Program Loc Value Note Other}
    (first : Ensures allowed program mem middle)
    (next : ∀ result memory, middle result memory → Ensures allowed (rest result) memory post) :
    Ensures allowed (program >>= rest) mem post := by
  obtain ⟨events, result, memory, evaluated, within, holds⟩ := first
  obtain ⟨later, other, after, followed, laterWithin, established⟩ := next result memory holds
  refine ⟨events ++ later, other, after, evaluated.bind followed, fun event member => ?_, established⟩
  rcases List.mem_append.mp member with early | late
  · exact within event early
  · exact laterWithin event late

theorem read_bind {loc : Loc} {rest : Value → Program Loc Value Note Result}
    {post : Result → (Loc → Value) → Prop} (permitted : allowed (.load loc (mem loc)))
    (next : Ensures allowed (rest (mem loc)) mem post) :
    Ensures allowed (Program.read loc >>= rest) mem post := by
  have first : Ensures allowed (Program.read loc : Program Loc Value Note Value) mem
      fun value memory => value = mem loc ∧ memory = mem := .read permitted ⟨rfl, rfl⟩
  refine first.bind ?_
  rintro _ _ ⟨rfl, rfl⟩
  exact next

theorem write_bind {loc : Loc} {value : Value} {rest : Unit → Program Loc Value Note Result}
    {post : Result → (Loc → Value) → Prop} (permitted : allowed (.store loc value))
    (next : Ensures allowed (rest ()) (Function.update mem loc value) post) :
    Ensures allowed (Program.write loc value >>= rest) mem post := by
  have first : Ensures allowed (Program.write loc value : Program Loc Value Note Unit) mem
      fun _ memory => memory = Function.update mem loc value := .write permitted rfl
  refine first.bind ?_
  intro _ _ same
  subst same
  exact next

theorem mono {weaker : Effect Loc Value Note → Prop} {post relaxed : Result → (Loc → Value) → Prop}
    {program : Program Loc Value Note Result} (ensures : Ensures allowed program mem post)
    (events : ∀ event, allowed event → weaker event)
    (weaken : ∀ result after, post result after → relaxed result after) :
    Ensures weaker program mem relaxed := by
  obtain ⟨performed, result, after, evaluated, within, holds⟩ := ensures
  exact ⟨performed, result, after, evaluated, fun event member => events event (within event member),
    weaken result after holds⟩

/-- A bounded loop: `inv count` holds after the first `count` items. -/
theorem forM {Item : Type} {items : List Item} {body : Item → Program Loc Value Note Unit}
    (inv : Nat → (Loc → Value) → Prop) (initial : inv 0 mem)
    (once : ∀ count (inside : count < items.length) memory, inv count memory →
      Ensures allowed (body items[count]) memory fun _ => inv (count + 1)) :
    Ensures allowed (items.forM body) mem fun _ => inv items.length := by
  induction items generalizing mem inv with
  | nil => exact .pure initial
  | cons item items inductionHypothesis =>
      refine (once 0 (Nat.zero_lt_succ _) mem initial).bind fun _ memory holds => ?_
      exact inductionHypothesis (fun count => inv (count + 1)) holds
        (fun count inside => once (count + 1) (Nat.succ_lt_succ inside))

/-- A loop that loads a location for each item and drops the value. -/
theorem forM_discard {Item : Type} {items : List Item} {place : Item → Loc}
    (permitted : ∀ item, allowed (.load (place item) (mem (place item)))) :
    Ensures allowed (items.forM fun item =>
        (discard (Program.read (place item)) : Program Loc Value Note Unit)) mem
      fun _ after => after = mem := by
  refine forM (fun _ after => after = mem) rfl ?_
  intro count inside memory same
  subst same
  exact read_bind (permitted _) (.pure rfl)

/-- A bounded loop with an accumulator. -/
theorem foldlM {Item Acc : Type} {items : List Item}
    {body : Acc → Item → Program Loc Value Note Acc}
    (inv : Nat → Acc → (Loc → Value) → Prop) {acc : Acc} (initial : inv 0 acc mem)
    (once : ∀ count (inside : count < items.length) current memory, inv count current memory →
      Ensures allowed (body current items[count]) memory (inv (count + 1))) :
    Ensures allowed (items.foldlM body acc) mem (inv items.length) := by
  induction items generalizing mem inv acc with
  | nil => exact .pure initial
  | cons item items inductionHypothesis =>
      rw [List.foldlM_cons]
      refine (once 0 (Nat.zero_lt_succ _) acc mem initial).bind fun current memory holds => ?_
      exact inductionHypothesis (fun count => inv (count + 1)) holds
        (fun count inside => once (count + 1) (Nat.succ_lt_succ inside))

end Ensures

end Program

end LibIvy.Lib
