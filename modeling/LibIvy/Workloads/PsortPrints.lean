import LibIvy.Workloads.PsortManager

/-!
Contract: what the manager of psort prints among its workers.

Owns: the manager's output so far as an assertion that the workers cannot
change, that everything before the call of `merge_worker` prints nothing, and
the lines that `merge_worker` prints.

Does not own: that the lines are sorted.
-/

namespace LibIvy.Workloads.Psort

open LibIvy.Lib Program Guarantee

/-! ### Silent programs -/

theorem read_silent (loc : Loc) : Only Effect.Silent (read loc : Prog UInt64) := .read fun _ => trivial

theorem write_silent (loc : Loc) (value : UInt64) : Only Effect.Silent (write loc value : Prog Unit) :=
  .write trivial

theorem assertValid_silent : Only Effect.Silent assertValid :=
  .forM fun _ _ => (read_silent _).discard

section Silent

variable {nodesWorker : UInt64} {input : Input}

theorem fillShm_silent : Only Effect.Silent (fillShm nodesWorker input) := by
  unfold fillShm
  apply Only.bind (Only.forM fun _ _ => write_silent _ _)
  intro _
  apply Only.bind (Only.forM fun _ _ => write_silent _ _)
  intro _
  apply (write_silent _ _).bind
  intro _
  apply (write_silent _ _).bind
  intro _
  apply Only.bind (Only.forM fun _ _ => write_silent _ _)
  intro _
  apply (write_silent _ _).bind
  intro _
  exact Only.forM fun _ _ => write_silent _ _

theorem populateShm_silent : Only Effect.Silent (populateShm nodesWorker input) := by
  apply fillShm_silent.bind
  intro _
  apply (write_silent _ _).bind
  intro _
  exact Only.forM fun _ _ => (read_silent _).discard

theorem checkWorkers_silent (parts : List Nat) : Only Effect.Silent (checkWorkers parts) := by
  induction parts with
  | nil => exact .pure true
  | cons id parts inductionHypothesis =>
      refine (read_silent _).bind fun _ => (read_silent _).bind fun flag => ?_
      split
      · exact .pure false
      · exact inductionHypothesis

theorem waitForWorkers_silent : Only Effect.Silent (waitForWorkers nodesWorker) := by
  apply Only.iterate
  intro _
  refine assertValid_silent.bind fun _ => (checkWorkers_silent _).bind fun finished => ?_
  cases finished with
  | true => exact .pure _
  | false => exact .pure _

end Silent

/-! ### The output -/

/-- What the manager has printed. -/
abbrev Output (lines : List Note) (config : Cfg) : Prop := Printed .manager lines config

section Manager

variable {nodesWorker : UInt64} {input : Input}

/-- The workers leave the memory alone while `merge_worker` runs. -/
theorem mergeWorker_undisturbed {events : List (Effect Loc UInt64 Note)}
    (allowed : ∀ event ∈ events,
      MergeEvent (mergeMem nodesWorker.toNat (publishedMem nodesWorker input)) event) :
    Undisturbed (psortMay nodesWorker input) .manager (fun _ => True)
      (fun performed config => Merging nodesWorker input config ∧
        Output (.callMergeWorker :: Effect.notes performed) config)
      (mergeMem nodesWorker.toNat (publishedMem nodesWorker input)) events := by
  constructor
  case within => exact fun event _ => event.within_all
  case stable =>
    intro performed memory config other event different ⟨⟨merging, output⟩, agree⟩ kept
    have still := merging_stable memory config other event different ⟨merging, agree⟩ kept
    exact ⟨⟨still.1, printed_stable _ _ _ config other event different output kept⟩, still.2⟩
  case own =>
    rintro before event later config split ⟨merging, output⟩ - truthful
    have permitted : psortMay nodesWorker input .manager config event := by
      have event_ok := allowed event (by rw [split]; simp)
      cases event with
      | load loc value => exact truthful loc value rfl
      | store => exact event_ok.elim
      | note => exact ⟨merging.1.2, merging.1.1.called merging.2⟩
    refine ⟨permitted, merging_kept merging permitted, ?_⟩
    rw [Effect.notes_append]
    exact output.record event

/-- `merge_worker` prints what it prints alone on the memory that the workers leave. -/
theorem mergeWorker_output :
    ∃ events, (mergeWorker nodesWorker).Eval
        (mergeMem nodesWorker.toNat (publishedMem nodesWorker input)) events ()
        (mergeMem nodesWorker.toNat (publishedMem nodesWorker input)) ∧
      Triple (psortMay nodesWorker input) .manager
        (fun config => Merging nodesWorker input config ∧ Output [.callMergeWorker] config)
        (mergeWorker nodesWorker) fun _ => Output (.callMergeWorker :: Effect.notes events) := by
  obtain ⟨events, printed, evaluated, allowed, -, -, -⟩ := mergeWorker_eval nodesWorker
    (mergeMem nodesWorker.toNat (publishedMem nodesWorker input))
  refine ⟨events, evaluated,
    (Triple.of_eval evaluated (mergeWorker_undisturbed allowed)).conseq ?_ ?_⟩
  · rintro config ⟨merging, output⟩
    exact ⟨⟨merging, output⟩, fun loc _ => congrFun merging.mem_eq loc⟩
  · rintro _ config ⟨-, ⟨-, output⟩, -⟩
    exact output

/-- When the manager returns, it has printed the call of `merge_worker` and what
that prints. -/
theorem manager_output :
    ∃ events, (mergeWorker nodesWorker).Eval
        (mergeMem nodesWorker.toNat (publishedMem nodesWorker input)) events ()
        (mergeMem nodesWorker.toNat (publishedMem nodesWorker input)) ∧
      Triple (psortMay nodesWorker input) .manager
        (fun config => (Filling nodesWorker input [] config ∧
          Agree (fun _ => True) config.mem fun _ => 0) ∧ Output [] config)
        (manager nodesWorker input) fun _ => Output (.callMergeWorker :: Effect.notes events) := by
  obtain ⟨events, evaluated, merges⟩ := @mergeWorker_output nodesWorker input
  refine ⟨events, evaluated, ?_⟩
  exact (populateShm_keeps.silent populateShm_silent []).bind fun _ =>
    (waitForWorkers_keeps.silent waitForWorkers_silent []).bind fun _ =>
      (callMergeWorker_keeps.emit_printed []).bind fun _ => merges

end Manager

end LibIvy.Workloads.Psort
