import LibIvy.Workloads.Psort
import LibIvy.Workloads.Parts

/-!
Contract: what `merge_worker` does when it runs alone.

Owns: the events of the merge, the outcome of one scan for the least element,
and that the loop performs a k-way merge of the parts and then returns.

Does not own: that the parts are sorted when it starts.
-/

namespace LibIvy.Workloads.Psort

open LibIvy.Lib Program KWayMerge

/-- The length of each part. -/
def partLength (nodesWorker : UInt64) (mem : Mem) : Nat := (mem .elems / nodesWorker).toNat

/-- The parts of the data in a memory. -/
def part (nodesWorker : UInt64) (mem : Mem) : Nat → Nat → UInt64 :=
  partOf (fun index => mem (.data index)) (partLength nodesWorker mem)

theorem partLength_eq (nodesWorker : UInt64) (mem : Mem) :
    partLength nodesWorker mem = (mem .elems).toNat / nodesWorker.toNat :=
  UInt64.toNat_div ..

theorem mul_partLength_le (nodesWorker : UInt64) (mem : Mem) :
    nodesWorker.toNat * partLength nodesWorker mem ≤ (mem .elems).toNat := by
  rw [partLength_eq]
  exact Nat.mul_div_le ..

/-- The loads of the merge: the canary, the element count, and elements. -/
def MergeLoad (mem : Mem) : Effect Loc UInt64 Note → Prop
  | .load (.canary _) _ => True
  | .load .elems _ => True
  | .load (.data index) _ => index < (mem .elems).toNat
  | _ => False

/-- The events of the merge: its loads and the printed lines. -/
def MergeEvent (mem : Mem) : Effect Loc UInt64 Note → Prop
  | .note (.merged _ _) => True
  | event => MergeLoad mem event

theorem MergeLoad.event {mem : Mem} {event : Effect Loc UInt64 Note} (loads : MergeLoad mem event) :
    MergeEvent mem event := by
  cases event with
  | load => exact loads
  | store => exact loads
  | note => exact loads.elim

theorem MergeLoad.notes_eq {mem : Mem} {events : List (Effect Loc UInt64 Note)}
    (loads : ∀ event ∈ events, MergeLoad mem event) : Effect.notes events = [] := by
  induction events with
  | nil => rfl
  | cons event events inductionHypothesis =>
      have tail :=
        inductionHypothesis fun other member => loads other (List.mem_cons_of_mem _ member)
      have head := loads event (List.mem_cons_self ..)
      cases event with
      | load => simpa using tail
      | store => exact head.elim
      | note => exact head.elim

section Merge

variable {nodesWorker : UInt64} {mem : Mem}

theorem mergeDone_ensures (iter : Nat → Nat) (parts : List Nat) :
    Ensures (MergeLoad mem) (mergeDone nodesWorker iter parts) mem fun finished after =>
      after = mem ∧ (finished = true ↔ ∀ i ∈ parts, iter i = partLength nodesWorker mem) := by
  induction parts with
  | nil => exact .pure ⟨rfl, by simp⟩
  | cons i rest inductionHypothesis =>
      unfold mergeDone
      refine Ensures.read_bind trivial ?_
      by_cases exhausted : iter i = (mem .elems / nodesWorker).toNat
      · rw [if_neg (not_not.mpr exhausted)]
        refine inductionHypothesis.mono (fun _ loads => loads) fun finished _ holds => ?_
        refine ⟨holds.1, holds.2.trans ?_⟩
        simp [partLength, exhausted]
      · rw [if_pos exhausted]
        refine .pure ⟨rfl, fun impossible => by contradiction, fun all => ?_⟩
        exact absurd (all i (List.mem_cons_self ..)) exhausted

/-- What the scan knows after the parts below `count`: the element it keeps is
under the cursor of one of them and none of them has a smaller one, or all of
them are exhausted and it keeps the sentinel. -/
structure Scanned (nodesWorker : UInt64) (mem : Mem) (iter : Nat → Nat) (count : Nat)
    (least : UInt64 × Option Nat) : Prop where
  below : ∀ other < count, iter other ≠ partLength nodesWorker mem →
    least.1 ≤ part nodesWorker mem other (iter other)
  kept : ∀ index, least.2 = some index → index < count ∧ iter index ≠ partLength nodesWorker mem ∧
    least.1 = part nodesWorker mem index (iter index)
  sentinel : least.2 = none → least.1 = uint64Max ∧
    ∀ other < count, iter other = partLength nodesWorker mem

theorem le_uint64Max (value : UInt64) : value ≤ uint64Max := by
  rw [UInt64.le_iff_toNat_le]
  exact Nat.le_of_lt_succ value.toNat_lt

theorem Scanned.start (iter : Nat → Nat) : Scanned nodesWorker mem iter 0 (uint64Max, none) where
  below other impossible := absurd impossible (Nat.not_lt_zero other)
  kept _ impossible := by contradiction
  sentinel _ := ⟨rfl, fun other impossible => absurd impossible (Nat.not_lt_zero other)⟩

/-- The next part is exhausted. -/
theorem Scanned.skip {iter : Nat → Nat} {count : Nat} {least : UInt64 × Option Nat}
    (scanned : Scanned nodesWorker mem iter count least)
    (exhausted : iter count = partLength nodesWorker mem) :
    Scanned nodesWorker mem iter (count + 1) least where
  below other valid live := by
    have notLast : other ≠ count := fun same => live (same ▸ exhausted)
    exact scanned.below other (by omega) live
  kept index found := by
    obtain ⟨valid, live, same⟩ := scanned.kept index found
    exact ⟨by omega, live, same⟩
  sentinel unset := by
    obtain ⟨same, all⟩ := scanned.sentinel unset
    refine ⟨same, fun other valid => ?_⟩
    rcases Nat.lt_succ_iff_lt_or_eq.mp valid with below | rfl
    · exact all other below
    · exact exhausted

/-- The next part's element is not larger: it is kept. -/
theorem Scanned.take {iter : Nat → Nat} {count : Nat} {least : UInt64 × Option Nat}
    (scanned : Scanned nodesWorker mem iter count least)
    (live : iter count ≠ partLength nodesWorker mem)
    (smaller : part nodesWorker mem count (iter count) ≤ least.1) :
    Scanned nodesWorker mem iter (count + 1)
      (part nodesWorker mem count (iter count), some count) where
  below other valid otherLive := by
    rcases Nat.lt_succ_iff_lt_or_eq.mp valid with below | rfl
    · exact smaller.trans (scanned.below other below otherLive)
    · exact le_refl _
  kept index found := by
    obtain rfl := Option.some.inj found
    exact ⟨Nat.lt_succ_self _, live, rfl⟩
  sentinel impossible := by contradiction

/-- The next part's element is larger. As no element is larger than the
sentinel, something has been kept already. -/
theorem Scanned.drop {iter : Nat → Nat} {count : Nat} {least : UInt64 × Option Nat}
    (scanned : Scanned nodesWorker mem iter count least)
    (larger : least.1 < part nodesWorker mem count (iter count)) :
    Scanned nodesWorker mem iter (count + 1) least where
  below other valid live := by
    rcases Nat.lt_succ_iff_lt_or_eq.mp valid with below | rfl
    · exact scanned.below other below live
    · exact larger.le
  kept index found := by
    obtain ⟨valid, live, same⟩ := scanned.kept index found
    exact ⟨by omega, live, same⟩
  sentinel unset := by
    rw [(scanned.sentinel unset).1] at larger
    exact absurd (le_uint64Max _) (not_le.mpr larger)

/-- All elements the merge looks at are among the first `elems`. -/
theorem part_index_lt {iter : Nat → Nat} {index : Nat} (valid : index < nodesWorker.toNat)
    (live : iter index < partLength nodesWorker mem) :
    index * partLength nodesWorker mem + iter index < (mem .elems).toNat :=
  (position_lt valid live).trans_le (mul_partLength_le nodesWorker mem)

theorem mergeScan_ensures {iter : Nat → Nat} {count : Nat} {least : UInt64 × Option Nat}
    (valid : count < nodesWorker.toNat) (within : iter count ≤ partLength nodesWorker mem)
    (scanned : Scanned nodesWorker mem iter count least) :
    Ensures (MergeLoad mem) (mergeScan nodesWorker iter least count) mem fun next after =>
      after = mem ∧ Scanned nodesWorker mem iter (count + 1) next := by
  unfold mergeScan
  refine Ensures.read_bind trivial ?_
  by_cases exhausted : iter count = (mem .elems / nodesWorker).toNat
  · rw [if_neg (not_not.mpr exhausted)]
    exact .pure ⟨rfl, scanned.skip exhausted⟩
  · rw [if_pos exhausted]
    refine Ensures.read_bind trivial ?_
    refine Ensures.read_bind (part_index_lt valid (lt_of_le_of_ne within exhausted)) ?_
    split
    · rename_i smaller
      exact .pure ⟨rfl, scanned.take exhausted smaller⟩
    · rename_i larger
      exact .pure ⟨rfl, scanned.drop (not_le.mp larger)⟩

/-- One round, when some part is not exhausted, prints the least element under a
cursor and moves this cursor on. -/
theorem mergeRound_eval {iter : Nat → Nat}
    (within : ∀ other < nodesWorker.toNat, iter other ≤ partLength nodesWorker mem)
    (unfinished : ∃ other < nodesWorker.toNat, iter other ≠ partLength nodesWorker mem) :
    ∃ events index, (mergeRound nodesWorker iter).Eval mem events (advance iter index) mem ∧
      (∀ event ∈ events, MergeEvent mem event) ∧
      Effect.notes events = [.merged (part nodesWorker mem index (iter index)) index] ∧
      index < nodesWorker.toNat ∧ iter index < partLength nodesWorker mem ∧
      ∀ other < nodesWorker.toNat, iter other < partLength nodesWorker mem →
        part nodesWorker mem index (iter index) ≤ part nodesWorker mem other (iter other) := by
  have scan : Ensures (MergeLoad mem)
      ((List.range nodesWorker.toNat).foldlM (mergeScan nodesWorker iter) (uint64Max, none)) mem
      fun least after => after = mem ∧ Scanned nodesWorker mem iter nodesWorker.toNat least := by
    have loop : Ensures (MergeLoad mem)
        ((List.range nodesWorker.toNat).foldlM (mergeScan nodesWorker iter) (uint64Max, none)) mem
        fun least after => after = mem ∧
          Scanned nodesWorker mem iter (List.range nodesWorker.toNat).length least := by
      refine Ensures.foldlM
        (fun count least after => after = mem ∧ Scanned nodesWorker mem iter count least)
        ⟨rfl, .start iter⟩ ?_
      rintro count inside least memory ⟨sameMem, scanned⟩
      rw [List.length_range] at inside
      rw [List.getElem_range, sameMem]
      exact mergeScan_ensures inside (within count inside) scanned
    rwa [List.length_range] at loop
  obtain ⟨events, ⟨value, found⟩, after, evaluated, loads, sameMem, scanned⟩ := scan
  rw [sameMem] at evaluated
  cases found with
  | none =>
      obtain ⟨other, valid, live⟩ := unfinished
      exact absurd ((scanned.sentinel rfl).2 other valid) live
  | some index =>
      obtain ⟨valid, live, same⟩ := scanned.kept index rfl
      have liveLt := lt_of_le_of_ne (within index valid) live
      have inElems : iter index < (mem .elems).toNat := by
        refine liveLt.trans_le ?_
        rw [partLength_eq]
        exact Nat.div_le_self ..
      have next : (nextIter iter index).Eval mem [.load .elems (mem .elems)]
        (advance iter index) mem := by
        unfold nextIter
        refine Eval.bind (.read .elems mem) ?_
        rw [if_pos inElems]
        exact .pure _ mem
      refine ⟨_, index, evaluated.bind (Eval.bind (.emit _ mem) next), fun event member => ?_, ?_,
        valid, liveLt, fun other validOther liveOther => ?_⟩
      · rcases List.mem_append.mp member with early | late
        · exact (loads event early).event
        · simp only [List.singleton_append, List.mem_cons, List.not_mem_nil, or_false] at late
          rcases late with rfl | rfl
          · trivial
          · trivial
      · rw [Effect.notes_append, MergeLoad.notes_eq loads, ← same]
        rfl
      · have below := scanned.below other validOther liveOther.ne
        rwa [same] at below

/-- The test when all parts are exhausted: the loop is left. -/
theorem mergeTest_eval {iter : Nat → Nat}
    (exhausted : ∀ other < nodesWorker.toNat, iter other = partLength nodesWorker mem) :
    ∃ events, (mergeBody nodesWorker iter).Eval mem events (.inr ()) mem ∧
      ∀ event ∈ events, MergeLoad mem event := by
  obtain ⟨events, finished, after, evaluated, loads, sameMem, outcome⟩ :=
    @mergeDone_ensures nodesWorker mem iter (List.range nodesWorker.toNat)
  obtain rfl : finished = true := outcome.mpr fun i member => exhausted i (List.mem_range.mp member)
  rw [sameMem] at evaluated
  have whole : (mergeBody nodesWorker iter).Eval mem (events ++ []) (.inr ()) mem :=
    evaluated.bind (.pure _ mem)
  rw [List.append_nil] at whole
  exact ⟨events, whole, loads⟩

/-- The loop's body when some part is not exhausted: one round. -/
theorem mergeBody_eval {iter : Nat → Nat}
    (within : ∀ other < nodesWorker.toNat, iter other ≤ partLength nodesWorker mem)
    (unfinished : ∃ other < nodesWorker.toNat, iter other ≠ partLength nodesWorker mem) :
    ∃ events index, (mergeBody nodesWorker iter).Eval mem events (.inl (advance iter index)) mem ∧
      (∀ event ∈ events, MergeEvent mem event) ∧
      Effect.notes events = [.merged (part nodesWorker mem index (iter index)) index] ∧
      index < nodesWorker.toNat ∧ iter index < partLength nodesWorker mem ∧
      ∀ other < nodesWorker.toNat, iter other < partLength nodesWorker mem →
        part nodesWorker mem index (iter index) ≤ part nodesWorker mem other (iter other) := by
  obtain ⟨tests, finished, after, tested, loads, sameMem, outcome⟩ :=
    @mergeDone_ensures nodesWorker mem iter (List.range nodesWorker.toNat)
  rw [sameMem] at tested
  obtain rfl : finished = false := by
    obtain ⟨other, valid, live⟩ := unfinished
    rw [← Bool.not_eq_true, outcome]
    exact fun all => live (all other (List.mem_range.mpr valid))
  obtain ⟨events, index, once, allowed, notes, facts⟩ := mergeRound_eval within unfinished
  have round : (mergeBody nodesWorker iter).Eval mem (tests ++ (events ++ []))
      (.inl (advance iter index)) mem :=
    tested.bind (once.bind (.pure _ mem))
  rw [List.append_nil] at round
  refine ⟨tests ++ events, index, round, fun event member => ?_, ?_, facts⟩
  · rcases List.mem_append.mp member with early | late
    · exact (loads event early).event
    · exact allowed event late
  · rw [Effect.notes_append, MergeLoad.notes_eq loads, notes, List.nil_append]

variable (nodesWorker mem) in
/-- `Rounds iter lines`: from these cursors the loop makes one round for each
line, in which `min_idx` is set to the part of the line, which is not exhausted,
and is then left. -/
inductive Rounds : (Nat → Nat) → List (UInt64 × Nat) → Prop where
  | exit {iter : Nat → Nat} {events : List (Effect Loc UInt64 Note)}
      (tested : (mergeBody nodesWorker iter).Eval mem events (.inr ()) mem) : Rounds iter []
  | round {iter next : Nat → Nat} {events : List (Effect Loc UInt64 Note)} {minElem : UInt64}
      {minIdx : Nat} {lines : List (UInt64 × Nat)}
      (once : (mergeBody nodesWorker iter).Eval mem events (.inl next) mem)
      (prints : Effect.notes events = [.merged minElem minIdx])
      (valid : minIdx < nodesWorker.toNat) (live : iter minIdx < partLength nodesWorker mem)
      (rest : Rounds next lines) : Rounds iter ((minElem, minIdx) :: lines)

/-- The loop merges what is left of the parts and returns. The induction is on
the number of elements no cursor has passed, which every round lowers by one. -/
theorem mergeLoop_eval {rounds : Nat} {iter : Nat → Nat}
    (within : ∀ other < nodesWorker.toNat, iter other ≤ partLength nodesWorker mem)
    (count : left nodesWorker.toNat (partLength nodesWorker mem) iter = rounds) :
    ∃ events printed, (iterate iter (mergeBody nodesWorker)).Eval mem events () mem ∧
      (∀ event ∈ events, MergeEvent mem event) ∧
      Effect.notes events = printed.map (fun line => .merged line.1 line.2) ∧
      Rounds nodesWorker mem iter printed ∧
      Merged (part nodesWorker mem) nodesWorker.toNat
        (partLength nodesWorker mem) iter printed := by
  induction rounds generalizing iter with
  | zero =>
      have exhausted : ∀ other < nodesWorker.toNat, iter other = partLength nodesWorker mem := by
        intro other valid
        have none := Finset.sum_eq_zero_iff.mp count other (Finset.mem_range.mpr valid)
        have below := within other valid
        omega
      obtain ⟨tests, tested, loads⟩ := mergeTest_eval exhausted
      exact ⟨tests, [], .iterate_exit tested, fun event member => (loads event member).event,
        MergeLoad.notes_eq loads, .exit tested, .exhausted exhausted⟩
  | succ rounds inductionHypothesis =>
      have unfinished : ∃ other < nodesWorker.toNat, iter other ≠ partLength nodesWorker mem := by
        by_contra all
        push Not at all
        rw [left_exhausted all] at count
        omega
      obtain ⟨events, index, once, allowed, notes, valid, live, least⟩ :=
        mergeBody_eval within unfinished
      rw [left_advance valid live] at count
      obtain ⟨later, printed, others, laterAllowed, laterNotes, rounds, merged⟩ :=
        inductionHypothesis (advance_le within live) (by omega)
      refine ⟨events ++ later, (_, index) :: printed, .iterate_next once others,
        fun event member => ?_, ?_, .round once notes valid live rounds,
        .round valid live least merged⟩
      · rcases List.mem_append.mp member with early | late
        · exact allowed event early
        · exact laterAllowed event late
      · rw [Effect.notes_append, notes, laterNotes]
        rfl

/-- `merge_worker` returns and has merged the parts. -/
theorem mergeWorker_eval (nodesWorker : UInt64) (mem : Mem) :
    ∃ events printed, (mergeWorker nodesWorker).Eval mem events () mem ∧
      (∀ event ∈ events, MergeEvent mem event) ∧
      Effect.notes events = printed.map (fun line => .merged line.1 line.2) ∧
      Rounds nodesWorker mem (fun _ => 0) printed ∧
      Merged (part nodesWorker mem) nodesWorker.toNat (partLength nodesWorker mem) (fun _ => 0)
        printed := by
  obtain ⟨checks, _, after, checked, canaries, sameMem⟩ := assertValid_ensures mem
  rw [sameMem] at checked
  obtain ⟨events, printed, evaluated, allowed, notes, rounds, merged⟩ :=
    @mergeLoop_eval nodesWorker mem _ (fun _ => 0) (fun _ _ => Nat.zero_le _) rfl
  have checksLoad : ∀ event ∈ checks, MergeLoad mem event := by
    intro event member
    obtain ⟨index, value, rfl⟩ := canaries event member
    trivial
  refine ⟨checks ++ events, printed, checked.bind evaluated, fun event member => ?_, ?_, rounds,
    merged⟩
  · rcases List.mem_append.mp member with early | late
    · exact (checksLoad event early).event
    · exact allowed event late
  · rw [Effect.notes_append, MergeLoad.notes_eq checksLoad, notes, List.nil_append]

end Merge

end LibIvy.Workloads.Psort
