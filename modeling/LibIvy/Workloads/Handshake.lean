import LibIvy.Lib.RelyGuarantee
import LibIvy.Workloads.SortWorker

/-!
Contract: what the nodes of psort may do to each other's memory.

The manager stores only while `ready` is zero, and its last store publishes one
memory. A worker loads and stores nothing but `ready` before that, and stores
only in its own part and its own flag, the flag once and last.

Owns: the memory the workers leave, the guarantee of every node, that the other
nodes leave a worker's part alone, and that `sort_worker` keeps to its
guarantee.

Does not own: the manager's program.
-/

namespace LibIvy.Workloads.Psort

open LibIvy.Lib Program Guarantee

/-! ### The parts of a published memory -/

/-- The elements of a part in order. -/
def sortedPart (published : Mem) (id : Nat) : List UInt64 :=
  ((List.range (share published)).map (elementsFrom published (share published * id))).mergeSort
    (fun left right => decide (left ≤ right))

/-- The published memory with the first `nodes` parts sorted. -/
def settled (nodes : Nat) (published : Mem) : Mem
  | .data index =>
      if index < nodes * share published then
        (sortedPart published (index / share published)).getD (index % share published) 0
      else published (.data index)
  | loc => published loc

theorem sortedPart_length (published : Mem) (id : Nat) :
    (sortedPart published id).length = share published := by
  simp [sortedPart]

theorem sortedPart_perm (published : Mem) (id : Nat) :
    (sortedPart published id).Perm
      ((List.range (share published)).map (elementsFrom published (share published * id))) :=
  List.mergeSort_perm ..

theorem sortedPart_pairwise (published : Mem) (id : Nat) :
    (sortedPart published id).Pairwise (· ≤ ·) := by
  have sorted : (sortedPart published id).Pairwise fun left right => decide (left ≤ right) = true :=
    List.pairwise_mergeSort
      (fun _ _ _ first second => by simp only [decide_eq_true_eq] at *; exact first.trans second)
      (fun left right => by simpa using le_total left right) _
  exact sorted.imp fun ordered => of_decide_eq_true ordered

theorem settled_part (published : Mem) {nodes id : Nat} (valid : id < nodes) :
    (List.range (share published)).map
        (elementsFrom (settled nodes published) (share published * id)) =
      sortedPart published id := by
  refine List.ext_getElem (by simp [sortedPart_length]) fun offset below _ => ?_
  rw [List.length_map, List.length_range] at below
  have index : share published * id + offset = id * share published + offset := by
    rw [Nat.mul_comm]
  have inParts := position_lt valid below
  have quotient : (id * share published + offset) / share published = id := by
    rw [Nat.mul_comm, Nat.mul_add_div (by omega), Nat.div_eq_of_lt below, Nat.add_zero]
  have remainder : (id * share published + offset) % share published = offset := by
    rw [Nat.mul_comm, Nat.mul_add_mod, Nat.mod_eq_of_lt below]
  simp only [List.getElem_map, List.getElem_range, elementsFrom, settled, index, if_pos inParts,
    quotient, remainder]
  rw [List.getD_eq_getElem?_getD, List.getElem?_eq_getElem, Option.getD_some]

/-- A sorted rearrangement of the part is the settled one. -/
theorem agree_settled_of_perm {published after : Mem} {nodes id : Nat} (valid : id < nodes)
    (sorted : ((List.range (share published)).map
      (elementsFrom after (share published * id))).Pairwise (· ≤ ·))
    (perm : ((List.range (share published)).map (elementsFrom after (share published * id))).Perm
      ((List.range (share published)).map (elementsFrom published (share published * id)))) :
    Agree (InPart published id) after (settled nodes published) := by
  have same : (List.range (share published)).map (elementsFrom after (share published * id)) =
      (List.range (share published)).map
        (elementsFrom (settled nodes published) (share published * id)) := by
    rw [settled_part published valid]
    exact List.Perm.eq_of_pairwise (fun _ _ _ _ => le_antisymm) sorted
      (sortedPart_pairwise published id) (perm.trans (sortedPart_perm published id).symm)
  rintro loc ⟨offset, below, rfl⟩
  exact List.map_inj_left.mp same offset (List.mem_range.mpr below)

theorem SortedRange.agree_settled {published after : Mem} {nodes id : Nat} (valid : id < nodes)
    (sorted : SortedRange (share published * id) (share published) published after) :
    Agree (InPart published id) after (settled nodes published) :=
  agree_settled_of_perm valid sorted.sorted sorted.perm

/-- With it, all that the worker uses is settled. -/
theorem SortedRange.agree_touched {published after : Mem} {nodes id : Nat} (valid : id < nodes)
    (sorted : SortedRange (share published * id) (share published) published after) :
    Agree (Touched published id) after (settled nodes published) := by
  intro loc touched
  cases loc with
  | data index => exact sorted.agree_settled valid _ touched
  | canary => exact sorted.outside _ fun ⟨_, _, same⟩ => Loc.noConfusion same
  | elems => exact sorted.outside _ fun ⟨_, _, same⟩ => Loc.noConfusion same
  | ready => exact sorted.outside _ fun ⟨_, _, same⟩ => Loc.noConfusion same
  | done => exact sorted.outside _ fun ⟨_, _, same⟩ => Loc.noConfusion same
  | nodes => exact sorted.outside _ fun ⟨_, _, same⟩ => Loc.noConfusion same

/-- The parts of different workers are disjoint. -/
theorem InPart.disjoint {published : Mem} {id other : Nat} {loc : Loc}
    (inside : InPart published id loc) (within : InPart published other loc) : id = other := by
  obtain ⟨offset, below, rfl⟩ := inside
  obtain ⟨position, bound, same⟩ := within
  rw [Nat.mul_comm, Nat.mul_comm (share published) other] at same
  exact (position_inj below bound (Loc.data.inj same)).1

/-! ### The guarantee -/

abbrev Cfg := Snapshot Party Loc UInt64 Note

/-- The worker has set its flag. -/
def Completed (id : Nat) (config : Cfg) : Prop :=
  (.worker id, .store (.done id) 1) ∈ config.log

section Guarantee

variable (nodes : Nat) (published : Mem) (stores : List (Effect Loc UInt64 Note))

/-- What each node may do. `published` is the memory the manager publishes and
`stores` are the stores it makes before. -/
def mayDo : Guarantee Party Loc UInt64 Note
  | .manager, config, .load loc value => value = config.mem loc
  | .manager, config, .store loc value =>
      config.mem .ready = 0 ∧ (Function.update config.mem loc value .ready = 0 ∨
        Function.update config.mem loc value = published ∧
          ∀ event ∈ stores, (.manager, event) ∈ config.log)
  | .manager, config, .note _ => config.mem .ready ≠ 0 ∧ ∀ id < nodes, Completed id config
  | .worker _, config, .load loc value =>
      value = config.mem loc ∧ (loc = .ready ∨ config.mem .ready ≠ 0)
  | .worker id, config, .store loc value =>
      id < nodes ∧ config.mem .ready ≠ 0 ∧ ¬ Completed id config ∧
        (InPart published id loc ∨ loc = .done id ∧ value = 1 ∧
          Agree (InPart published id) config.mem (settled nodes published))
  | .worker _, _, .note _ => True

variable {nodes published stores}

/-- Once `ready` is set only the worker itself changes the locations it uses. -/
theorem mem_kept {id : Nat} {config : Cfg} {other : Party} {event : Effect Loc UInt64 Note}
    (different : other ≠ .worker id) (ready : config.mem .ready ≠ 0)
    (kept : mayDo nodes published stores other config event) {loc : Loc}
    (touched : Touched published id loc) : event.apply config.mem loc = config.mem loc := by
  cases event with
  | load => rfl
  | note => rfl
  | store stored value =>
      cases other with
      | manager => exact absurd kept.1 ready
      | worker worker =>
          refine Function.update_of_ne (fun same => ?_) _ _
          subst same
          rcases kept.2.2.2 with inside | ⟨rfl, -, -⟩
          · obtain ⟨offset, below, rfl⟩ := inside
            exact different (by rw [InPart.disjoint ⟨offset, below, rfl⟩ touched])
          · exact different (by rw [show worker = id from touched])

/-- No node clears `ready` again. -/
theorem ready_kept {party : Party} {config : Cfg} {event : Effect Loc UInt64 Note}
    (kept : mayDo nodes published stores party config event) (ready : config.mem .ready ≠ 0) :
    event.apply config.mem .ready ≠ 0 := by
  cases event with
  | load => exact ready
  | note => exact ready
  | store stored value =>
      cases party with
      | manager => exact absurd kept.1 ready
      | worker worker =>
          have other : Loc.ready ≠ stored := by
            intro same
            subst same
            rcases kept.2.2.2 with ⟨_, _, same⟩ | ⟨same, -⟩
            · contradiction
            · contradiction
          rwa [Effect.apply_store, Function.update_of_ne other]

theorem completed_record {id : Nat} {config : Cfg} {other : Party} {event : Effect Loc UInt64 Note}
    (different : (other, event) ≠ (.worker id, .store (.done id) 1)) :
    Completed id (config.record other event) ↔ Completed id config := by
  simp only [Completed, Snapshot.record_log, List.mem_append, List.mem_singleton]
  constructor
  · rintro (before | same)
    · exact before
    · exact absurd same.symm different
  · exact .inl

/-! ### `sort_worker` -/

/-- Before a worker has seen `ready`. -/
def Waiting (published : Mem) (id : Nat) (config : Cfg) : Prop :=
  ¬ Completed id config ∧
    (config.mem .ready = 0 ∨ Agree (Touched published id) config.mem published)

/-- Between that and its flag: what it uses holds the values of `memory`. -/
def Working (published : Mem) (id : Nat) (memory : Mem) (config : Cfg) : Prop :=
  (¬ Completed id config ∧ config.mem .ready ≠ 0) ∧ Agree (Touched published id) config.mem memory

/-- Its part is sorted and its flag is set. -/
def Signalled (nodes : Nat) (published : Mem) (id : Nat) (config : Cfg) : Prop :=
  Completed id config ∧ config.mem .ready ≠ 0 ∧ config.mem (.done id) = 1 ∧
    Agree (InPart published id) config.mem (settled nodes published)

theorem waiting_stable (id : Nat) :
    Stable (mayDo nodes published stores) (.worker id) (Waiting published id) := by
  rintro config other event different ⟨incomplete, view⟩ kept
  have stays : ¬ Completed id (config.record other event) := by
    rwa [completed_record fun same => different (Prod.mk.inj same).1]
  refine ⟨stays, ?_⟩
  by_cases ready : config.mem .ready = 0
  · cases event with
    | load => exact view
    | note => exact view
    | store stored value =>
        cases other with
        | manager =>
            rcases kept.2 with unset | ⟨publishes, -⟩
            · exact .inl unset
            · exact .inr fun loc _ => congrFun publishes loc
        | worker worker => exact absurd ready kept.2.1
  · refine .inr fun loc touched => ?_
    rw [Snapshot.record_mem, mem_kept different ready kept touched]
    exact (view.resolve_left ready) loc touched

theorem working_stable (id : Nat) (memory : Mem) :
    Stable (mayDo nodes published stores) (.worker id) (Working published id memory) := by
  rintro config other event different ⟨⟨incomplete, ready⟩, agree⟩ kept
  refine ⟨⟨?_, ready_kept kept ready⟩, fun loc touched => ?_⟩
  · rwa [completed_record fun same => different (Prod.mk.inj same).1]
  · rw [Snapshot.record_mem, mem_kept different ready kept touched]
    exact agree loc touched

theorem signalled_stable (id : Nat) :
    Stable (mayDo nodes published stores) (.worker id) (Signalled nodes published id) := by
  rintro config other event different ⟨completed, ready, flag, agree⟩ kept
  refine ⟨List.mem_append_left _ completed, ready_kept kept ready, ?_, fun loc inside => ?_⟩
  · rw [Snapshot.record_mem, mem_kept different ready kept (show Touched published id (.done id) from rfl)]
    exact flag
  · rw [Snapshot.record_mem, mem_kept different ready kept inside.touched]
    exact agree loc inside

/-- The busy waiting ends with the published memory in view. -/
theorem awaitReady_keeps (id : Nat) :
    Triple (mayDo nodes published stores) (.worker id) (Waiting published id) awaitReady
      fun _ => Working published id published := by
  have waiting := @waiting_stable nodes published stores id
  have working := @working_stable nodes published stores id published
  have observe : Triple (mayDo nodes published stores) (.worker id) (Waiting published id)
      (read .ready) fun value config =>
        if value = 0 then Waiting published id config
        else Working published id published config := by
    refine Triple.read waiting (fun config _ => ⟨rfl, .inl rfl⟩) (fun value => ?_)
      fun config holds => ?_
    · split
      · exact waiting
      · exact working
    · split
      · exact ⟨(completed_record (by simp)).not.mpr holds.1, holds.2⟩
      · rename_i set
        exact ⟨⟨(completed_record (by simp)).not.mpr holds.1, set⟩, holds.2.resolve_left set⟩
  refine Triple.whileDo waiting working (observe.bind fun value => ?_)
    (Triple.pure waiting fun _ holds => holds)
  by_cases zero : value = 0
  · subst zero
    exact Triple.pure waiting fun _ holds => holds
  · have unset : (value == 0) = false := beq_false_of_ne zero
    rw [unset]
    simp only [if_neg zero]
    exact Triple.pure working fun _ holds => holds

/-- The other nodes leave alone what a worker uses while it sorts. -/
theorem sortPart_undisturbed {id : Nat} {events : List (Effect Loc UInt64 Note)} (valid : id < nodes)
    (allowed : ∀ event ∈ events, PartEvent published id event) :
    Undisturbed (mayDo nodes published stores) (.worker id) (Touched published id)
      (fun _ config => ¬ Completed id config ∧ config.mem .ready ≠ 0) published events := by
  refine ⟨fun event member => (allowed event member).1, fun _ => working_stable id, ?_⟩
  rintro before event later config split ⟨incomplete, ready⟩ - truthful
  have storesPart := (allowed event (by rw [split]; simp)).2
  have permitted : mayDo nodes published stores (.worker id) config event := by
    cases event with
    | load loc value => exact ⟨truthful loc value rfl, .inr ready⟩
    | store loc value => exact ⟨valid, ready, incomplete, .inl storesPart⟩
    | note => trivial
  refine ⟨permitted, ?_, ready_kept permitted ready⟩
  rwa [completed_record]
  intro same
  obtain ⟨_, _, same⟩ := (Prod.mk.inj same).2 ▸ storesPart
  contradiction

/-- The sort happens as it does alone: the other nodes leave its locations alone. -/
theorem sortPart_keeps {id : Nat} (valid : id < nodes) (nonzero : published .nodes ≠ 0) :
    Triple (mayDo nodes published stores) (.worker id) (Working published id published)
      (sortPart id)
      fun _ => Working published id (settled nodes published) := by
  obtain ⟨events, result, after, evaluated, allowed, sorted⟩ := sortPart_ensures nonzero id
  refine (Triple.of_eval evaluated (sortPart_undisturbed valid allowed)).conseq
    (fun _ holds => holds) ?_
  intro _ config ⟨_, holds, agree⟩
  exact ⟨holds, fun loc touched => (agree loc touched).trans (sorted.agree_touched valid loc touched)⟩

/-- The flag is set when the part is sorted. -/
theorem signalDone_keeps {id : Nat} (valid : id < nodes) :
    Triple (mayDo nodes published stores) (.worker id)
      (Working published id (settled nodes published)) (do write (.done id) 1; assertValid)
      fun _ => Signalled nodes published id := by
  have signalled := @signalled_stable nodes published stores id
  refine Triple.bind (Triple.write (working_stable id _) (fun config holds => ?_) signalled
    fun config holds => ?_) fun _ => Triple.forM signalled fun index _ => ?_
  · exact ⟨valid, holds.1.2, holds.1.1, .inr ⟨rfl, rfl, fun loc inside => holds.2 loc inside.touched⟩⟩
  · refine ⟨by simp [Completed], by simpa using holds.1.2, by simp, fun loc inside => ?_⟩
    obtain ⟨offset, below, rfl⟩ := inside
    have inside : InPart published id (.data (share published * id + offset)) :=
      ⟨offset, below, rfl⟩
    simpa using holds.2 _ inside.touched
  · have check : Triple (mayDo nodes published stores) (.worker id) (Signalled nodes published id)
        (read (.canary index)) fun _ => Signalled nodes published id :=
      Triple.read signalled (fun config holds => ⟨rfl, .inr holds.2.1⟩) (fun _ => signalled)
        fun config holds => ⟨List.mem_append_left _ holds.1, holds.2⟩
    exact check.bind fun _ => Triple.pure signalled fun _ holds => holds

theorem sortWorker_keeps {id : Nat} (valid : id < nodes) (nonzero : published .nodes ≠ 0) :
    Triple (mayDo nodes published stores) (.worker id) (Waiting published id) (sortWorker id)
      fun _ => Signalled nodes published id :=
  (awaitReady_keeps id).bind fun _ => (sortPart_keeps valid nonzero).bind fun _ =>
    signalDone_keeps valid

/-! ### What no node changes -/

/-- A location that is neither in a part nor a flag. -/
def Fixed (nodes : Nat) (published : Mem) (loc : Loc) : Prop :=
  ∀ id < nodes, ¬ InPart published id loc ∧ loc ≠ .done id

theorem fixed_header {nodes : Nat} {published : Mem} {loc : Loc}
    (notData : ∀ index, loc ≠ .data index)
    (notFlag : ∀ id, loc ≠ .done id) : Fixed nodes published loc :=
  fun id _ => ⟨fun ⟨_, _, same⟩ => notData _ same, notFlag id⟩

/-- Once published, the memory changes only in the parts and the flags. -/
def Framed (nodes : Nat) (published : Mem) (config : Cfg) : Prop :=
  config.mem .ready = 0 ∨ Agree (Fixed nodes published) config.mem published

theorem framed_kept (party : Party) (config : Cfg) (event : Effect Loc UInt64 Note)
    (framed : Framed nodes published config)
    (kept : mayDo nodes published stores party config event) :
    Framed nodes published (config.record party event) := by
  cases event with
  | load => exact framed
  | note => exact framed
  | store stored value =>
      cases party with
      | manager =>
          rcases kept.2 with unset | ⟨publishes, -⟩
          · exact .inl unset
          · exact .inr fun loc _ => congrFun publishes loc
      | worker id =>
          obtain ⟨valid, ready, -, target⟩ := kept
          refine .inr fun loc fixed => ?_
          have other : loc ≠ stored := by
            intro same
            subst same
            rcases target with inside | ⟨flag, -, -⟩
            · exact (fixed id valid).1 inside
            · exact (fixed id valid).2 flag
          rw [Snapshot.record_mem, Effect.apply_store, Function.update_of_ne other]
          exact (framed.resolve_left ready) loc fixed

end Guarantee

end LibIvy.Workloads.Psort
