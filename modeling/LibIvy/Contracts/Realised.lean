import LibIvy.Contracts.Hosted
import LibIvy.Contracts.Service

/-!
Contract: what programs can do on a cluster is what they can do on one atomic memory.

Owns: for every interleaving of programs, a run of the cluster that hosts them with
the same events, in which every fault is served alone; with the simulation, the
equality of the two sets of runs.

Does not own: the simulation; see `LibIvy.Contracts.Hosted`.
-/

namespace LibIvy

open Lib NumberText AtomicMemory TransitionSystem Protocol

section

variable {Party Loc Value Note : Type} [DecidableEq Party] [DecidableEq Loc]

/-- The condition on the steps permits what the programs and the handlers do. -/
structure Host.Admitted (host : Host Party Loc Value) (cfg : Config)
    (allowed : Sys → Action → Prop) : Prop where
  reliable : ∀ s action, allowed s action → Reliable s action
  lenient : Lenient cfg allowed
  load : ∀ s party addr count, allowed s (.load (host.place party) addr count)
  store : ∀ s party addr values, allowed s (.store (host.place party) addr values)
  fault : ∀ s party rq addr, allowed s (.fault (host.place party) rq addr)
  coherent : CoherentLoads cfg allowed

/-- The cluster runs the thread of an access, and the location is inside a page. -/
def Host.Possible (host : Host Party Loc Value) (cfg : Config) :
    Party × Effect Loc Value Note → Prop
  | (party, event) => event.Within fun loc => cfg.runs (host.place party) = true ∧
      withinPage (host.layout.start loc) (host.layout.size loc) = true

variable {host : Host Party Loc Value} {cfg : Config} {allowed : Sys → Action → Prop}
variable {initial : Loc → Value} {programs left : Party → Program Loc Value Note Unit}
variable {trace : List (Party × Effect Loc Value Note)} {s after : Sys}

omit [DecidableEq Loc] in
/-- Steps of the runtime between those of the programs. -/
theorem Host.run_serves
    (run : Run (host.hosted cfg programs) (host.Permits allowed) trace ⟨s, left⟩)
    (serves : Serves cfg allowed s after) :
    Run (host.hosted cfg programs) (host.Permits allowed) trace ⟨after, left⟩ := by
  induction serves with
  | refl => exact run
  | @tail between next _ taken inductionHypothesis =>
      obtain ⟨action, events, ofRuntime, allows, moved⟩ := taken
      have step : (host.hosted cfg programs).step ⟨between, left⟩ (.runtime action) =
          some (⟨next, left⟩, []) := by
        simp only [hosted, ofRuntime, if_true, moved, Option.map_some]
      have permitted : host.Permits allowed ⟨between, left⟩ (.runtime action) := by
        rintro _ ⟨⟩
        exact allows
      simpa using inductionHypothesis.step permitted step

omit [DecidableEq Loc] in
/-- A program that is about to access a location gets the access. -/
theorem Host.access_granted (zero : cfg.managerId = 0) (single : cfg.appThreads = 1)
    (admitted : host.Admitted cfg allowed) {party : Party} {event : Effect Loc Value Note} (rq : Rq)
    {addr : Nat} {next : Program Loc Value Note Unit} (runs : cfg.runs (host.place party) = true)
    (fits : addr < wordCount)
    (run : Run (host.hosted cfg programs) (host.Permits allowed) trace ⟨s, left⟩) (quiet : s.Quiet)
    (reached : Reachable (machine cfg) allowed s)
    (stepped : (left party).step (host.view s party) = some (next, some event))
    (faults : rq.faults ((s.node (host.place party).node).prot (pgAlign addr)) = true →
      host.action? s party event = some (.fault (host.place party) rq addr)) :
    ∃ granted, Run (host.hosted cfg programs) (host.Permits allowed) trace ⟨granted, left⟩ ∧
      granted.Quiet ∧
      rq.faults ((granted.node (host.place party).node).prot (pgAlign addr)) = false := by
  cases denied : rq.faults ((s.node (host.place party).node).prot (pgAlign addr)) with
  | false => exact ⟨s, run, quiet, denied⟩
  | true =>
      have performs := faults denied
      have within : withinPage addr 1 = true := withinPage_iff.mpr ⟨fits, by omega⟩
      have entered : s.step cfg (.fault (host.place party) rq addr) =
          some (s.setApp (host.place party) (.fault rq addr .entry), []) :=
        Sys.step_fault_of (quiet.outside _) runs within denied
      have permitted : host.Permits allowed ⟨s, left⟩ (.program party) := by
        refine Host.permits_program stepped fun action performed => ?_
        obtain rfl := Option.some.inj (performs.symm.trans performed)
        exact admitted.fault ..
      have faulted := run.step permitted (Host.hosted_fault stepped performs rfl entered)
      rw [List.append_nil] at faulted
      have reader : rq = .rd → ((s.node 0).info (pgAlign addr)).owner ≠ 0 →
          ((s.node 0).info (pgAlign addr)).owner ≠ (host.place party).node := by
        rintro rfl owned
        obtain ⟨accesses, reaches⟩ := reached
        refine owner_has_access zero single (pgAlign_dvd addr) (pgAlign_lt fits)
          (reaches.mono admitted.reliable).reachable quiet ?_ owned
        simpa [Rq.faults] using denied
      obtain ⟨granted, serves, calm, access⟩ := fault_served zero admitted.lenient quiet runs fits
        reader
      exact ⟨granted, host.run_serves faulted serves, calm, access⟩

/-- A store leaves a quiet state quiet. -/
theorem Sys.Quiet.stored {s : Sys} (quiet : s.Quiet) {node : NodeId} {mem : Addr → UInt8} :
    (s.setNode node { s.node node with mem := mem }).Quiet where
  outside := quiet.outside
  pageFree other key := by
    by_cases same : other = node
    · subst same
      simpa [Sys.setNode] using quiet.pageFree other key
    · simpa [Sys.setNode, same] using quiet.pageFree other key
  infoFree other key := by
    by_cases same : other = node
    · subst same
      simpa [Sys.setNode] using quiet.infoFree other key
    · simpa [Sys.setNode, same] using quiet.infoFree other key
  bounded := quiet.bounded

/-- The step that a program takes on the atomic memory, taken on its node. -/
theorem Host.realises_step (zero : cfg.managerId = 0) (single : cfg.appThreads = 1)
    (admitted : host.Admitted cfg allowed) (start : host.layout.Holds (fun _ => 0) initial)
    (only : ∀ party, Program.Only host.layout.Permits (programs party)) {mem : Loc → Value}
    (atomic : Run (Threads.interleaving initial programs) anyStep trace ⟨mem, left⟩)
    (run : Run (host.hosted cfg programs) (host.Permits allowed) trace ⟨s, left⟩) (quiet : s.Quiet)
    {party : Party} {next : Program Loc Value Note Unit}
    {emitted : Option (Effect Loc Value Note)}
    (stepped : (left party).step mem = some (next, emitted))
    (possible : ∀ event, emitted = some event → host.Possible cfg (party, event)) :
    ∃ after, Run (host.hosted cfg programs) (host.Permits allowed)
      (trace ++ Threads.tagged party emitted.toList) ⟨after, Function.update left party next⟩ ∧
      after.Quiet := by
  -- whatever state of the cluster the trace leads to, its bytes hold `mem`
  have simulates : ∀ {reached}, Run (host.hosted cfg programs) (host.Permits allowed) trace
      ⟨reached, left⟩ → ∃ accesses,
        host.Simulates cfg allowed initial programs trace ⟨reached, left⟩ accesses mem := by
    intro reached hosted
    obtain ⟨accesses, held, simulates⟩ := hosted_simulates admitted.coherent start only hosted
    have same : held = mem := (Threads.run_mem simulates.atomic).trans (Threads.run_mem atomic).symm
    subst same
    exact ⟨accesses, simulates⟩
  obtain ⟨accesses, here⟩ := simulates run
  have reached : Reachable (machine cfg) allowed s := here.cluster.reachable
  have silently : ∀ {emitted}, emitted.bind (host.action? s party) = none →
      (left party).step (host.view s party) = some (next, emitted) →
      ∃ after, Run (host.hosted cfg programs) (host.Permits allowed)
        (trace ++ Threads.tagged party emitted.toList) ⟨after, Function.update left party next⟩ ∧
        after.Quiet := by
    intro emitted silent onView
    refine ⟨s, run.step (Host.permits_program onView ?_)
      (Host.hosted_silent onView silent (quiet.outside _)), quiet⟩
    simp [silent]
  cases emitted with
  | none => exact silently rfl (Program.step_congr stepped (by simp))
  | some event =>
      have fits := ((here.permitted party).step stepped).2 event rfl
      cases event with
      | note text => exact silently rfl (Program.step_congr stepped (by simp))
      | load loc value =>
          obtain ⟨runs, inPage⟩ := possible _ rfl
          obtain ⟨_, onView⟩ := Program.step_load stepped (host.view s party)
          obtain ⟨granted, run, quiet, readable⟩ := host.access_granted zero single
            admitted .rd runs (withinPage_iff.mp inPage).1 run quiet reached onView
            (fun denied => by
              simp only [Rq.faults, Bool.not_eq_true'] at denied
              simp [Host.action?, denied])
          simp only [Rq.faults, Bool.not_eq_false'] at readable
          -- now the node holds what the atomic memory holds
          obtain ⟨accesses, there⟩ := simulates run
          have loads := Sys.step_load_of (quiet.outside _) runs inPage readable
          have same := there.view_eq admitted.coherent fits (admitted.load ..) loads
          have onView : (left party).step (host.view granted party) =
              some (next, some (.load loc value)) :=
            Program.step_congr stepped (by rintro _ _ ⟨⟩; exact same.symm)
          have performs : host.action? granted party (.load loc value : Effect Loc Value Note) =
              some (.load (host.place party) (host.layout.start loc) (host.layout.size loc)) := by
            simp [Host.action?, readable]
          refine ⟨granted, run.step (Host.permits_program onView ?_)
            (Host.hosted_access onView performs rfl loads), quiet⟩
          rintro action performed
          obtain rfl := Option.some.inj (performs.symm.trans performed)
          exact admitted.load ..
      | store loc value =>
          obtain ⟨runs, inPage⟩ := possible _ rfl
          have onView : (left party).step (host.view s party) =
              some (next, some (.store loc value)) := Program.step_congr stepped (by simp)
          obtain ⟨granted, run, quiet, writable⟩ := host.access_granted zero single
            admitted .wr runs (withinPage_iff.mp inPage).1 run quiet reached onView
            (fun denied => by
              simp only [Rq.faults, Bool.not_eq_true'] at denied
              simp [Host.action?, denied])
          simp only [Rq.faults, Bool.not_eq_false'] at writable
          have onView : (left party).step (host.view granted party) =
              some (next, some (.store loc value)) := Program.step_congr stepped (by simp)
          have performs : host.action? granted party (.store loc value : Effect Loc Value Note) =
              some (.store (host.place party) (host.layout.start loc)
                (host.layout.encode loc value)) := by
            simp [Host.action?, writable]
          have sized : withinPage (host.layout.start loc) (host.layout.encode loc value).length =
              true := by
            rwa [host.layout.encode_length]
          have stores := Sys.step_store_of (quiet.outside _) runs sized writable
          refine ⟨_, run.step (Host.permits_program onView ?_)
            (Host.hosted_access onView performs rfl stores), ?_⟩
          · rintro action performed
            obtain rfl := Option.some.inj (performs.symm.trans performed)
            exact admitted.store ..
          · exact quiet.stored

/-- Every interleaving of the programs is one that the cluster can run. -/
theorem Host.realises (zero : cfg.managerId = 0) (single : cfg.appThreads = 1)
    (admitted : host.Admitted cfg allowed) (start : host.layout.Holds (fun _ => 0) initial)
    (only : ∀ party, Program.Only host.layout.Permits (programs party))
    {state : Threads Party Loc Value Note}
    (run : Run (Threads.interleaving initial programs) anyStep trace state)
    (possible : ∀ entry ∈ trace, host.Possible cfg entry) :
    ∃ s, Run (host.hosted cfg programs) (host.Permits allowed) trace ⟨s, state.programs⟩ ∧
      s.Quiet := by
  induction run with
  | init =>
      refine ⟨Sys.initial, .init, fun _ => rfl, fun _ _ => rfl, fun _ _ => rfl, 0, fun _ _ => rfl⟩
  | @step trace events before after party run _ taken inductionHypothesis =>
      obtain ⟨s, hosted, quiet⟩ :=
        inductionHypothesis fun entry member => possible entry (List.mem_append_left _ member)
      obtain ⟨next, emitted, stepped, samePrograms, same⟩ := Threads.step_cases taken
      have tagged : events = Threads.tagged party emitted.toList := by
        rcases same with ⟨rfl, rfl, -⟩ | ⟨event, rfl, rfl, -⟩ <;> rfl
      rw [tagged] at possible ⊢
      obtain ⟨later, realised, calm⟩ :=
        host.realises_step zero single admitted start only run hosted quiet stepped (by
          rintro event rfl
          exact possible _ (List.mem_append_right _ (List.mem_singleton_self _)))
      rw [samePrograms]
      exact ⟨later, realised, calm⟩

omit [DecidableEq Loc] [DecidableEq Party] in
/-- What a program does without an access of its node is possible. -/
theorem Host.possible_silent {party : Party} {event : Effect Loc Value Note}
    (silent : host.action? s party event = none) : host.Possible cfg (party, event) := by
  cases event with
  | note text => trivial
  | _ =>
      unfold Host.action? at silent
      dsimp only at silent
      split at silent <;> contradiction

omit [DecidableEq Loc] [DecidableEq Party] in
/-- An access that a node performs is possible. -/
theorem Host.possible_access {party : Party} {event : Effect Loc Value Note} {action : Action}
    {accesses : List Event} (performs : host.action? s party event = some action)
    (accessed : action.isFault = false) (moved : s.step cfg action = some (after, accesses)) :
    host.Possible cfg (party, event) := by
  rcases host.action?_cases performs with ⟨rq, addr, rfl⟩ | ⟨loc, value, rfl, rfl⟩ |
    ⟨loc, value, rfl, rfl⟩
  · contradiction
  · obtain ⟨-, runs, within, -⟩ := Sys.step_load moved
    exact ⟨runs, within⟩
  · obtain ⟨-, runs, within, -⟩ := Sys.step_store moved
    rw [host.layout.encode_length] at within
    exact ⟨runs, within⟩

omit [DecidableEq Loc] in
/-- What a hosted run does is possible. -/
theorem Host.possible_of_run {state : Hosted Party Loc Value Note}
    (run : Run (host.hosted cfg programs) (host.Permits allowed) trace state) :
    ∀ entry ∈ trace, host.Possible cfg entry := by
  apply run.invariant fun trace _ => ∀ entry ∈ trace, host.Possible cfg entry
  · simp
  · intro trace events before after choice _ possible _ taken entry member
    rcases List.mem_append.mp member with earlier | now
    · exact possible entry earlier
    · cases choice with
      | runtime action =>
          obtain ⟨-, -, rfl, -⟩ := host.hosted_runtime taken
          contradiction
      | program party =>
          obtain ⟨next, emitted, -, ⟨silent, -, -, rfl⟩ | ⟨action, accesses, performs, moved,
            ⟨-, -, rfl⟩ | ⟨accessed, -, rfl⟩⟩⟩ := host.stepProgram_cases taken
          · obtain ⟨rfl, emits⟩ := Threads.mem_tagged now
            obtain rfl : emitted = some entry.2 := Option.mem_toList.mp emits
            exact host.possible_silent silent
          · contradiction
          · obtain ⟨rfl, emits⟩ := Threads.mem_tagged now
            obtain rfl : emitted = some entry.2 := Option.mem_toList.mp emits
            exact host.possible_access performs accessed moved

omit [DecidableEq Party] [DecidableEq Loc] in
/-- The manager gives away what it has, and any node may run programs. -/
theorem Host.admitted_giving (zero : cfg.managerId = 0) (single : cfg.appThreads = 1) :
    host.Admitted cfg (ReliableGiving cfg) where
  reliable _ _ permitted := permitted.1
  lenient _ _ _ reliable gives := ⟨reliable, gives⟩
  load _ _ _ _ := ⟨rfl, trivial⟩
  store _ _ _ _ := ⟨rfl, trivial⟩
  fault _ _ _ _ := ⟨rfl, trivial⟩
  coherent := coherentLoads_giving zero single

/-- Programs that are placed on a cluster, whose manager gives away the pages that it
has, do what they can do on one atomic memory: nothing else, and all of it that
accesses running threads and no two pages at once. -/
theorem cluster_runs_iff_interleaving (zero : cfg.managerId = 0) (single : cfg.appThreads = 1)
    (start : host.layout.Holds (fun _ => 0) initial)
    (only : ∀ party, Program.Only host.layout.Permits (programs party)) :
    (∃ s, Run (host.hosted cfg programs) (host.Permits (ReliableGiving cfg)) trace ⟨s, left⟩) ↔
      (∃ mem, Run (Threads.interleaving initial programs) anyStep trace ⟨mem, left⟩) ∧
        ∀ entry ∈ trace, host.Possible cfg entry := by
  constructor
  · rintro ⟨s, run⟩
    obtain ⟨_, mem, simulates⟩ := hosted_simulates (coherentLoads_giving zero single) start only run
    exact ⟨⟨mem, simulates.atomic⟩, host.possible_of_run run⟩
  · rintro ⟨⟨mem, run⟩, possible⟩
    obtain ⟨s, realised, -⟩ :=
      host.realises zero single (host.admitted_giving zero single) start only run possible
    exact ⟨s, realised⟩

end

/-! ### A run -/

/-- One word on the first page, for a program on the manager and one on a worker. -/
def oneWord : Host Bool Unit UInt64 where
  place worker := ⟨worker.toNat, 0⟩
  distinct := by
    intro one other same
    have sameNode : one.toNat = other.toNat := congrArg AppId.node same
    revert sameNode
    cases one <;> cases other <;> decide
  layout := wordLayout (fun _ => firstPage) (fun _ => 8) (fun _ => True)
    fun _ _ _ _ different => absurd rfl different

/-- The manager writes the word, the worker reads it. -/
def passWord : Bool → Program Unit UInt64 Empty Unit
  | false => .write () 0x1122334455667788
  | true => discard (Program.read ())

theorem passWord_only (party : Bool) : Program.Only oneWord.layout.Permits (passWord party) := by
  cases party with
  | false => exact .write ⟨trivial, word_fits _⟩
  | true => exact .discard (.read fun _ => by trivial)

/-- What the manager writes reaches the worker. -/
theorem cluster_runs_iff_interleaving_passWord :
    ∃ left s, Run (oneWord.hosted threeNodes passWord) (oneWord.Permits (ReliableGiving threeNodes))
      [(false, .store () 0x1122334455667788), (true, .load () 0x1122334455667788)] ⟨s, left⟩ := by
  obtain ⟨trace, ⟨mem, left⟩, run, same⟩ := exists_run
    (Threads.interleaving (fun _ => 0) passWord) (fun _ _ => true)
    (fun _ trace => trace ==
      [(false, .store () 0x1122334455667788), (true, .load () 0x1122334455667788)])
    [false, true] (fun _ _ _ => trivial) (by decide)
  obtain rfl := beq_iff_eq.mp same
  refine ⟨left, (cluster_runs_iff_interleaving rfl rfl wordLayout_zero passWord_only).mpr
    ⟨⟨mem, run⟩, ?_⟩⟩
  intro entry member
  rcases List.mem_pair.mp member with rfl | rfl <;> exact ⟨by decide, by decide⟩

end LibIvy
