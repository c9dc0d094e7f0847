import Mathlib.Algebra.Group.Nat.Defs
import Mathlib.Data.List.Sort
import Mathlib.Logic.Function.Basic

/-!
Contract: the vocabulary shared by every part of libivy.

Owns: page alignment (`pg_align`), the access types, the page size, node ids
and sets of node ids (`std::set<size_t>`, iterated in ascending order), and the
configuration that the constructor accepts.

Does not own: locks, memory, messages.
-/

namespace LibIvy

/-- `idx_t`: a position in the configured node list. -/
abbrev NodeId := Nat

/-- An address of the 64-bit address space. -/
abbrev Addr := Nat

/-- `Ivy::PAGE_SZ`. -/
def pageSize : Nat := 4096

/-- The contents of one page. -/
abbrev Page := Fin pageSize → UInt8

/-- `pg_align`: the start of the page that contains an address. -/
def pgAlign (addr : Nat) : Nat := addr / 4096 * 4096

/-- `IvyAccessType`. -/
inductive AccessType where
  | rd
  | wr
  | rw
  | none
deriving DecidableEq, Repr

namespace AccessType

/-- A load does not fault. On x86 a writable mapping is readable. -/
def readable : AccessType → Bool
  | .none => false
  | _ => true

/-- A store does not fault. -/
def writable : AccessType → Bool
  | .wr => true
  | .rw => true
  | _ => false

@[simp] theorem readable_eq_false {access : AccessType} :
    access.readable = false ↔ access = .none := by
  cases access <;> simp [readable]

@[simp] theorem readable_eq_true {access : AccessType} :
    access.readable = true ↔ access ≠ .none := by
  cases access <;> simp [readable]

end AccessType

/-! ### Page alignment -/

theorem pgAlign_le (addr : Nat) : pgAlign addr ≤ addr :=
  Nat.div_mul_le_self addr 4096

theorem pgAlign_dvd (addr : Nat) : 4096 ∣ pgAlign addr :=
  Nat.dvd_mul_left 4096 _

theorem pgAlign_of_dvd {addr : Nat} (aligned : 4096 ∣ addr) : pgAlign addr = addr :=
  Nat.div_mul_cancel aligned

@[simp] theorem pgAlign_pgAlign (addr : Nat) : pgAlign (pgAlign addr) = pgAlign addr :=
  pgAlign_of_dvd (pgAlign_dvd addr)

theorem pgAlign_lt {addr bound : Nat} (below : addr < bound) : pgAlign addr < bound :=
  lt_of_le_of_lt (pgAlign_le addr) below

/-! ### Sets of node ids -/

/-- `std::set<size_t>`: its elements in the order of iteration. -/
structure NodeSet where
  elems : List NodeId
  ascending : elems.Pairwise (· < ·)
deriving DecidableEq

namespace NodeSet

instance : Membership NodeId NodeSet := ⟨fun set node => node ∈ set.elems⟩

theorem mem_def {node : NodeId} {set : NodeSet} : node ∈ set ↔ node ∈ set.elems := Iff.rfl

instance (node : NodeId) (set : NodeSet) : Decidable (node ∈ set) :=
  inferInstanceAs (Decidable (node ∈ set.elems))

def empty : NodeSet := ⟨[], .nil⟩

instance : EmptyCollection NodeSet := ⟨empty⟩

@[simp] theorem elems_empty : (∅ : NodeSet).elems = [] := rfl

@[simp] theorem not_mem_empty (node : NodeId) : node ∉ (∅ : NodeSet) := by
  simp [mem_def]

/-- Insertion into an ascending list; an element that is there stays once. -/
def insertSorted (node : Nat) : List Nat → List Nat
  | [] => [node]
  | head :: tail =>
      if node < head then node :: head :: tail
      else if node = head then head :: tail
      else head :: insertSorted node tail

theorem mem_insertSorted {node other : Nat} (elems : List Nat) :
    other ∈ insertSorted node elems ↔ other = node ∨ other ∈ elems := by
  induction elems with
  | nil => simp [insertSorted]
  | cons head tail inductionHypothesis =>
      unfold insertSorted
      split
      · simp
      · split
        · rename_i same
          subst same
          simp
        · simp only [List.mem_cons, inductionHypothesis]
          tauto

theorem insertSorted_ascending {node : Nat} {elems : List Nat}
    (ascending : elems.Pairwise (· < ·)) : (insertSorted node elems).Pairwise (· < ·) := by
  induction elems with
  | nil => simp [insertSorted]
  | cons head tail inductionHypothesis =>
      rw [List.pairwise_cons] at ascending
      unfold insertSorted
      split
      · rename_i below
        refine List.pairwise_cons.mpr ⟨?_, List.pairwise_cons.mpr ascending⟩
        intro other member
        rcases List.mem_cons.mp member with rfl | member
        · exact below
        · exact lt_trans below (ascending.1 other member)
      · split
        · exact List.pairwise_cons.mpr ascending
        · refine List.pairwise_cons.mpr ⟨?_, inductionHypothesis ascending.2⟩
          intro other member
          rcases (mem_insertSorted tail).mp member with rfl | member
          · omega
          · exact ascending.1 other member

/-- `copyset.insert(node)`. -/
def insert (node : NodeId) (set : NodeSet) : NodeSet :=
  ⟨insertSorted node set.elems, insertSorted_ascending set.ascending⟩

/-- `copyset.erase(node)`. -/
def erase (node : NodeId) (set : NodeSet) : NodeSet :=
  ⟨set.elems.filter (· ≠ node), set.ascending.filter _⟩

@[simp] theorem mem_insert {node other : NodeId} {set : NodeSet} :
    other ∈ set.insert node ↔ other = node ∨ other ∈ set :=
  mem_insertSorted set.elems

@[simp] theorem mem_erase {node other : NodeId} {set : NodeSet} :
    other ∈ set.erase node ↔ other ≠ node ∧ other ∈ set := by
  simp [mem_def, erase, and_comm]

/-- A set is determined by its elements. -/
theorem ext {first second : NodeSet} (same : ∀ node, node ∈ first ↔ node ∈ second) :
    first = second := by
  obtain ⟨firstElems, firstAscending⟩ := first
  obtain ⟨secondElems, secondAscending⟩ := second
  obtain rfl : firstElems = secondElems :=
    firstAscending.eq_of_mem_iff secondAscending same
  rfl

theorem eq_empty {set : NodeSet} (nobody : ∀ node, node ∉ set) : set = ∅ := by
  obtain ⟨elems, ascending⟩ := set
  have none : elems = [] := List.eq_nil_iff_forall_not_mem.mpr nobody
  subst none
  rfl

end NodeSet

/-! ### Configuration -/

/-- A configuration that the constructor accepts: a node list that is a C++
vector, and a manager id that names one of its nodes. `appThreads` is the number
of application threads each node runs. -/
structure Config where
  nodes : List (List Char)
  managerId : NodeId
  appThreads : Nat
  managerListed : managerId < nodes.length
  vectorSize : nodes.length < 2 ^ 64

/-- `is_manager()` on the node with id `id`. -/
def Config.isManager (cfg : Config) (id : NodeId) : Bool := id == cfg.managerId

@[simp] theorem Config.isManager_eq_true {cfg : Config} {id : NodeId} :
    cfg.isManager id = true ↔ id = cfg.managerId := by
  simp [isManager]

@[simp] theorem Config.isManager_eq_false {cfg : Config} {id : NodeId} :
    cfg.isManager id = false ↔ id ≠ cfg.managerId := by
  simp [isManager]

end LibIvy
