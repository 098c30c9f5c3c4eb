import OpcodeDispatch.Opcode

/-!
Sets of opcodes, one bit an opcode. Two sets are equal iff they have the same members.
-/

namespace OpcodeDispatch

structure OpcodeSet where
  bits : BitVec 256
  deriving DecidableEq

namespace OpcodeSet

def empty : OpcodeSet := ⟨0⟩

def contains (s : OpcodeSet) (op : Opcode) : Bool := s.bits.getLsbD op.val

instance : Membership Opcode OpcodeSet := ⟨fun s op => s.contains op = true⟩

instance (op : Opcode) (s : OpcodeSet) : Decidable (op ∈ s) :=
  inferInstanceAs (Decidable (s.contains op = true))

def insert (s : OpcodeSet) (op : Opcode) : OpcodeSet := ⟨s.bits ||| BitVec.twoPow 256 op.val⟩

def ofList (ops : List Opcode) : OpcodeSet := ops.foldl insert empty

/-- The opcodes to which the SM83 assigns no instruction, as they are usually listed. -/
def unassigned : List Opcode :=
  [0xd3, 0xe3, 0xe4, 0xf4, 0xdb, 0xeb, 0xec, 0xfc, 0xdd, 0xed, 0xfd].map Opcode.ofNat

def reserved : OpcodeSet := ofList unassigned

/-- The members, ascending. -/
def toList (s : OpcodeSet) : List Opcode := Opcode.all.filter s.contains

def size (s : OpcodeSet) : Nat := s.toList.length

def isEmpty (s : OpcodeSet) : Bool := s.bits == 0

theorem mem_iff {s : OpcodeSet} {op : Opcode} : op ∈ s ↔ s.contains op = true := Iff.rfl

theorem contains_empty (op : Opcode) : empty.contains op = false := by simp [contains, empty]

theorem contains_insert (s : OpcodeSet) (op op' : Opcode) :
    (s.insert op).contains op' = (s.contains op' || decide (op = op')) := by
  simp [contains, insert, Fin.ext_iff, eq_comm]

theorem mem_ofList {ops : List Opcode} {op : Opcode} : op ∈ ofList ops ↔ op ∈ ops := by
  suffices h : ∀ s : OpcodeSet, op ∈ ops.foldl insert s ↔ op ∈ s ∨ op ∈ ops by
    simpa [ofList, mem_iff, contains_empty] using h empty
  induction ops with
  | nil => simp
  | cons a as ih =>
    intro s
    rw [List.foldl_cons, ih, List.mem_cons, mem_iff, contains_insert, Bool.or_eq_true,
      decide_eq_true_eq, or_assoc, mem_iff, @eq_comm _ a op]

theorem mem_toList {s : OpcodeSet} {op : Opcode} : op ∈ s.toList ↔ op ∈ s := by
  simp [toList, Opcode.mem_all, mem_iff]

@[ext] theorem ext {s t : OpcodeSet} (h : ∀ op, op ∈ s ↔ op ∈ t) : s = t := by
  cases s with | mk a => cases t with | mk b =>
  congr 1
  apply BitVec.eq_of_getLsbD_eq
  intro i hi
  simpa [mem_iff, contains, ← Bool.eq_iff_iff] using h ⟨i, hi⟩

end OpcodeSet
end OpcodeDispatch
