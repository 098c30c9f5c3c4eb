import OpcodeDispatch.Text.Numeral

/-!
Opcodes, in the order of their values, and the two digits by which they are written.
-/

namespace OpcodeDispatch

abbrev Opcode := Fin 256

namespace Opcode

/-- The opcode with a number's low eight bits. -/
def ofNat (n : Nat) : Opcode := ⟨n % 256, Nat.mod_lt n (by decide)⟩

def first : Opcode := ofNat 0

def last : Opcode := ofNat 255

/-- The opcode that follows; none follows the last. -/
def next? (op : Opcode) : Option Opcode :=
  if h : op.val + 1 < 256 then some ⟨op.val + 1, h⟩ else none

def render (op : Opcode) : String := Numeral.hex 2 op.val

def all : List Opcode := List.finRange 256

theorem next?_eq_some {op next : Opcode} : op.next? = some next ↔ next.val = op.val + 1 := by
  unfold next?
  split
  · simp [Fin.ext_iff, eq_comm]
  · simp; omega

theorem next?_eq_none {op : Opcode} : op.next? = none ↔ op = last := by
  unfold next? last ofNat
  split <;> simp [Fin.ext_iff] <;> omega

theorem mem_all (op : Opcode) : op ∈ all := List.mem_finRange op

end Opcode
end OpcodeDispatch
