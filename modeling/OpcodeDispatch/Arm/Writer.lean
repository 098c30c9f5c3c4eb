import OpcodeDispatch.Arm.Basic

/-!
The writer of arms: one line an arm, in the order of the opcodes. An arm out of order is refused
and changes nothing.
-/

namespace OpcodeDispatch

structure ArmWriter where
  output : String
  /-- the opcode whose arm comes next; none after the last -/
  expected : Option Opcode
  written : Nat
  deriving DecidableEq

namespace ArmWriter

def empty : ArmWriter := ⟨"", some .first, 0⟩

def write (w : ArmWriter) (a : Arm) : Except Fault ArmWriter :=
  if w.expected = some a.opcode then
    .ok ⟨w.output ++ a.render ++ "\n", a.opcode.next?, w.written + 1⟩
  else .error (.outOfOrder (w.expected.getD .last) a.opcode)

def isComplete (w : ArmWriter) : Bool := w.expected.isNone

theorem write_expected {w : ArmWriter} {a : Arm} (h : w.expected = some a.opcode) :
    w.write a = .ok ⟨w.output ++ a.render ++ "\n", a.opcode.next?, w.written + 1⟩ := by
  simp [write, h]

theorem write_unexpected {w : ArmWriter} {a : Arm} (h : w.expected ≠ some a.opcode) :
    w.write a = .error (.outOfOrder (w.expected.getD .last) a.opcode) := by
  simp [write, h]

end ArmWriter
end OpcodeDispatch
