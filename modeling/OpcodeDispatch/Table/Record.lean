import OpcodeDispatch.CycleCost
import OpcodeDispatch.Fault
import OpcodeDispatch.FlagEffects

/-!
An instruction as the table writes it, and the entry it makes for its opcode.
-/

namespace OpcodeDispatch

structure Record where
  opcode : Opcode
  /-- the line of the mnemonic, counted from one -/
  line : Nat
  mnemonic : String
  operands : String
  label : String
  cycleToken : String
  flags : String
  deriving DecidableEq

namespace Record

/-- The operands between commas, trimmed; none if there is no operand text. -/
def operandList (r : Record) : List String :=
  if r.operands = "" then [] else (Text.pieces ',' r.operands).map Text.trim

def instruction (r : Record) : String :=
  if r.operands = "" then r.mnemonic else r.mnemonic ++ " " ++ r.operands

def cost (r : Record) : Except Fault CycleCost :=
  match CycleCost.parse? r.cycleToken with
  | some c => .ok c
  | none => .error (.badCycles r.opcode r.cycleToken)

def flagEffects (r : Record) : Except Fault FlagEffects :=
  match FlagEffects.parse? r.flags with
  | some fx => .ok fx
  | none => .error (.badFlags r.flags)

end Record

inductive Slot where
  /-- an opcode that no instruction has -/
  | reserved
  | record (r : Record)
  deriving DecidableEq

structure Entry where
  opcode : Opcode
  slot : Slot
  deriving DecidableEq

end OpcodeDispatch
