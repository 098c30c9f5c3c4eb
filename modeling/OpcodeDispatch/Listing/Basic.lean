import OpcodeDispatch.Arm.OfEntry
import OpcodeDispatch.Table.Reader

/-!
The listing of a table: for each opcode what the table says of it and the arm it gets. A listing is
always strict, and unlike a run it also needs every flags line to be well formed.
-/

namespace OpcodeDispatch

structure ListedOperand where
  text : String
  /-- nothing for a condition or a number -/
  mode : Option AddressingMode
  deriving DecidableEq

/-- What is listed of an opcode. Of a reserved one only the arm is known. -/
structure ListedOpcode where
  opcode : Opcode
  reserved : Bool
  instruction : Option String
  family : Option Family
  operands : List ListedOperand
  /-- the cost as the table gives it -/
  ticks : Option CycleCost
  /-- the cost in machine cycles -/
  cycles : Option CycleCost
  flags : Option FlagEffects
  arm : String
  deriving DecidableEq

def ListedOperand.ofText (text : String) : ListedOperand := ⟨text, AddressingMode.parse? text⟩

namespace ListedOpcode

def ofReserved (op : Opcode) (arm : Arm) : ListedOpcode where
  opcode := op
  reserved := true
  instruction := none
  family := none
  operands := []
  ticks := none
  cycles := none
  flags := none
  arm := arm.render

def ofParts (op : Opcode) (r : Record) (ticks cycles : CycleCost) (flags : FlagEffects) (arm : Arm) :
    ListedOpcode where
  opcode := op
  reserved := false
  instruction := some r.instruction
  family := some (Family.ofMnemonic r.mnemonic)
  operands := r.operandList.map .ofText
  ticks := some ticks
  cycles := some cycles
  flags := some flags
  arm := arm.render

/-- Reads of a record what its arm does not show: the cost first, then the flags. -/
def ofRecord (s : Settings) (op : Opcode) (r : Record) (arm : Arm) : Except Fault ListedOpcode := do
  let ticks ← r.cost
  let flags ← r.flagEffects
  return ofParts op r ticks (ticks.scaleDown s.ticksPerCycle) flags arm

def ofEntry (s : Settings) (e : Entry) : Except Fault ListedOpcode := do
  let arm ← Arm.ofEntry s e
  match e.slot with
  | .reserved => return ofReserved e.opcode arm
  | .record r => ofRecord s e.opcode r arm

end ListedOpcode

namespace Listing

/-- Lists the reader's answers, up to the first fault. -/
def ofAnswers (s : Settings) : List (Except Fault Entry) → Except Fault (List ListedOpcode)
  | [] => .ok []
  | answer :: rest => do
    let listed ← ListedOpcode.ofEntry s (← answer)
    return listed :: (← ofAnswers s rest)

def ofTable (s : Settings) (table : List UInt8) : Except Fault (List ListedOpcode) := do
  s.validate
  ofAnswers s (TableReader.ofTable table s.reservedSet false).all

end Listing
end OpcodeDispatch
