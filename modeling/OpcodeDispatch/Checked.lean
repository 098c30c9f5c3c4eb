import OpcodeDispatch.Listing.Basic
import OpcodeDispatch.Operation.Checked
import OpcodeDispatch.Run

/-!
Arms, runs and listings with every access and every division checked. A division by zero traps, as an access
outside a list does.
-/

namespace OpcodeDispatch
namespace Checked

/-! ### Costs and arms -/

def renderCost (s : Settings) (r : Record) (branch : Bool) : Checked String := do
  let ticks ← ofExcept r.cost
  let cycles ← ofOption (ticks.scaleDown? s.divisor)
  return Arm.costText s.costStyle branch cycles

def ofArm (s : Settings) (r : Record) : Checked Arm := do
  let op ← ofRecord r
  let code := op.code s.highMemoryBase
  let cost ← renderCost s r code.branch.isSome
  return ⟨r.opcode, .code, code.statements, code.branch, cost⟩

def ofEntry (s : Settings) (e : Entry) : Checked Arm :=
  match e.slot with
  | .reserved => return .undefined e.opcode
  | .record r => ofArm s r

def diagnosticCost? (s : Settings) (e : Entry) : Checked (Option String) :=
  match e.slot with
  | .reserved => return none
  | .record r =>
    tryCatch (some <$> renderCost s r (Family.ofMnemonic r.mnemonic).isBranch) fun _ => return none

def orDiagnostic (s : Settings) (e : Entry) : Checked Arm :=
  tryCatch (ofEntry s e) fun f => do
    if s.isLenient && f.isRecoverable then return .diagnostic e.opcode f (← diagnosticCost? s e)
    else throw f

/-! ### Runs and listings -/

/-- Writes the arms of the reader's answers, up to the first fault. Nothing is given if an arm traps. -/
def ofAnswers (s : Settings) (p : Progress) : List (Except Fault Entry) → Option Run
  | [] => some ⟨p.writer.output, .ok p.summary⟩
  | answer :: rest => do
    let written : Checked Progress := ofExcept answer >>= orDiagnostic s >>= fun a => ofExcept (p.write a)
    match ← written.run with
    | .ok p' => ofAnswers s p' rest
    | .error f => return ⟨p.writer.output, .error f⟩

def compile (s : Settings) (table : List UInt8) : Option Run :=
  match s.validate with
  | .ok () => ofAnswers s .start (TableReader.ofSettings s (Line.ofTable table)).all
  | .error f => some ⟨"", .error f⟩

def listedRecord (s : Settings) (op : Opcode) (r : Record) (arm : Arm) : Checked ListedOpcode := do
  let ticks ← ofExcept r.cost
  let cycles ← ofOption (ticks.scaleDown? s.ticksPerCycle)
  let flags ← ofExcept r.flagEffects
  return .ofParts op r ticks cycles flags arm

def listedOpcode (s : Settings) (e : Entry) : Checked ListedOpcode := do
  let arm ← ofEntry s e
  match e.slot with
  | .reserved => return .ofReserved e.opcode arm
  | .record r => listedRecord s e.opcode r arm

def listedAnswers (s : Settings) : List (Except Fault Entry) → Checked (List ListedOpcode)
  | [] => return []
  | answer :: rest => do
    let listed ← listedOpcode s (← ofExcept answer)
    return listed :: (← listedAnswers s rest)

def listing (s : Settings) (table : List UInt8) : Checked (List ListedOpcode) := do
  ofExcept s.validate
  listedAnswers s (TableReader.ofTable table s.reservedSet false).all

end Checked
end OpcodeDispatch
