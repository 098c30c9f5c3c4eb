import OpcodeDispatch.Arm.Basic
import OpcodeDispatch.Operation.Code
import OpcodeDispatch.Operation.OfRecord
import OpcodeDispatch.Settings.Basic

/-!
The arm of an entry: the code of its operation, and its cost in machine cycles.
-/

namespace OpcodeDispatch
namespace Arm

/-- The text of a cost. Under the style `notTaken` a branch reports its extra cost itself. -/
def costText (style : CostStyle) (branch : Bool) (c : CycleCost) : String :=
  if c.isConditional && style == .notTaken && branch then Numeral.decimal c.base.toNat else c.render

def renderCost (s : Settings) (r : Record) (branch : Bool) : Except Fault String := do
  return costText s.costStyle branch ((← r.cost).scaleDown s.divisor)

def ofRecord (s : Settings) (r : Record) : Except Fault Arm := do
  let op ← Operation.ofRecord r
  let code := op.code s.highMemoryBase
  let cost ← renderCost s r code.branch.isSome
  return ⟨r.opcode, .code, code.statements, code.branch, cost⟩

def ofEntry (s : Settings) (e : Entry) : Except Fault Arm :=
  match e.slot with
  | .reserved => .ok (undefined e.opcode)
  | .record r => ofRecord s r

end Arm
end OpcodeDispatch
