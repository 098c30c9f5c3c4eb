import OpcodeDispatch.CycleCost
import OpcodeDispatch.Operation.OfRecord

/-!
Operations by checked accesses. Operands are taken from their list by position here, once its length has
been looked at; an access outside the list traps, and then nothing is given at all.
-/

namespace OpcodeDispatch

/-- What a computation with checks gives: nothing if it traps. -/
abbrev Checked (α : Type) := ExceptT Fault Option α

namespace Checked

variable {α : Type}

def trap : Checked α := ExceptT.mk none

/-- A computation without accesses to check. -/
def ofExcept (x : Except Fault α) : Checked α := ExceptT.mk (some x)

/-- Traps if there is no value. -/
def ofOption : Option α → Checked α
  | some a => pure a
  | none => trap

/-! ### Operands by position -/

def operandAt (ops : List String) (i : Nat) : Checked String := ofOption ops[i]?

/-- The operand one before the end, where there must be one. -/
def lastOperand (ops : List String) : Checked String :=
  match ops.length with
  | 0 => trap
  | n + 1 => operandAt ops n

/-- The operands from a position on, which must not be behind the end. -/
def operandsFrom (ops : List String) (i : Nat) : Checked (List String) :=
  if i ≤ ops.length then pure (ops.drop i) else trap

/-- The operands of a record, of which there must be `least` to `most`. -/
def operands (r : Record) (least most : Nat) : Checked (List String) :=
  if r.operandList.length < least then throw (.missingOperand r.opcode r.instruction)
  else if most < r.operandList.length then do
    let surplus ← operandsFrom r.operandList most
    throw (r.unsupported (",".intercalate surplus))
  else pure r.operandList

/-- The condition, if there are more than `arity` operands, and the operands without it. -/
def splitCondition (r : Record) (ops : List String) (arity : Nat) : Checked (Option Condition × List String) :=
  if arity < ops.length then do
    let cc ← ofExcept (r.condition (← operandAt ops 0))
    return (some cc, ← operandsFrom ops 1)
  else return (none, ops)

/-! ### Operations -/

def ofLoad (r : Record) : Checked Operation := do
  let ops ← operands r 2 2
  let dst ← operandAt ops 0
  let src ← operandAt ops 1
  let target ← ofExcept (r.mode dst)
  let source ← ofExcept (r.mode src)
  if target.isPair || source.isWordOnly then
    let t ← ofExcept (r.require dst target.wordTarget?)
    let s ← ofExcept (r.require src source.wordSource?)
    return .loadWord t s
  else
    let s ← ofExcept (r.require src source.byteSource?)
    let t ← ofExcept (r.require dst target.byteTarget?)
    return .loadByte t s

def ofConditioned (r : Record) (as? : AddressingMode → Option α) (make : α → Option Condition → Operation) :
    Checked Operation := do
  let ops ← operands r 1 2
  let (cc, rest) ← splitCondition r ops 1
  let a ← ofExcept (r.operandAs as? (← operandAt rest 0))
  return make a cc

def ofRet (r : Record) : Checked Operation := do
  let ops ← operands r 0 1
  let (cc, _) ← splitCondition r ops 0
  return .ret cc

def ofUnary (r : Record) (as? : AddressingMode → Option α) (make : α → Operation) : Checked Operation := do
  let ops ← operands r 1 1
  return make (← ofExcept (r.operandAs as? (← operandAt ops 0)))

def ofAdd (r : Record) (carry : Bool) : Checked Operation := do
  let ops ← operands r 1 2
  let src ← lastOperand ops
  if ops.length = 2 then
    let dst ← operandAt ops 0
    match ← ofExcept (r.mode dst), carry with
    | .register (.byte .a), _ => return .addByte carry (← ofExcept (r.operandAs AddressingMode.byteSource? src))
    | .register (.pair .hl), false => return .addPair (← ofExcept (r.operandAs AddressingMode.pairOf? src))
    | .register (.pair .sp), false =>
      ofExcept (r.operandAs (fun m => if m = .relativeByte then some .addOffset else none) src)
    | _, _ => throw (r.unsupported dst)
  else return .addByte carry (← ofExcept (r.operandAs AddressingMode.byteSource? src))

def ofAccumulate (r : Record) (make : ByteSource → Operation) : Checked Operation := do
  let ops ← operands r 1 2
  if ops.length = 2 then
    let dst ← operandAt ops 0
    if dst ≠ "A" then throw (r.unsupported dst)
  let src ← lastOperand ops
  return make (← ofExcept (r.operandAs AddressingMode.byteSource? src))

def ofRestart (r : Record) : Checked Operation := do
  let ops ← operands r 1 1
  let token ← operandAt ops 0
  match Operation.restartTarget? token with
  | some target => return .restart target
  | none => throw (.badRestart r.opcode token)

def ofRecord (r : Record) : Checked Operation :=
  match Family.ofMnemonic r.mnemonic with
  | .load => ofLoad r
  | .relativeJump => ofConditioned r (fun m => if m = .relativeByte then some () else none) fun _ cc => .relativeJump cc
  | .ret => ofRet r
  | .call => ofConditioned r (fun m => if m = .immediateWord then some () else none) fun _ cc => .call cc
  | .jump => ofConditioned r AddressingMode.jumpTarget? .jump
  | .increment => ofUnary r AddressingMode.stepTarget? .increment
  | .decrement => ofUnary r AddressingMode.stepTarget? .decrement
  | .add carry => ofAdd r carry
  | .subtract carry => ofAccumulate r (.subtract carry)
  | .logic op => ofAccumulate r (.logic op)
  | .push => ofUnary r AddressingMode.pairOf? .push
  | .pop => ofUnary r AddressingMode.pairOf? .pop
  | .restart => ofRestart r
  | .extension => return .extension
  | .nullary => return .primitive (Text.lower r.mnemonic)

end Checked
end OpcodeDispatch
