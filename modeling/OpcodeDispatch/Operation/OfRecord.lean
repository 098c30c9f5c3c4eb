import OpcodeDispatch.Operation.Basic
import OpcodeDispatch.Table.Record

/-!
The operation of a record: its family and the operands that the family takes. Operands are judged
from left to right, except that a load of a byte judges its source first.
-/

namespace OpcodeDispatch

namespace Record

def unsupported (r : Record) (operand : String) : Fault :=
  .unsupportedOperand r.opcode r.instruction operand

/-- What an operand names, if it names anything. -/
def require (r : Record) (operand : String) (o : Option α) : Except Fault α :=
  match o with
  | some a => .ok a
  | none => .error (r.unsupported operand)

def mode (r : Record) (operand : String) : Except Fault AddressingMode :=
  r.require operand (AddressingMode.parse? operand)

/-- The operand as a kind of place or value, where `as?` says which modes are of the kind. -/
def operandAs (r : Record) (as? : AddressingMode → Option α) (operand : String) : Except Fault α := do
  r.require operand (as? (← r.mode operand))

def condition (r : Record) (operand : String) : Except Fault Condition :=
  r.require operand (Condition.ofName? operand)

/-- The fault of an operand list that is too short, or longer than `most`. -/
def arityFault (r : Record) (most : Nat) : Fault :=
  match r.operandList.drop most with
  | [] => .missingOperand r.opcode r.instruction
  | surplus => r.unsupported (",".intercalate surplus)

end Record

namespace Operation

def ofLoad (r : Record) : Except Fault Operation :=
  match r.operandList with
  | [dst, src] => do
    let target ← r.mode dst
    let source ← r.mode src
    if target.isPair || source.isWordOnly then
      let t ← r.require dst target.wordTarget?
      let s ← r.require src source.wordSource?
      return .loadWord t s
    else
      let s ← r.require src source.byteSource?
      let t ← r.require dst target.byteTarget?
      return .loadByte t s
  | _ => .error (r.arityFault 2)

/-- An operation with one operand, before which a condition may stand. -/
def ofConditioned (r : Record) (as? : AddressingMode → Option α)
    (make : α → Option Condition → Operation) : Except Fault Operation :=
  match r.operandList with
  | [operand] => do return make (← r.operandAs as? operand) none
  | [cc, operand] => do
    let cc ← r.condition cc
    return make (← r.operandAs as? operand) (some cc)
  | _ => .error (r.arityFault 2)

def ofRelativeJump (r : Record) : Except Fault Operation :=
  ofConditioned r (fun m => if m = .relativeByte then some () else none) fun _ cc => .relativeJump cc

def ofCall (r : Record) : Except Fault Operation :=
  ofConditioned r (fun m => if m = .immediateWord then some () else none) fun _ cc => .call cc

def ofJump (r : Record) : Except Fault Operation := ofConditioned r AddressingMode.jumpTarget? .jump

def ofRet (r : Record) : Except Fault Operation :=
  match r.operandList with
  | [] => .ok (.ret none)
  | [cc] => do return .ret (some (← r.condition cc))
  | _ => .error (r.arityFault 1)

/-- An operation with exactly one operand. -/
def ofUnary (r : Record) (as? : AddressingMode → Option α) (make : α → Operation) :
    Except Fault Operation :=
  match r.operandList with
  | [operand] => do return make (← r.operandAs as? operand)
  | _ => .error (r.arityFault 1)

def ofAdd (r : Record) (carry : Bool) : Except Fault Operation :=
  match r.operandList with
  | [src] => do return .addByte carry (← r.operandAs AddressingMode.byteSource? src)
  | [dst, src] => do
    match ← r.mode dst, carry with
    | .register (.byte .a), _ => return .addByte carry (← r.operandAs AddressingMode.byteSource? src)
    | .register (.pair .hl), false => return .addPair (← r.operandAs AddressingMode.pairOf? src)
    | .register (.pair .sp), false =>
      r.operandAs (fun m => if m = .relativeByte then some .addOffset else none) src
    | _, _ => .error (r.unsupported dst)
  | _ => .error (r.arityFault 2)

/-- An operation on the accumulator, which may be written as the first operand. -/
def ofAccumulate (r : Record) (make : ByteSource → Operation) : Except Fault Operation :=
  match r.operandList with
  | [src] => do return make (← r.operandAs AddressingMode.byteSource? src)
  | [dst, src] =>
    if dst = "A" then do return make (← r.operandAs AddressingMode.byteSource? src)
    else .error (r.unsupported dst)
  | _ => .error (r.arityFault 2)

/-- A restart address: two hexadecimal digits, or a plus sign and one, and perhaps an `H`. -/
def restartTarget? (token : String) : Option UInt8 :=
  let digits := match token.toList.reverse with
    | 'H' :: r | 'h' :: r => r.reverse
    | _ => token.toList
  match digits with
  | ['+', d] => (Numeral.hexValue? d).map UInt8.ofNat
  | [d, e] => (Numeral.hexNumber? [d, e]).map UInt8.ofNat
  | _ => none

def ofRestart (r : Record) : Except Fault Operation :=
  match r.operandList with
  | [token] =>
    match restartTarget? token with
    | some target => .ok (.restart target)
    | none => .error (.badRestart r.opcode token)
  | _ => .error (r.arityFault 1)

def ofRecord (r : Record) : Except Fault Operation :=
  match Family.ofMnemonic r.mnemonic with
  | .load => ofLoad r
  | .relativeJump => ofRelativeJump r
  | .ret => ofRet r
  | .call => ofCall r
  | .jump => ofJump r
  | .increment => ofUnary r AddressingMode.stepTarget? .increment
  | .decrement => ofUnary r AddressingMode.stepTarget? .decrement
  | .add carry => ofAdd r carry
  | .subtract carry => ofAccumulate r (.subtract carry)
  | .logic op => ofAccumulate r (.logic op)
  | .push => ofUnary r AddressingMode.pairOf? .push
  | .pop => ofUnary r AddressingMode.pairOf? .pop
  | .restart => ofRestart r
  | .extension => .ok .extension
  | .nullary => .ok (.primitive (Text.lower r.mnemonic))

end Operation
end OpcodeDispatch
