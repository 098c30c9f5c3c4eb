import OpcodeDispatch.Listing.Tally
import OpcodeDispatch.Text.Column

/-!
Listings and tallies as text in columns.
-/

namespace OpcodeDispatch

namespace AddressingMode

/-- A mode in the words of a listing. -/
def describe : AddressingMode → String
  | register r => "Register(" ++ r.name ++ ")"
  | immediateByte => "ImmediateByte"
  | immediateWord => "ImmediateWord"
  | relativeByte => "RelativeByte"
  | stackOffset => "StackOffset"
  | indirect (.pair p) => "PairIndirect(" ++ p.name ++ ")"
  | indirect (.increment p) => "AutoIncrement(" ++ p.name ++ ")"
  | indirect (.decrement p) => "AutoDecrement(" ++ p.name ++ ")"
  | indirect .absolute => "AbsoluteIndirect"
  | indirect .highByte => "HighMemoryOffset"
  | indirect .highRegister => "OffsetByRegister(C)"

end AddressingMode

def ListedOperand.describe (o : ListedOperand) : String :=
  match o.mode with
  | some m => m.describe
  | none => o.text

namespace ListedOpcode

/-- Instruction, cycles and operands in columns; an opcode without an instruction costs one cycle. -/
def columns (e : ListedOpcode) : String :=
  match e.instruction with
  | none => Text.padRight 14 "<reserved>" ++ " " ++ Text.padRight 6 "1"
  | some instruction =>
    Text.padRight 14 instruction ++ " " ++ Text.padRight 6 (e.cycles.elim "" CycleCost.render) ++ " " ++
      ", ".intercalate (e.operands.map ListedOperand.describe)

/-- The line of an opcode, and a second line with its arm if `arms` is set. -/
def renderLines (arms : Bool) (e : ListedOpcode) : String :=
  e.opcode.render ++ "  " ++ e.columns ++ (if arms then "\n      " ++ e.arm else "") ++ "\n"

end ListedOpcode

def Listing.render (arms : Bool) (listing : List ListedOpcode) : String :=
  String.join (listing.map (ListedOpcode.renderLines arms))

namespace Tally

def row (family count conditional cycles : String) : String :=
  Text.padRight 20 family ++ " " ++ Text.padLeft 5 count ++ " " ++ Text.padLeft 5 conditional ++ " " ++
    Text.padLeft 7 cycles ++ "\n"

def render (t : Tally) : String :=
  row "family" "count" "cond" "cycles" ++
  String.join (t.families.map fun f =>
    row f.family (Numeral.decimal f.count) (Numeral.decimal f.conditional)
      (Numeral.decimal f.cycles.toNat)) ++
  Numeral.decimal t.opcodes ++ " opcodes, " ++ Numeral.decimal t.reserved ++ " reserved\n"

end Tally
end OpcodeDispatch
