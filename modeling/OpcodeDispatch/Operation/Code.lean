import OpcodeDispatch.Operation.Basic
import OpcodeDispatch.Text.Numeral

/-!
The code of an operation: the statements of its arm, in terms of the interpreter's registers,
memory, instruction stream and primitives. A conditional branch has no statement: its primitive
is a call that reports the extra cost of the branch taken.
-/

namespace OpcodeDispatch

structure Code where
  statements : List String
  branch : Option String
  deriving DecidableEq

namespace Code

def statement (s : String) : Code := ⟨[s], none⟩

/-- A call of a branch primitive, `arguments` before the condition. -/
def branching (primitive arguments : String) : Option Condition → Code
  | none => statement (primitive ++ "(" ++ arguments ++ "None);")
  | some cc =>
    ⟨[], some (primitive ++ "(" ++ arguments ++ "Some(Condition::" ++ cc.name ++ "))")⟩

def fetchByte : String := "self.fetch_ins_byte()"

def fetchWord : String := "self.fetch_ins_word()"

def readRegister (accessor : String) : String := "self.regs." ++ accessor ++ "()"

def registerIndex (r : Register) : String := "RegIndex::" ++ r.name

/-- The selector and the address of a place outside memory. -/
def registerPlace (r : Register) : String := "Some(" ++ registerIndex r ++ "), 0"

/-- The selector and the address of a place in memory. -/
def memoryPlace (address : String) : String := "None, " ++ address

/-- The address as a word, over the base of high memory. -/
def address (base : UInt16) : Address → String
  | .pair p | .increment p | .decrement p => readRegister p.accessor
  | .absolute => fetchWord
  | .highByte => fetchByte ++ " as u16 + " ++ Numeral.hex 4 base.toNat
  | .highRegister => readRegister "c" ++ " as u16 + " ++ Numeral.hex 4 base.toNat

/-- What is left to do once an address has been used. -/
def adjustment : Address → List String
  | .increment p => ["self.regs.set_" ++ p.accessor ++ "(" ++ readRegister p.accessor ++ ".wrapping_add(1));"]
  | .decrement p => ["self.regs.set_" ++ p.accessor ++ "(" ++ readRegister p.accessor ++ ".wrapping_sub(1));"]
  | _ => []

def byteValue (base : UInt16) : ByteSource → String
  | .register r => readRegister (Register.byte r).accessor
  | .immediate => fetchByte
  | .memory a => "self.mmu.read_byte(" ++ address base a ++ ")"

def bytePlace (base : UInt16) : ByteTarget → String
  | .register r => registerPlace (.byte r)
  | .memory a => memoryPlace (address base a)

def wordPlace : WordTarget → String
  | .pair p => registerPlace (.pair p)
  | .absolute => memoryPlace fetchWord

def stepPlace : StepTarget → String
  | .register r => registerPlace r
  | .memory p => memoryPlace (readRegister p.accessor)

def loadAdjustments (target : ByteTarget) (source : ByteSource) : List String :=
  (match source with | .memory a => adjustment a | _ => []) ++
    (match target with | .memory a => adjustment a | _ => [])

/-- The stack pointer and a signed byte: two flags cleared, two from the sum of the low bytes. -/
def stackOffsetLoad (place : String) : List String :=
  ["let sp = self.regs.sp();",
   "let offset = self.fetch_ins_byte();",
   "self.regs.set_zflag(false);",
   "self.regs.set_sflag(false);",
   "self.regs.set_hflag((sp & 0x000f) + (offset as u16 & 0x000f) > 0x000f);",
   "self.regs.set_cflag((sp & 0x00ff) + offset as u16 > 0x00ff);",
   "self.ld_word(sp.wrapping_add(offset as i8 as i16 as u16), " ++ place ++ ");"]

def wordLoad (place : String) : WordSource → List String
  | .pair p => ["self.ld_word(" ++ readRegister p.accessor ++ ", " ++ place ++ ");"]
  | .immediate => ["self.ld_word(" ++ fetchWord ++ ", " ++ place ++ ");"]
  | .stackOffset => stackOffsetLoad place

def carryFlag (carry : Bool) : String := if carry then "true" else "false"

def logicPrimitive : Logic → String
  | .and => "and"
  | .or => "or"
  | .xor => "xor"
  | .compare => "cp"

def jumpValue : JumpTarget → String
  | .immediate => fetchWord
  | .hl => readRegister "hl"

end Code

open Code in
def Operation.code (base : UInt16) : Operation → Code
  | .loadByte t s =>
    ⟨("self.ld_byte(" ++ byteValue base s ++ ", " ++ bytePlace base t ++ ");") :: loadAdjustments t s, none⟩
  | .loadWord t s => ⟨wordLoad (wordPlace t) s, none⟩
  | .relativeJump cc => branching "self.jr" "" cc
  | .ret cc => branching "self.ret" "" cc
  | .call cc => branching "self.call" "" cc
  | .jump t cc => branching "self.jump" (jumpValue t ++ ", ") cc
  | .increment t => statement ("self.inc(" ++ stepPlace t ++ ");")
  | .decrement t => statement ("self.dec(" ++ stepPlace t ++ ");")
  | .addByte carry s =>
    statement ("self.add_byte(" ++ byteValue base s ++ ", " ++ carryFlag carry ++ ");")
  | .addPair p => statement ("self.add_word(" ++ readRegister p.accessor ++ ", RegIndex::HL);")
  | .addOffset => statement "self.add_word(self.fetch_ins_byte() as i8 as i16 as u16, RegIndex::SP);"
  | .subtract carry s =>
    statement ("self.sub_byte(" ++ byteValue base s ++ ", " ++ carryFlag carry ++ ");")
  | .logic op s => statement ("self." ++ logicPrimitive op ++ "(" ++ byteValue base s ++ ");")
  | .push p => statement ("self.push(" ++ readRegister p.accessor ++ ");")
  | .pop p => statement ("self.pop(" ++ registerIndex (.pair p) ++ ");")
  | .restart target => statement ("self.rst(" ++ Numeral.hex 4 target.toNat ++ ");")
  | .extension => statement "self.decode_cb();"
  | .primitive name => statement ("self." ++ name ++ "();")

end OpcodeDispatch
