import OpcodeDispatch.AddressingMode
import OpcodeDispatch.Family

/-!
Operations: the instructions that can be compiled, each with just the operands it can have.
-/

namespace OpcodeDispatch

inductive ByteSource where
  | register (r : ByteRegister)
  | immediate
  | memory (a : Address)
  deriving DecidableEq

inductive ByteTarget where
  | register (r : ByteRegister)
  | memory (a : Address)
  deriving DecidableEq

inductive WordSource where
  | pair (p : RegisterPair)
  | immediate
  /-- the stack pointer and a signed byte of the instruction -/
  | stackOffset
  deriving DecidableEq

inductive WordTarget where
  | pair (p : RegisterPair)
  | absolute
  deriving DecidableEq

inductive JumpTarget where
  | immediate
  /-- the value of `HL`, however it is written -/
  | hl
  deriving DecidableEq

inductive StepTarget where
  | register (r : Register)
  | memory (p : RegisterPair)
  deriving DecidableEq

inductive Operation where
  | loadByte (target : ByteTarget) (source : ByteSource)
  | loadWord (target : WordTarget) (source : WordSource)
  | relativeJump (condition : Option Condition)
  | ret (condition : Option Condition)
  | call (condition : Option Condition)
  | jump (target : JumpTarget) (condition : Option Condition)
  | increment (target : StepTarget)
  | decrement (target : StepTarget)
  | addByte (carry : Bool) (source : ByteSource)
  /-- adds a pair to `HL` -/
  | addPair (source : RegisterPair)
  /-- adds a signed byte to `SP` -/
  | addOffset
  | subtract (carry : Bool) (source : ByteSource)
  | logic (op : Logic) (source : ByteSource)
  | push (p : RegisterPair)
  | pop (p : RegisterPair)
  | restart (target : UInt8)
  | extension
  | primitive (name : String)
  deriving DecidableEq

namespace AddressingMode

def byteSource? : AddressingMode → Option ByteSource
  | register (.byte r) => some (.register r)
  | immediateByte => some .immediate
  | indirect a => some (.memory a)
  | _ => none

def byteTarget? : AddressingMode → Option ByteTarget
  | register (.byte r) => some (.register r)
  | indirect a => some (.memory a)
  | _ => none

def wordSource? : AddressingMode → Option WordSource
  | register (.pair p) => some (.pair p)
  | immediateWord => some .immediate
  | stackOffset => some .stackOffset
  | _ => none

def wordTarget? : AddressingMode → Option WordTarget
  | register (.pair p) => some (.pair p)
  | indirect .absolute => some .absolute
  | _ => none

def jumpTarget? : AddressingMode → Option JumpTarget
  | immediateWord => some .immediate
  | register (.pair .hl) | indirect (.pair .hl) => some .hl
  | _ => none

def stepTarget? : AddressingMode → Option StepTarget
  | register r => some (.register r)
  | indirect (.pair p) => some (.memory p)
  | _ => none

def pairOf? : AddressingMode → Option RegisterPair
  | register (.pair p) => some p
  | _ => none

/-- Whether a load with this operand moves a word whatever the other operand is. -/
def isWordOnly : AddressingMode → Bool
  | register (.pair _) | stackOffset => true
  | _ => false

end AddressingMode
end OpcodeDispatch
