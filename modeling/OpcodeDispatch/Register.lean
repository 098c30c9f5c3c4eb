import OpcodeDispatch.Text.Case

/-!
The register file of the SM83: seven byte registers and five pairs, and the four conditions a
branch can name.
-/

namespace OpcodeDispatch

inductive ByteRegister where
  | a | b | c | d | e | h | l
  deriving DecidableEq

inductive RegisterPair where
  | af | bc | de | hl | sp
  deriving DecidableEq

inductive Register where
  | byte (r : ByteRegister)
  | pair (p : RegisterPair)
  deriving DecidableEq

inductive Condition where
  | notZero | zero | notCarry | carry
  deriving DecidableEq

def ByteRegister.all : List ByteRegister := [.a, .b, .c, .d, .e, .h, .l]

def ByteRegister.name : ByteRegister → String
  | .a => "A"
  | .b => "B"
  | .c => "C"
  | .d => "D"
  | .e => "E"
  | .h => "H"
  | .l => "L"

def RegisterPair.all : List RegisterPair := [.af, .bc, .de, .hl, .sp]

def RegisterPair.name : RegisterPair → String
  | .af => "AF"
  | .bc => "BC"
  | .de => "DE"
  | .hl => "HL"
  | .sp => "SP"

/-- The pair's method on the register file. -/
def RegisterPair.accessor (p : RegisterPair) : String := Text.lower p.name

namespace Register

def all : List Register := ByteRegister.all.map byte ++ RegisterPair.all.map pair

def name : Register → String
  | byte r => r.name
  | pair p => p.name

/-- The register's method on the register file. -/
def accessor (r : Register) : String := Text.lower r.name

def isPair : Register → Bool
  | byte _ => false
  | pair _ => true

def ofName? (s : String) : Option Register := all.find? (·.name == s)

theorem mem_all (r : Register) : r ∈ all := by
  rcases r with r | r <;> cases r <;> decide

theorem ofName?_name (r : Register) : ofName? r.name = some r := by
  rcases r with r | r <;> cases r <;> decide

theorem ofName?_eq_some {s : String} {r : Register} : ofName? s = some r ↔ s = r.name := by
  refine ⟨fun h => ?_, fun h => h ▸ ofName?_name r⟩
  unfold ofName? at h
  have hn := List.find?_some h
  exact (eq_of_beq hn).symm

end Register

namespace Condition

def all : List Condition := [notZero, zero, notCarry, carry]

def name : Condition → String
  | notZero => "NZ"
  | zero => "Z"
  | notCarry => "NC"
  | carry => "C"

def ofName? (s : String) : Option Condition := all.find? (·.name == s)

theorem ofName?_name (c : Condition) : ofName? c.name = some c := by cases c <;> decide

theorem ofName?_eq_some {s : String} {c : Condition} : ofName? s = some c ↔ s = c.name := by
  refine ⟨fun h => ?_, fun h => h ▸ ofName?_name c⟩
  unfold ofName? at h
  have hn := List.find?_some h
  exact (eq_of_beq hn).symm

end Condition
end OpcodeDispatch
