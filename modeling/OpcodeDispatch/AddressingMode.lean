import OpcodeDispatch.Register
import OpcodeDispatch.Text.Blank

/-!
Operands: what an operand's text names. A text is cut into parentheses, signs and words, and the
few shapes these can take are the addressing modes. `spellings` gives the texts of each mode.
-/

namespace OpcodeDispatch

/-- A place in memory. -/
inductive Address where
  /-- at the pair's value -/
  | pair (p : RegisterPair)
  /-- at the pair's value, which then grows by one -/
  | increment (p : RegisterPair)
  /-- at the pair's value, which then shrinks by one -/
  | decrement (p : RegisterPair)
  /-- at a word of the instruction -/
  | absolute
  /-- at a byte of the instruction, above the high-memory base -/
  | highByte
  /-- at the register `C`, above the high-memory base -/
  | highRegister
  deriving DecidableEq

inductive AddressingMode where
  | register (r : Register)
  | immediateByte
  | immediateWord
  | relativeByte
  | stackOffset
  | indirect (a : Address)
  deriving DecidableEq

namespace AddressingMode

inductive Token where
  | opening | closing | plus | minus
  | word (w : List Char)
  deriving DecidableEq

/-- Puts a character of a word before the tokens that follow it. -/
def Token.extend (c : Char) : List Token → List Token
  | .word w :: ts => .word (c :: w) :: ts
  | ts => .word [c] :: ts

/-- The tokens of a text; words are maximal runs of ASCII letters and digits. -/
def Token.scan? : List Char → Option (List Token)
  | [] => some []
  | c :: cs => do
    let ts ← scan? cs
    if c = '(' then some (.opening :: ts)
    else if c = ')' then some (.closing :: ts)
    else if c = '+' then some (.plus :: ts)
    else if c = '-' then some (.minus :: ts)
    else if c.isAlphanum then some (extend c ts)
    else none

def ofWord? (w : String) : Option AddressingMode :=
  if w = "d8" then some immediateByte
  else if w = "d16" ∨ w = "a16" then some immediateWord
  else if w = "r8" then some relativeByte
  else (Register.ofName? w).map register

def pair? (w : String) : Option RegisterPair :=
  match Register.ofName? w with
  | some (.pair p) => some p
  | _ => none

/-- What a word between parentheses addresses. -/
def addressOf? (w : String) : Option Address :=
  if w = "a16" then some .absolute
  else if w = "a8" then some .highByte
  else if w = "C" then some .highRegister
  else (pair? w).map .pair

def ofTokens? : List Token → Option AddressingMode
  | [.word w] => ofWord? (String.ofList w)
  | [.word sp, .plus, .word offset] =>
    if String.ofList sp = "SP" ∧ String.ofList offset = "r8" then some stackOffset else none
  | [.opening, .word w, .closing] => (addressOf? (String.ofList w)).map indirect
  | [.opening, .word w, .plus, .closing] => (pair? (String.ofList w)).map (indirect ∘ .increment)
  | [.opening, .word w, .minus, .closing] => (pair? (String.ofList w)).map (indirect ∘ .decrement)
  | _ => none

def parse? (text : String) : Option AddressingMode :=
  Token.scan? (Text.trim text).toList >>= ofTokens?

/-- The texts that name a mode. -/
def spellings : AddressingMode → List String
  | register r => [r.name]
  | immediateByte => ["d8"]
  | immediateWord => ["d16", "a16"]
  | relativeByte => ["r8"]
  | stackOffset => ["SP+r8"]
  | indirect (.pair p) => ["(" ++ p.name ++ ")"]
  | indirect (.increment p) => ["(" ++ p.name ++ "+)"]
  | indirect (.decrement p) => ["(" ++ p.name ++ "-)"]
  | indirect .absolute => ["(a16)"]
  | indirect .highByte => ["(a8)"]
  | indirect .highRegister => ["(C)"]

def isIndirect : AddressingMode → Bool
  | indirect _ => true
  | _ => false

def register? : AddressingMode → Option Register
  | register r => some r
  | _ => none

def isPair (m : AddressingMode) : Bool := m.register?.any Register.isPair

theorem parse?_spelling {m : AddressingMode} {s : String} (h : s ∈ m.spellings) : parse? s = some m := by
  revert h s
  suffices h : ∀ s ∈ m.spellings, parse? s = some m from fun {s} h' => h s h'
  rcases m with (r | r) | _ | _ | _ | _ | (p | p | p | _ | _ | _) <;>
    first | decide | (cases r <;> decide) | (cases p <;> decide)

end AddressingMode
end OpcodeDispatch
