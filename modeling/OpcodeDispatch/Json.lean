import OpcodeDispatch.Text.Numeral

/-!
JSON trees. Numbers and strings are kept as they are written: a string holds the characters between
its quotes, so that a string nobody reads needs only well-formed escapes, and `decode?` is what
refuses half of a surrogate pair.
-/

namespace OpcodeDispatch

inductive Json where
  | null
  | bool (b : Bool)
  | number (literal : String)
  | string (literal : String)
  | array (items : List Json)
  | object (members : List (String × Json))

namespace Json

/-- The letter after the backslash of a short escape, and the character it stands for. -/
def shortEscapes : List (Char × Char) :=
  [('"', '"'), ('\\', '\\'), ('/', '/'), ('b', '\x08'), ('f', '\x0c'), ('n', '\n'), ('r', '\r'),
   ('t', '\t')]

def ofShort? (letter : Char) : Option Char := (shortEscapes.find? (·.1 == letter)).map (·.2)

def escapeChar (c : Char) : List Char :=
  if c = '/' then [c]
  else match shortEscapes.find? (·.2 == c) with
    | some e => ['\\', e.1]
    | none => if c < ' ' then ['\\', 'u'] ++ Numeral.hexDigits 4 c.toNat else [c]

def isHigh (unit : Nat) : Bool := 0xD800 ≤ unit && unit < 0xDC00

def isLow (unit : Nat) : Bool := 0xDC00 ≤ unit && unit < 0xE000

/-- The character of a surrogate pair. -/
def joinUnits (high low : Nat) : Char :=
  Char.ofNat (0x10000 + (high - 0xD800) * 0x400 + (low - 0xDC00))

/-- The characters of a literal; `pending` is a high surrogate that waits for its low one. -/
def decodeFrom : (pending : Option Nat) → List Char → Option (List Char)
  | none, [] => some []
  | some _, [] => none
  | pending, '\\' :: 'u' :: a :: b :: c :: d :: r => do
    let unit ← Numeral.hexNumber? [a, b, c, d]
    match pending with
    | some high => if isLow unit then return joinUnits high unit :: (← decodeFrom none r) else none
    | none =>
      if isHigh unit then decodeFrom (some unit) r
      else if isLow unit then none
      else return Char.ofNat unit :: (← decodeFrom none r)
  | none, '\\' :: c :: r => do return (← ofShort? c) :: (← decodeFrom none r)
  | none, c :: r => (decodeFrom none r).map (c :: ·)
  | some _, _ :: _ => none

def decode? (literal : String) : Option String :=
  (decodeFrom none literal.toList).map String.ofList

def encode (s : String) : String := String.ofList (s.toList.flatMap escapeChar)

def ofString (s : String) : Json := string (encode s)

def ofNat (n : Nat) : Json := number (Numeral.decimal n)

def ofOption (f : α → Json) : Option α → Json
  | none => null
  | some a => f a

/-- The value of a number written as an unsigned integer, without sign, point or exponent. -/
def nat? : Json → Option Nat
  | number literal => Numeral.natural? literal
  | _ => none

/-- The text of a string whose escapes name characters. -/
def text? : Json → Option String
  | string literal => decode? literal
  | _ => none

theorem nat?_ofNat (n : Nat) : (ofNat n).nat? = some n := Numeral.natural?_decimal n

example : encode "a\"\n" = "a\\\"\\n" := by decide

example : decode? "\\ud83d\\ude00" = some "😀" := by decide

end Json
end OpcodeDispatch
