import OpcodeDispatch.Json

/-!
Reading JSON text. Every reader takes the characters from a point on and returns what it read with
the characters that follow it.
-/

namespace OpcodeDispatch
namespace Json

def isBlank (c : Char) : Bool := c == ' ' || c == '\t' || c == '\n' || c == '\r'

def skipBlanks (cs : List Char) : List Char := cs.dropWhile isBlank

/-- One digit or more. -/
def digits? (cs : List Char) : Option (List Char × List Char) :=
  match cs.takeWhile Char.isDigit with
  | [] => none
  | ds => some (ds, cs.dropWhile Char.isDigit)

/-- The digits before the point; none follows a leading zero. -/
def integer? : List Char → Option (List Char × List Char)
  | '0' :: r => some (['0'], r)
  | cs => digits? cs

def fraction? : List Char → Option (List Char × List Char)
  | '.' :: r => (digits? r).map fun (ds, r) => ('.' :: ds, r)
  | cs => some ([], cs)

def exponent? : List Char → Option (List Char × List Char)
  | c :: r =>
    if c = 'e' ∨ c = 'E' then
      match r with
      | '+' :: r => (digits? r).map fun (ds, r) => (c :: '+' :: ds, r)
      | '-' :: r => (digits? r).map fun (ds, r) => (c :: '-' :: ds, r)
      | r => (digits? r).map fun (ds, r) => (c :: ds, r)
    else some ([], c :: r)
  | [] => some ([], [])

def unsigned? (cs : List Char) : Option (List Char × List Char) := do
  let (whole, r) ← integer? cs
  let (part, r) ← fraction? r
  let (power, r) ← exponent? r
  return (whole ++ part ++ power, r)

def number? : List Char → Option (List Char × List Char)
  | '-' :: r => (unsigned? r).map fun (ds, r) => ('-' :: ds, r)
  | cs => unsigned? cs

/-- The literal of a string whose opening quote has been read. -/
def literal? : List Char → Option (List Char × List Char)
  | [] => none
  | '"' :: r => some ([], r)
  | '\\' :: 'u' :: a :: b :: c :: d :: r =>
    if ([a, b, c, d].all fun x => (Numeral.hexValue? x).isSome) then
      (literal? r).map fun (l, r) => ('\\' :: 'u' :: a :: b :: c :: d :: l, r)
    else none
  | '\\' :: c :: r =>
    if (ofShort? c).isSome then (literal? r).map fun (l, r) => ('\\' :: c :: l, r) else none
  | c :: r => if c < ' ' ∨ c = '\\' then none else (literal? r).map fun (l, r) => (c :: l, r)

mutual

/-- A value and what follows it; `fuel` bounds the nesting and the number of items. -/
def value? (fuel : Nat) (cs : List Char) : Option (Json × List Char) :=
  match fuel with
  | 0 => none
  | fuel + 1 =>
    match skipBlanks cs with
    | 'n' :: 'u' :: 'l' :: 'l' :: r => some (null, r)
    | 't' :: 'r' :: 'u' :: 'e' :: r => some (bool true, r)
    | 'f' :: 'a' :: 'l' :: 's' :: 'e' :: r => some (bool false, r)
    | '"' :: r => (literal? r).map fun (l, r) => (string (String.ofList l), r)
    | '[' :: r =>
      match skipBlanks r with
      | ']' :: r => some (array [], r)
      | r => (items? fuel r).map fun (vs, r) => (array vs, r)
    | '\x7b' :: r =>
      match skipBlanks r with
      | '\x7d' :: r => some (object [], r)
      | r => (members? fuel r).map fun (ms, r) => (object ms, r)
    | r => (number? r).map fun (l, r) => (number (String.ofList l), r)

/-- The items of an array up to its closing bracket, one at least. -/
def items? (fuel : Nat) (cs : List Char) : Option (List Json × List Char) :=
  match fuel with
  | 0 => none
  | fuel + 1 => do
    let (v, r) ← value? fuel cs
    match skipBlanks r with
    | ',' :: r => (items? fuel r).map fun (vs, r) => (v :: vs, r)
    | ']' :: r => some ([v], r)
    | _ => none

/-- The members of an object up to its closing brace, one at least. -/
def members? (fuel : Nat) (cs : List Char) : Option (List (String × Json) × List Char) :=
  match fuel with
  | 0 => none
  | fuel + 1 =>
    match skipBlanks cs with
    | '"' :: r => do
      let (k, r) ← literal? r
      match skipBlanks r with
      | ':' :: r => do
        let (v, r) ← value? fuel r
        let m := (String.ofList k, v)
        match skipBlanks r with
        | ',' :: r => (members? fuel r).map fun (ms, r) => (m :: ms, r)
        | '\x7d' :: r => some ([m], r)
        | _ => none
      | _ => none
    | _ => none

end

/-- The one value that a text holds. Two units of fuel a character are enough: each level of
nesting and each item begins with a character of its own. -/
def parse? (s : String) : Option Json :=
  match value? (2 * s.toList.length + 2) s.toList with
  | some (v, r) => if (skipBlanks r).isEmpty then some v else none
  | none => none

end Json
end OpcodeDispatch
