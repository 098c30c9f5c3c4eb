import OpcodeDispatch.Text.Numeral
import OpcodeDispatch.Text.Unprintable

/-!
Quoted text: a string literal of the generated code and of the messages. `quote` writes one,
`unescape?` reads what stands between its quotes.
-/

namespace OpcodeDispatch
namespace Quoted

/-- The letter that stands for a character after a backslash. -/
def letter? (c : Char) : Option Char :=
  if c = '\x00' then some '0'
  else if c = '\t' then some 't'
  else if c = '\r' then some 'r'
  else if c = '\n' then some 'n'
  else if c = '\\' then some '\\'
  else if c = '"' then some '"'
  else none

/-- The inverse of `letter?`. A literal may also escape an apostrophe, which `quote` never does. -/
def ofLetter? (c : Char) : Option Char :=
  if c = '0' then some '\x00'
  else if c = 't' then some '\t'
  else if c = 'r' then some '\r'
  else if c = 'n' then some '\n'
  else if c = '\\' ∨ c = '"' ∨ c = '\'' then some c
  else none

def escapeChar (c : Char) : List Char :=
  match letter? c with
  | some l => ['\\', l]
  | none =>
    if Text.isUnprintable c then ['\\', 'u', '\x7b'] ++ Nat.toDigits 16 c.toNat ++ ['\x7d'] else [c]

def escape (cs : List Char) : List Char := cs.flatMap escapeChar

def quote (s : String) : String := String.ofList ('"' :: escape s.toList ++ ['"'])

/-- The character with the given hexadecimal code point, one to six digits. -/
def ofHex? (ds : List Char) : Option Char := do
  guard (ds ≠ [] ∧ ds.length ≤ 6)
  let n ← Numeral.hexNumber? ds
  if n.isValidChar then some (Char.ofNat n) else none

/-- Reads escaped text; `pending` holds the digits of a numbered escape that is still open.
A quote that stands alone, an unknown escape and an unfinished one are refused. -/
def unescapeFrom : (pending : Option (List Char)) → List Char → Option (List Char)
  | none, [] => some []
  | none, '\\' :: 'u' :: '\x7b' :: r => unescapeFrom (some []) r
  | none, '\\' :: c :: r => do return (← ofLetter? c) :: (← unescapeFrom none r)
  | none, c :: r => if c = '"' ∨ c = '\\' then none else (unescapeFrom none r).map (c :: ·)
  | some _, [] => none
  | some ds, c :: r =>
    if c = '\x7d' then do return (← ofHex? ds) :: (← unescapeFrom none r)
    else unescapeFrom (some (ds ++ [c])) r

def unescape? (cs : List Char) : Option (List Char) := unescapeFrom none cs

theorem ofLetter?_of_letter? {c l : Char} (h : letter? c = some l) : ofLetter? l = some c := by
  simp only [letter?] at h
  split at h <;> try split at h <;> try split at h <;> try split at h <;> try split at h <;> try split at h
  all_goals first | (cases h; subst_vars; decide) | cases h

example : quote "a\tb" = "\"a\\tb\"" := by decide

end Quoted
end OpcodeDispatch
