/-!
Numerals: decimal and fixed-width hexadecimal, written and read. A decimal is read from ASCII
digits alone, with any number of leading zeros.
-/

namespace OpcodeDispatch
namespace Numeral

/-- The shortest decimal. -/
def decimal (n : Nat) : String := String.ofList (Nat.toDigits 10 n)

def natural? (s : String) : Option Nat :=
  if s.toList ≠ [] ∧ s.toList.all Char.isDigit then some (Nat.ofDigitChars 10 s.toList 0) else none

/-- The last `width` hexadecimal digits of a number, in lower case. -/
def hexDigits : (width n : Nat) → List Char
  | 0, _ => []
  | w + 1, n => hexDigits w (n / 16) ++ [(n % 16).digitChar]

/-- The literal of a number below `16 ^ width`: `0x` and exactly `width` digits. -/
def hex (width n : Nat) : String := "0x" ++ String.ofList (hexDigits width n)

def hexValue? (c : Char) : Option Nat :=
  if c.isDigit then some (c.toNat - '0'.toNat)
  else if 'a' ≤ c ∧ c ≤ 'f' then some (c.toNat - 'a'.toNat + 10)
  else if 'A' ≤ c ∧ c ≤ 'F' then some (c.toNat - 'A'.toNat + 10)
  else none

/-- The value of a run of hexadecimal digits; the empty run is zero. -/
def hexNumber? (cs : List Char) : Option Nat :=
  cs.foldlM (fun n c => (hexValue? c).map (16 * n + ·)) 0

theorem natural?_decimal (n : Nat) : natural? (decimal n) = some n := by
  have hne : Nat.toDigits 10 n ≠ [] := Nat.toDigits_ne_nil
  have hd : (Nat.toDigits 10 n).all Char.isDigit :=
    List.all_eq_true.2 fun c hc => Nat.isDigit_of_mem_toDigits (by decide) (by decide) hc
  simp [natural?, decimal, hne, hd, Nat.ofDigitChars_toDigits]

example : hex 2 0x0a = "0x0a" := by decide

end Numeral
end OpcodeDispatch
