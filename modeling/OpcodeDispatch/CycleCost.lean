import OpcodeDispatch.Text.Blank
import OpcodeDispatch.Text.Numeral

/-!
What an instruction costs: one number of cycles, or two when the cost hangs on whether a branch
is taken. Tokens are `16` and `12/8`, taken first.
-/

namespace OpcodeDispatch

inductive CycleCost where
  | fixed (cycles : UInt32)
  | conditional (taken notTaken : UInt32)
  deriving DecidableEq

namespace CycleCost

/-- A count of cycles: decimal digits of a number below `2 ^ 32`. -/
def count? (s : String) : Option UInt32 := do
  let n ← Numeral.natural? s
  if n < UInt32.size then some (UInt32.ofNat n) else none

def parse? (token : String) : Option CycleCost :=
  match Text.pieces '/' token with
  | [n] => (count? n).map fixed
  | [t, n] => do return conditional (← count? t) (← count? n)
  | _ => none

def render : CycleCost → String
  | fixed n => Numeral.decimal n.toNat
  | conditional t n => Numeral.decimal t.toNat ++ "/" ++ Numeral.decimal n.toNat

/-- Every component divided, rounding down. -/
def scaleDown (c : CycleCost) (divisor : UInt32) : CycleCost :=
  match c with
  | fixed n => fixed (n / divisor)
  | conditional t n => conditional (t / divisor) (n / divisor)

/-- Division by zero has no answer. -/
def scaleDown? (c : CycleCost) (divisor : UInt32) : Option CycleCost :=
  if divisor = 0 then none else some (c.scaleDown divisor)

def isConditional : CycleCost → Bool
  | fixed _ => false
  | conditional _ _ => true

/-- The cost when no branch is taken. -/
def base : CycleCost → UInt32
  | fixed n => n
  | conditional _ n => n

theorem base_scaleDown (c : CycleCost) (d : UInt32) : (c.scaleDown d).base = c.base / d := by
  cases c <;> rfl

end CycleCost
end OpcodeDispatch
