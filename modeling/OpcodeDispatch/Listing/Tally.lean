import OpcodeDispatch.Listing.Basic

/-!
The tally of a listing: for each family that occurs, how many opcodes it has, how many of them have
two costs, and the sum of their costs without a branch. Opcodes are counted one after the other, each
under the name of its family. The sums are in 32 bits, and one that does not fit has no tally.
-/

namespace OpcodeDispatch

structure FamilyTally where
  /-- the family's name -/
  family : String
  count : Nat
  conditional : Nat
  cycles : UInt32
  deriving DecidableEq

namespace FamilyTally

/-- A family of which nothing is counted yet. -/
def start (family : String) : FamilyTally := ⟨family, 0, 0, 0⟩

/-- The sum of two numbers, if it fits in 32 bits. -/
def sum? (m n : UInt32) : Option UInt32 :=
  if m.toNat + n.toNat < UInt32.size then some (m + n) else none

/-- Counts one more opcode, and its cost if it has one. -/
def add? (t : FamilyTally) : Option CycleCost → Option FamilyTally
  | none => some { t with count := t.count + 1 }
  | some cost =>
    (sum? t.cycles cost.base).map fun cycles =>
      ⟨t.family, t.count + 1, t.conditional + cost.isConditional.toNat, cycles⟩

/-- What is counted of a family so far. -/
def counted (family : String) (ts : List FamilyTally) : FamilyTally :=
  (ts.find? (·.family = family)).getD (start family)

/-- Puts a tally in its place among the others, or in the place of the one of its family. -/
def put (t : FamilyTally) : List FamilyTally → List FamilyTally
  | [] => [t]
  | u :: us =>
    if t.family < u.family then t :: u :: us
    else if t.family = u.family then t :: us
    else u :: put t us

/-- Enters an opcode under its family. -/
def enter? (family : String) (cost : Option CycleCost) (ts : List FamilyTally) : Option (List FamilyTally) :=
  ((counted family ts).add? cost).map (put · ts)

example : enter? "call" (some (.conditional 6 3)) [⟨"add", 1, 0, 2⟩, ⟨"jump", 2, 1, 7⟩] =
    some [⟨"add", 1, 0, 2⟩, ⟨"call", 1, 1, 3⟩, ⟨"jump", 2, 1, 7⟩] := by
  decide

end FamilyTally

structure Tally where
  opcodes : Nat
  reserved : Nat
  /-- in the order of their names -/
  families : List FamilyTally
  deriving DecidableEq

namespace Tally

def empty : Tally := ⟨0, 0, []⟩

/-- An opcode without a family counts as reserved. -/
def add? (t : Tally) (e : ListedOpcode) : Option Tally :=
  match e.family with
  | none => some ⟨t.opcodes + 1, t.reserved + 1, t.families⟩
  | some f =>
    (FamilyTally.enter? f.name e.cycles t.families).map fun families => ⟨t.opcodes + 1, t.reserved, families⟩

def ofListing? (listing : List ListedOpcode) : Option Tally := listing.foldlM add? empty

end Tally
end OpcodeDispatch
