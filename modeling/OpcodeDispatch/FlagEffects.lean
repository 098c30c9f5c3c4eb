import OpcodeDispatch.Text.Blank

/-!
What an instruction does to each flag, from a line of four columns in the order Z N H C. The line is
read column by column into three sets of flags: those reset, those set and those computed.
-/

namespace OpcodeDispatch

inductive Flag where
  | zero | subtract | halfCarry | carry
  deriving DecidableEq

namespace Flag

/-- In the order of the columns. -/
def all : List Flag := [zero, subtract, halfCarry, carry]

def name : Flag → String
  | zero => "Z"
  | subtract => "N"
  | halfCarry => "H"
  | carry => "C"

/-- The number of the flag's bit in the flag register. -/
def index : Flag → Nat
  | zero => 7
  | subtract => 6
  | halfCarry => 5
  | carry => 4

theorem mem_all (f : Flag) : f ∈ all := by
  cases f <;> decide

end Flag

/-- A set of flags, as the byte in which it has their bits. -/
structure Flags where
  bits : BitVec 8
  /-- the low bits of the register are no flags -/
  low : ∀ i < 4, bits.getLsbD i = false
  deriving DecidableEq

namespace Flags

def empty : Flags := ⟨0, by simp⟩

def single (f : Flag) : Flags := ⟨BitVec.twoPow 8 f.index, by cases f <;> decide⟩

def union (s t : Flags) : Flags where
  bits := s.bits ||| t.bits
  low i hi := by rw [BitVec.getLsbD_or, s.low i hi, t.low i hi, Bool.or_false]

def contains (s : Flags) (f : Flag) : Bool := s.bits.getLsbD f.index

instance : Membership Flag Flags := ⟨fun s f => s.contains f = true⟩

instance (f : Flag) (s : Flags) : Decidable (f ∈ s) := inferInstanceAs (Decidable (s.contains f = true))

/-- The names of the members, in the order of the columns. -/
def render (s : Flags) : String := " | ".intercalate ((Flag.all.filter s.contains).map Flag.name)

variable {s t : Flags} {f g : Flag}

theorem mem_iff : f ∈ s ↔ s.bits.getLsbD f.index = true := Iff.rfl

theorem not_mem_empty (f : Flag) : f ∉ empty := by
  simp [mem_iff, empty]

theorem mem_single : f ∈ single g ↔ f = g := by
  cases f <;> cases g <;> decide

theorem mem_union : f ∈ s.union t ↔ f ∈ s ∨ f ∈ t := by
  rw [mem_iff, union, BitVec.getLsbD_or, Bool.or_eq_true, mem_iff, mem_iff]

/-- Each bit that is set is the bit of a flag. -/
theorem exists_mem_of_bit {i : Nat} (h : s.bits.getLsbD i = true) : ∃ f ∈ s, f.index = i := by
  have hi : i < 8 := BitVec.lt_of_getLsbD h
  by_cases hlow : i < 4
  · rw [s.low i hlow] at h
    cases h
  · obtain ⟨f, rfl⟩ : ∃ f : Flag, f.index = i := by
      obtain rfl | rfl | rfl | rfl : i = 4 ∨ i = 5 ∨ i = 6 ∨ i = 7 := by omega
      · exact ⟨.carry, rfl⟩
      · exact ⟨.halfCarry, rfl⟩
      · exact ⟨.subtract, rfl⟩
      · exact ⟨.zero, rfl⟩
    exact ⟨f, h, rfl⟩

@[ext] theorem ext (h : ∀ f, f ∈ s ↔ f ∈ t) : s = t := by
  suffices hbits : s.bits = t.bits by
    cases s
    cases t
    cases hbits
    rfl
  apply BitVec.eq_of_getLsbD_eq
  intro i _
  apply Bool.eq_iff_iff.2
  constructor
  · intro hs
    obtain ⟨f, hf, rfl⟩ := exists_mem_of_bit hs
    exact (h f).1 hf
  · intro ht
    obtain ⟨f, hf, rfl⟩ := exists_mem_of_bit ht
    exact (h f).2 hf

theorem and_eq_zero (h : ∀ f ∈ s, f ∉ t) : s.bits &&& t.bits = 0 := by
  apply BitVec.eq_of_getLsbD_eq
  intro i _
  rw [BitVec.getLsbD_and, show BitVec.getLsbD 0 i = false from BitVec.getLsbD_zero, Bool.eq_false_iff]
  intro hboth
  rw [Bool.and_eq_true] at hboth
  obtain ⟨f, hf, rfl⟩ := exists_mem_of_bit hboth.1
  exact h f hf hboth.2

end Flags

structure FlagEffects where
  reset : Flags
  set : Flags
  /-- those that depend on the operands -/
  computed : Flags
  deriving DecidableEq

namespace FlagEffects

/-- The effects of a line of which no column is read yet. -/
def start : FlagEffects := ⟨.empty, .empty, .empty⟩

/-- One capital letter of ASCII. -/
def isLetter (token : String) : Bool := token.length == 1 && token.toList.all Char.isUpper

/-- Reads the column of a flag: `-` leaves the flag alone, `0` and `1` write it, a letter computes it. -/
def enter? (fx : FlagEffects) (token : String) (f : Flag) : Option FlagEffects :=
  if token = "-" then some fx
  else if token = "0" then some { fx with reset := fx.reset.union (.single f) }
  else if token = "1" then some { fx with set := fx.set.union (.single f) }
  else if isLetter token then some { fx with computed := fx.computed.union (.single f) }
  else none

/-- Reads the columns one after the other, up to the first that is no mark. -/
def enterAll? (fx : FlagEffects) (columns : List (String × Flag)) : Option FlagEffects :=
  columns.foldlM (fun fx column => fx.enter? column.1 column.2) fx

def parse? (line : String) : Option FlagEffects :=
  let tokens := Text.words line
  if tokens.length = 4 then start.enterAll? (tokens.zip Flag.all) else none

/-- The flags that do not keep their value. -/
def affected (fx : FlagEffects) : Flags := (fx.reset.union fx.set).union fx.computed

theorem mem_affected {fx : FlagEffects} {f : Flag} :
    f ∈ fx.affected ↔ f ∈ fx.reset ∨ f ∈ fx.set ∨ f ∈ fx.computed := by
  rw [affected, Flags.mem_union, Flags.mem_union, or_assoc]

end FlagEffects
end OpcodeDispatch
