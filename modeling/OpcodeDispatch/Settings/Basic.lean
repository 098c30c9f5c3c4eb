import OpcodeDispatch.Fault
import OpcodeDispatch.OpcodeSet

/-!
The settings of a run: how cycles are counted and written, where high memory begins, which opcodes
are reserved, and what a fault in a record does.
-/

namespace OpcodeDispatch

inductive Strictness where
  /-- the first fault ends the run -/
  | strict
  /-- a recoverable fault becomes a diagnostic, and a table may be short or long -/
  | lenient
  deriving DecidableEq

inductive CostStyle where
  /-- both costs of a conditional instruction -/
  | pair
  /-- the cost without the branch, whose extra cost the branch's call reports -/
  | notTaken
  deriving DecidableEq

structure Settings where
  /-- clock ticks in a machine cycle -/
  ticksPerCycle : UInt32 := 4
  highMemoryBase : UInt16 := 0xff00
  reserved : List Opcode := OpcodeSet.unassigned
  strictness : Strictness := .strict
  costStyle : CostStyle := .pair
  deriving DecidableEq

namespace Settings

def default : Settings := {}

def reservedSet (s : Settings) : OpcodeSet := OpcodeSet.ofList s.reserved

def isLenient (s : Settings) : Bool := s.strictness == .lenient

def validate (s : Settings) : Except Fault Unit :=
  if s.ticksPerCycle = 0 then .error .zeroTicks else .ok ()

/-- What cycle counts are divided by. -/
def divisor (s : Settings) : UInt32 := max s.ticksPerCycle 1

theorem divisor_ne_zero (s : Settings) : s.divisor ≠ 0 := by
  unfold divisor
  intro h
  have h' : (max s.ticksPerCycle 1).toNat = 0 := by rw [h]; rfl
  rw [show max s.ticksPerCycle 1 = if s.ticksPerCycle ≤ 1 then 1 else s.ticksPerCycle from rfl] at h'
  split at h'
  · exact absurd h' (by decide)
  · rename_i hlt
    exact hlt (by simp [UInt32.le_iff_toNat_le, h'])

theorem divisor_eq {s : Settings} (h : s.validate = .ok ()) : s.divisor = s.ticksPerCycle := by
  unfold validate at h
  split at h
  · cases h
  · rename_i hne
    unfold divisor
    rw [show max s.ticksPerCycle 1 = if s.ticksPerCycle ≤ 1 then 1 else s.ticksPerCycle from rfl]
    split
    · rename_i hle
      apply UInt32.toNat_inj.1
      have hpos : s.ticksPerCycle.toNat ≠ 0 := fun h0 => hne (UInt32.toNat_inj.1 h0)
      have hle' := UInt32.le_iff_toNat_le.1 hle
      have h1 : (1 : UInt32).toNat = 1 := rfl
      omega
    · rfl

end Settings
end OpcodeDispatch
