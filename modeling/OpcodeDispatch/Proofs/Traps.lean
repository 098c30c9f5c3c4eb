import Mathlib.Data.List.Basic
import OpcodeDispatch.Checked
import OpcodeDispatch.Proofs.CycleTokens

/-!
What is made by checked accesses and divisions. The checks do trap, outside a list and at zero. But no record
traps, whatever its texts and whatever the settings, and no run and no listing does: each gives what it gives
without the checks.
-/

namespace OpcodeDispatch

namespace Checked

variable {α β : Type} {r : Record}

theorem pure_ne_trap (a : α) : (pure a : Checked α) ≠ trap := nofun

theorem ofOption_eq_trap {o : Option α} : ofOption o = trap ↔ o = none := by
  cases o with
  | none => exact iff_of_true rfl rfl
  | some a => exact iff_of_false (pure_ne_trap a) nofun

theorem ofExcept_pure (a : α) : ofExcept (pure a) = pure a := rfl

theorem ofExcept_error (f : Fault) : (ofExcept (.error f) : Checked α) = throw f := rfl

theorem ofExcept_bind (x : Except Fault α) (f : α → Except Fault β) :
    ofExcept (x >>= f) = ofExcept x >>= fun a => ofExcept (f a) := by
  cases x <;> rfl

/-! ### Operands by position -/

section

variable (a b : String) (ops : List String)

theorem operandAt_zero : operandAt (a :: ops) 0 = pure a := rfl

theorem operandAt_one : operandAt (a :: b :: ops) 1 = pure b := rfl

theorem lastOperand_one : lastOperand [a] = pure a := rfl

theorem lastOperand_two : lastOperand [a, b] = pure b := rfl

theorem operandsFrom_one : operandsFrom (a :: ops) 1 = pure ops := rfl

end

/-- A check traps outside the list or at zero, and nowhere else. -/
structure Sharp : Prop where
  access : ∀ (ops : List String) (i : Nat), operandAt ops i = trap ↔ ops.length ≤ i
  last : ∀ ops : List String, lastOperand ops = trap ↔ ops = []
  cut : ∀ (ops : List String) (i : Nat), operandsFrom ops i = trap ↔ ops.length < i
  division : ∀ (c : CycleCost) (d : UInt32), ofOption (c.scaleDown? d) = trap ↔ d = 0

theorem operandAt_eq_trap {ops : List String} {i : Nat} : operandAt ops i = trap ↔ ops.length ≤ i := by
  rw [operandAt, ofOption_eq_trap, List.getElem?_eq_none_iff]

theorem lastOperand_eq_trap {ops : List String} : lastOperand ops = trap ↔ ops = [] := by
  cases ops with
  | nil => exact iff_of_true rfl rfl
  | cons a ops =>
    have haccess : ¬ (a :: ops).length ≤ ops.length := Nat.not_succ_le_self _
    exact iff_of_false (mt operandAt_eq_trap.1 haccess) nofun

theorem sharp : Sharp where
  access _ _ := operandAt_eq_trap
  last _ := lastOperand_eq_trap
  cut ops i := by
    rw [operandsFrom]
    split
    · next h => exact iff_of_false (pure_ne_trap _) (Nat.not_lt_of_le h)
    · next h => exact iff_of_true rfl (Nat.lt_of_not_le h)
  division c d := by
    rw [ofOption_eq_trap, CycleCost.scaleDown?]
    split
    · next h => exact iff_of_true rfl h
    · next h => exact iff_of_false nofun h

section

variable {least most arity : Nat} {ops : List String} {cc : String}

theorem operands_fit (hops : r.operandList = ops) (hleast : least ≤ ops.length) (hmost : ops.length ≤ most) :
    operands r least most = pure ops := by
  rw [operands, hops, if_neg (Nat.not_lt_of_le hleast), if_neg (Nat.not_lt_of_le hmost)]

/-- The surplus is behind `most` operands, so it can be cut off. -/
theorem operands_misfit (h : least ≤ most)
    (hmisfit : r.operandList.length < least ∨ most < r.operandList.length) :
    operands r least most = ofExcept (.error (r.arityFault most)) := by
  rw [operands, Record.arityFault]
  by_cases hleast : r.operandList.length < least
  · rw [if_pos hleast, List.drop_eq_nil_of_le (Nat.le_trans (Nat.le_of_lt hleast) h)]
    rfl
  · have hmost : most < r.operandList.length := hmisfit.resolve_left hleast
    rw [if_neg hleast, if_pos hmost, operandsFrom, if_pos (Nat.le_of_lt hmost)]
    split
    · next hnil => exact absurd (List.drop_eq_nil_iff.1 hnil) (Nat.not_le_of_lt hmost)
    · rfl

theorem length_ne_one (h : ∀ a, ops ≠ [a]) : ops.length ≠ 1 := by
  intro hlength
  obtain ⟨a, hops⟩ := List.length_eq_one_iff.1 hlength
  exact h a hops

theorem length_ne_two (h : ∀ a b, ops ≠ [a, b]) : ops.length ≠ 2 := by
  intro hlength
  obtain ⟨a, b, hops⟩ := List.length_eq_two.1 hlength
  exact h a b hops

theorem operands_neither (hone : ∀ a, r.operandList ≠ [a]) (htwo : ∀ a b, r.operandList ≠ [a, b]) :
    operands r 1 2 = ofExcept (.error (r.arityFault 2)) := by
  have hone := length_ne_one hone
  have htwo := length_ne_two htwo
  exact operands_misfit (by omega) (by omega)

theorem splitCondition_bare (h : ops.length ≤ arity) : splitCondition r ops arity = pure (none, ops) :=
  if_neg (Nat.not_lt_of_le h)

theorem splitCondition_cons (h : arity ≤ ops.length) :
    splitCondition r (cc :: ops) arity = do
      let c ← ofExcept (r.condition cc)
      return (some c, ops) := by
  have hlength : arity < (cc :: ops).length := Nat.lt_succ_of_le h
  rw [splitCondition, if_pos hlength]
  simp only [operandAt_zero, operandsFrom_one, pure_bind]

end

/-! ### Operations -/

section

variable (r : Record)

theorem ofLoad_eq : ofLoad r = ofExcept (Operation.ofLoad r) := by
  unfold ofLoad Operation.ofLoad
  split
  · next dst src hops =>
    rw [operands_fit hops (by simp) (by simp)]
    simp only [pure_bind, operandAt_zero, operandAt_one, ofExcept_bind]
    refine bind_congr fun target => ?_
    refine bind_congr fun source => ?_
    split <;> simp only [ofExcept_bind, ofExcept_pure]
  · next hother =>
    have htwo := length_ne_two hother
    rw [operands_misfit (Nat.le_refl 2) (by omega)]
    rfl

theorem ofConditioned_eq (as? : AddressingMode → Option α) (make : α → Option Condition → Operation) :
    ofConditioned r as? make = ofExcept (Operation.ofConditioned r as? make) := by
  unfold ofConditioned Operation.ofConditioned
  split
  · next operand hops =>
    rw [operands_fit hops (by simp) (by simp), pure_bind, splitCondition_bare (Nat.le_refl 1)]
    simp only [pure_bind, operandAt_zero, ofExcept_bind, ofExcept_pure]
  · next cc operand hops =>
    rw [operands_fit hops (by simp) (by simp), pure_bind, splitCondition_cons (Nat.le_refl 1)]
    simp only [bind_assoc, pure_bind, operandAt_zero, ofExcept_bind, ofExcept_pure]
  · next hone htwo =>
    rw [operands_neither hone htwo]
    rfl

-- Were a list without operands let through, there would be none where the operand is looked for.
example : (do let (_, rest) ← splitCondition r [] 1; operandAt rest 0) = trap := rfl

theorem ofRet_eq : ofRet r = ofExcept (Operation.ofRet r) := by
  unfold ofRet Operation.ofRet
  split
  · next hops =>
    rw [operands_fit hops (by simp) (by simp), pure_bind, splitCondition_bare (Nat.le_refl 0)]
    rfl
  · next cc hops =>
    rw [operands_fit hops (by simp) (by simp), pure_bind, splitCondition_cons (Nat.le_refl 0)]
    simp only [bind_assoc, pure_bind, ofExcept_bind, ofExcept_pure]
  · next hnil hone =>
    have hzero : r.operandList.length ≠ 0 := fun h => hnil (List.length_eq_zero_iff.1 h)
    have hone := length_ne_one hone
    rw [operands_misfit (by omega) (by omega)]
    rfl

theorem ofUnary_eq (as? : AddressingMode → Option α) (make : α → Operation) :
    ofUnary r as? make = ofExcept (Operation.ofUnary r as? make) := by
  unfold ofUnary Operation.ofUnary
  split
  · next operand hops =>
    rw [operands_fit hops (by simp) (by simp)]
    simp only [pure_bind, operandAt_zero, ofExcept_bind, ofExcept_pure]
  · next hother =>
    have hone := length_ne_one hother
    rw [operands_misfit (Nat.le_refl 1) (by omega)]
    rfl

theorem ofAdd_eq (carry : Bool) : ofAdd r carry = ofExcept (Operation.ofAdd r carry) := by
  unfold ofAdd Operation.ofAdd
  split
  · next src hops =>
    rw [operands_fit hops (by simp) (by simp), pure_bind, lastOperand_one, pure_bind, if_neg (by simp)]
    simp only [ofExcept_bind, ofExcept_pure]
  · next dst src hops =>
    rw [operands_fit hops (by simp) (by simp), pure_bind, lastOperand_two, pure_bind, if_pos (by simp)]
    simp only [pure_bind, operandAt_zero, ofExcept_bind]
    refine bind_congr fun target => ?_
    split <;> simp only [ofExcept_bind, ofExcept_pure, ofExcept_error]
  · next hone htwo =>
    rw [operands_neither hone htwo]
    rfl

theorem ofAccumulate_eq (make : ByteSource → Operation) :
    ofAccumulate r make = ofExcept (Operation.ofAccumulate r make) := by
  unfold ofAccumulate Operation.ofAccumulate
  split
  · next src hops =>
    rw [operands_fit hops (by simp) (by simp), pure_bind, if_neg (by simp)]
    simp only [pure_bind, lastOperand_one, ofExcept_bind, ofExcept_pure]
  · next dst src hops =>
    rw [operands_fit hops (by simp) (by simp), pure_bind, if_pos (by simp), operandAt_zero, pure_bind]
    by_cases hdst : dst = "A"
    · rw [if_pos hdst, if_neg (not_not_intro hdst)]
      simp only [pure_bind, lastOperand_two, ofExcept_bind, ofExcept_pure]
    · rw [if_neg hdst, if_pos hdst]
      rfl
  · next hone htwo =>
    rw [operands_neither hone htwo]
    rfl

theorem ofRestart_eq : ofRestart r = ofExcept (Operation.ofRestart r) := by
  unfold ofRestart Operation.ofRestart
  split
  · next token hops =>
    rw [operands_fit hops (by simp) (by simp), pure_bind, operandAt_zero, pure_bind]
    cases Operation.restartTarget? token <;> rfl
  · next hother =>
    have hone := length_ne_one hother
    rw [operands_misfit (Nat.le_refl 1) (by omega)]
    rfl

/-- No operation has its operands in another place than where they are looked for. -/
theorem ofRecord_eq : ofRecord r = ofExcept (Operation.ofRecord r) := by
  unfold ofRecord Operation.ofRecord
  cases Family.ofMnemonic r.mnemonic with
  | load => exact ofLoad_eq r
  | relativeJump | call | jump => exact ofConditioned_eq r _ _
  | ret => exact ofRet_eq r
  | increment | decrement | push | pop => exact ofUnary_eq r _ _
  | add carry => exact ofAdd_eq r carry
  | subtract | logic => exact ofAccumulate_eq r _
  | restart => exact ofRestart_eq r
  | extension | nullary => rfl

end

/-! ### Costs and arms -/

theorem tryCatch_error (f : Fault) (handle : Fault → Checked α) :
    tryCatch (ofExcept (.error f)) handle = handle f := rfl

theorem scaleDown_divisor (s : Settings) (c : CycleCost) :
    (ofOption (c.scaleDown? s.divisor) : Checked CycleCost) = pure (c.scaleDown s.divisor) := by
  rw [CycleCost.scaleDown?_of_ne_zero s.divisor_ne_zero]
  rfl

theorem renderCost_eq (s : Settings) (r : Record) (branch : Bool) :
    renderCost s r branch = ofExcept (Arm.renderCost s r branch) := by
  unfold renderCost Arm.renderCost
  simp only [scaleDown_divisor, pure_bind, ofExcept_bind, ofExcept_pure]

theorem ofArm_eq (s : Settings) (r : Record) : ofArm s r = ofExcept (Arm.ofRecord s r) := by
  unfold ofArm Arm.ofRecord
  simp only [ofRecord_eq, renderCost_eq, ofExcept_bind, ofExcept_pure]

theorem ofEntry_eq (s : Settings) (e : Entry) : ofEntry s e = ofExcept (Arm.ofEntry s e) := by
  unfold ofEntry Arm.ofEntry
  cases e.slot with
  | reserved => rfl
  | record r => exact ofArm_eq s r

theorem diagnosticCost?_eq (s : Settings) (e : Entry) : diagnosticCost? s e = pure (Arm.diagnosticCost? s e) := by
  unfold diagnosticCost? Arm.diagnosticCost?
  cases e.slot with
  | reserved => rfl
  | record r =>
    simp only [renderCost_eq]
    cases Arm.renderCost s r (Family.ofMnemonic r.mnemonic).isBranch <;> rfl

theorem orDiagnostic_eq (s : Settings) (e : Entry) : orDiagnostic s e = ofExcept (Arm.orDiagnostic s e) := by
  unfold orDiagnostic Arm.orDiagnostic
  rw [ofEntry_eq]
  cases Arm.ofEntry s e with
  | ok a => rfl
  | error f =>
    rw [tryCatch_error]
    simp only [diagnosticCost?_eq, pure_bind]
    split <;> rfl

/-! ### Runs and listings -/

theorem ofAnswers_eq (s : Settings) (p : Progress) (answers : List (Except Fault Entry)) :
    ofAnswers s p answers = some (Run.ofAnswers s p answers) := by
  induction answers generalizing p with
  | nil => rfl
  | cons answer rest ih =>
    have hwritten : (ofExcept answer >>= orDiagnostic s >>= fun a => ofExcept (p.write a)) =
        ofExcept (answer >>= Arm.orDiagnostic s >>= p.write) := by
      simp only [funext (orDiagnostic_eq s), ofExcept_bind]
    rw [ofAnswers, Run.ofAnswers, hwritten]
    cases answer >>= Arm.orDiagnostic s >>= p.write with
    | ok p' => exact ih p'
    | error f => rfl

theorem compile_eq (s : Settings) (table : List UInt8) : compile s table = some (OpcodeDispatch.compile s table) := by
  unfold compile OpcodeDispatch.compile Run.ofLines
  cases s.validate with
  | ok u => exact ofAnswers_eq s _ _
  | error f => rfl

section

variable {s : Settings} (h : s.ticksPerCycle ≠ 0)

include h

theorem listedRecord_eq (op : Opcode) (r : Record) (arm : Arm) :
    listedRecord s op r arm = ofExcept (ListedOpcode.ofRecord s op r arm) := by
  unfold listedRecord ListedOpcode.ofRecord
  simp only [CycleCost.scaleDown?_of_ne_zero h, ofOption, pure_bind, ofExcept_bind, ofExcept_pure]

theorem listedOpcode_eq (e : Entry) : listedOpcode s e = ofExcept (ListedOpcode.ofEntry s e) := by
  unfold listedOpcode ListedOpcode.ofEntry
  rw [ofEntry_eq, ofExcept_bind]
  refine bind_congr fun arm => ?_
  cases e.slot with
  | reserved => rfl
  | record r => exact listedRecord_eq h e.opcode r arm

theorem listedAnswers_eq (answers : List (Except Fault Entry)) :
    listedAnswers s answers = ofExcept (Listing.ofAnswers s answers) := by
  induction answers with
  | nil => rfl
  | cons answer rest ih =>
    rw [listedAnswers, Listing.ofAnswers]
    simp only [listedOpcode_eq h, ih, ofExcept_bind, ofExcept_pure]

end

theorem listing_eq (s : Settings) (table : List UInt8) : listing s table = ofExcept (Listing.ofTable s table) := by
  unfold listing Listing.ofTable
  rw [ofExcept_bind]
  by_cases h : s.ticksPerCycle = 0
  · have hvalidate : s.validate = .error .zeroTicks := by rw [Settings.validate, if_pos h]
    rw [hvalidate]
    rfl
  · rw [listedAnswers_eq h]

/-- A listing divides by the ticks as they are given: without the test of the settings it would trap. -/
theorem listedRecord_zeroTicks {s : Settings} {c : CycleCost} (h : s.ticksPerCycle = 0) (hr : r.cost = .ok c)
    (op : Opcode) (arm : Arm) : listedRecord s op r arm = trap := by
  unfold listedRecord
  rw [hr, h]
  rfl

/-- Whatever is made under the settings is made without a trap, and is what it is without the checks. -/
structure TrapFree (s : Settings) : Prop where
  cost : ∀ (r : Record) (branch : Bool), renderCost s r branch = ofExcept (Arm.renderCost s r branch)
  arm : ∀ r : Record, ofArm s r = ofExcept (Arm.ofRecord s r)
  run : ∀ table, compile s table = some (OpcodeDispatch.compile s table)
  listing : ∀ table, listing s table = ofExcept (Listing.ofTable s table)

/-- Every access and every division is checked, and none of them traps, whatever the settings. -/
theorem trapFree (s : Settings) : Sharp ∧ TrapFree s := by
  refine ⟨sharp, ?_⟩
  constructor
  case cost => exact renderCost_eq s
  case arm => exact ofArm_eq s
  case run => exact compile_eq s
  case listing => exact listing_eq s

end Checked
end OpcodeDispatch
