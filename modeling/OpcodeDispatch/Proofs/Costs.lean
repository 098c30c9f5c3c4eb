import Mathlib.Control.Monad.Basic
import OpcodeDispatch.Proofs.CycleTokens
import OpcodeDispatch.Proofs.Endings
import OpcodeDispatch.Proofs.OperandLanguage
import OpcodeDispatch.Proofs.Primitives

/-!
What arms cost. An arm calls a branch exactly if its record has an operand more than the branch
needs, and then it has no statement. Its cost is that of the token in machine cycles, each count
rounded down by itself, and the text of it can be read back. The diagnostic of a record costs what an
arm of a record like it does, unless that is a branch without a condition.
-/

namespace OpcodeDispatch

/-! ### Branches and their conditions -/

/-- How many operands a branch of the family has besides a condition. -/
def Family.bare? : Family → Option Nat
  | relativeJump | call | jump => some 1
  | ret => some 0
  | _ => none

/-- The condition under which the operation branches. -/
def Operation.condition? : Operation → Option Condition
  | relativeJump cc | ret cc | call cc | jump _ cc => cc
  | _ => none

/-- The record is a branch and has an operand for a condition. -/
def Record.IsConditioned (r : Record) : Prop :=
  (Text.upper r.mnemonic ∈ ["JR", "CALL", "JP"] ∧ r.operandList.length = 2) ∨
    (Text.upper r.mnemonic ∈ ["RET", "RETI"] ∧ r.operandList.length = 1)

/-- The record is a jump and has no operand for a condition. -/
def Record.IsPlainJump (r : Record) : Prop :=
  Text.upper r.mnemonic ∈ ["JR", "CALL", "JP"] ∧ r.operandList.length = 1

namespace Family

variable {f : Family} {n : Nat}

theorem isBranch_eq (f : Family) : f.isBranch = f.bare?.isSome := by cases f <;> rfl

theorem bare?_eq_one : f.bare? = some 1 ↔ f = relativeJump ∨ f = call ∨ f = jump := by
  cases f <;> simp [bare?]

theorem bare?_eq_zero : f.bare? = some 0 ↔ f = ret := by
  cases f <;> simp [bare?]

theorem bare?_le (h : f.bare? = some n) : n = 0 ∨ n = 1 := by
  cases f <;> simp_all [bare?]

theorem bare?_jump {mnemonic : String} :
    (ofMnemonic mnemonic).bare? = some 1 ↔ Text.upper mnemonic ∈ ["JR", "CALL", "JP"] := by
  have hjr := @ofMnemonic_eq mnemonic relativeJump nofun
  have hcall := @ofMnemonic_eq mnemonic call nofun
  have hjp := @ofMnemonic_eq mnemonic jump nofun
  rw [bare?_eq_one, hjr, hcall, hjp]
  simp [table]

theorem bare?_ret {mnemonic : String} :
    (ofMnemonic mnemonic).bare? = some 0 ↔ Text.upper mnemonic ∈ ["RET", "RETI"] := by
  have hret := @ofMnemonic_eq mnemonic ret nofun
  rw [bare?_eq_zero, hret]
  simp [table]

end Family

theorem Record.isConditioned_iff {r : Record} :
    r.IsConditioned ↔ ∃ n, (Family.ofMnemonic r.mnemonic).bare? = some n ∧ r.operandList.length = n + 1 := by
  rw [IsConditioned, ← Family.bare?_jump, ← Family.bare?_ret]
  constructor
  · rintro (⟨hf, hn⟩ | ⟨hf, hn⟩)
    · exact ⟨1, hf, hn⟩
    · exact ⟨0, hf, hn⟩
  · rintro ⟨n, hf, hn⟩
    rcases Family.bare?_le hf with rfl | rfl
    · exact .inr ⟨hf, hn⟩
    · exact .inl ⟨hf, hn⟩

theorem Record.IsPlainJump.not_isConditioned {r : Record} (h : r.IsPlainJump) : ¬ r.IsConditioned := by
  rw [isConditioned_iff, Family.bare?_jump.2 h.1, h.2]
  rintro ⟨n, hn, hlength⟩
  cases hn
  omega

namespace Operation

variable {r : Record} {o : Operation} {n : Nat}

/-- The operands of a branch are its condition and those it has without one. -/
theorem length_of_bare? (h : ofRecord r = .ok o) (hn : (Family.ofMnemonic r.mnemonic).bare? = some n) :
    r.operandList.length = o.condition?.toList.length + n := by
  unfold ofRecord at h
  cases hf : Family.ofMnemonic r.mnemonic <;> rw [hf] at h hn
  case relativeJump | call | jump =>
    obtain ⟨a, cc, rfl, hlength⟩ := ofConditioned_eq_ok h
    cases hn
    exact hlength
  case ret =>
    obtain ⟨cc, rfl, hlength⟩ := ofRet_eq_ok h
    cases hn
    exact hlength
  all_goals cases hn

theorem condition?_of_makes {f : Family} (h : Makes f o) (hf : f.bare? = none) : o.condition? = none := by
  cases h with
  | relativeJump | ret | call | jump => cases hf
  | _ => rfl

theorem condition?_ofRecord (h : ofRecord r = .ok o) : o.condition?.isSome = true ↔ r.IsConditioned := by
  rw [Record.isConditioned_iff]
  cases hf : (Family.ofMnemonic r.mnemonic).bare? with
  | none => simp [condition?_of_makes (makes_ofRecord h) hf]
  | some n =>
    rw [length_of_bare? h hf]
    cases o.condition? with
    | none => simp
    | some cc => simp [Nat.add_comm]

variable (base : UInt16) (o)

theorem branch_code : (o.code base).branch.isSome = o.condition?.isSome := by
  have hbranching : ∀ primitive arguments cc, (Code.branching primitive arguments cc).branch.isSome = cc.isSome := by
    intro primitive arguments cc
    cases cc <;> rfl
  cases o with
  | relativeJump cc | ret cc | call cc | jump t cc => exact hbranching _ _ cc
  | _ => rfl

/-- The call of a branch takes the place of all statements. -/
theorem statements_code : (o.code base).statements = [] ↔ o.condition?.isSome = true := by
  have hbranching : ∀ primitive arguments cc,
      (Code.branching primitive arguments cc).statements = [] ↔ cc.isSome = true := by
    intro primitive arguments cc
    cases cc <;> simp [Code.branching, Code.statement]
  cases o with
  | relativeJump cc | ret cc | call cc | jump t cc => exact hbranching _ _ cc
  | loadWord t s => cases s <;> simp [code, Code.wordLoad, Code.stackOffsetLoad, condition?]
  | _ => simp [code, Code.statement, condition?]

end Operation

/-! ### The texts of costs -/

namespace CycleCost

variable {text : String}

/-- The text is the decimal of one count and is read back as that count. -/
def ShowsOne (text : String) (n : Nat) : Prop :=
  text = Numeral.decimal n ∧ ∃ c, parse? text = some (.fixed c) ∧ c.toNat = n

/-- The text is the decimals of two counts around a slash and is read back as these counts. -/
def ShowsTwo (text : String) (t n : Nat) : Prop :=
  text = Numeral.decimal t ++ "/" ++ Numeral.decimal n ∧
    ∃ c d, parse? text = some (.conditional c d) ∧ c.toNat = t ∧ d.toNat = n

theorem showsOne_render (n : UInt32) : ShowsOne (render (.fixed n)) n.toNat :=
  ⟨rfl, n, parse?_render _, rfl⟩

theorem showsTwo_render (t n : UInt32) : ShowsTwo (render (.conditional t n)) t.toNat n.toNat :=
  ⟨rfl, t, n, parse?_render _, rfl, rfl⟩

end CycleCost

theorem Settings.toNat_divisor (s : Settings) : s.divisor.toNat = max 1 s.ticksPerCycle.toNat := by
  have hmax : s.divisor = if s.ticksPerCycle ≤ 1 then 1 else s.ticksPerCycle := rfl
  have hone : (1 : UInt32).toNat = 1 := rfl
  rw [hmax]
  split
  · next h =>
    have := UInt32.le_iff_toNat_le.1 h
    omega
  · next h =>
    have := mt UInt32.le_iff_toNat_le.2 h
    omega

/-- A count of ticks in machine cycles. -/
def Settings.cycles (s : Settings) (ticks : UInt32) : Nat := ticks.toNat / max 1 s.ticksPerCycle.toNat

theorem Settings.toNat_div_divisor (s : Settings) (n : UInt32) : (n / s.divisor).toNat = s.cycles n := by
  rw [UInt32.toNat_div, s.toNat_divisor, Settings.cycles]

namespace Arm

open CycleCost

variable {s : Settings} {branch : Bool} {n t : UInt32}

theorem showsOne_costText_fixed :
    ShowsOne (costText s.costStyle branch ((fixed n).scaleDown s.divisor)) (s.cycles n) := by
  have hcost : costText s.costStyle branch ((fixed n).scaleDown s.divisor) = (fixed (n / s.divisor)).render := rfl
  rw [hcost, ← s.toNat_div_divisor]
  exact showsOne_render _

theorem showsOne_costText_base (hs : s.costStyle = .notTaken) :
    ShowsOne (costText s.costStyle true ((conditional t n).scaleDown s.divisor)) (s.cycles n) := by
  have hcost : costText s.costStyle true ((conditional t n).scaleDown s.divisor) = (fixed (n / s.divisor)).render := by
    rw [hs]
    rfl
  rw [hcost, ← s.toNat_div_divisor]
  exact showsOne_render _

theorem costText_eq_render {style : CostStyle} {c : CycleCost}
    (h : ¬ (style = .notTaken ∧ c.isConditional = true ∧ branch = true)) : costText style branch c = c.render := by
  refine if_neg fun hshort => h ?_
  simp only [Bool.and_eq_true, beq_iff_eq] at hshort
  exact ⟨hshort.1.2, hshort.1.1, hshort.2⟩

theorem showsTwo_costText (h : ¬ (s.costStyle = .notTaken ∧ branch = true)) :
    ShowsTwo (costText s.costStyle branch ((conditional t n).scaleDown s.divisor)) (s.cycles t) (s.cycles n) := by
  have hcost : costText s.costStyle branch ((conditional t n).scaleDown s.divisor) =
      (conditional (t / s.divisor) (n / s.divisor)).render :=
    costText_eq_render fun hshort => h ⟨hshort.1, hshort.2.2⟩
  rw [hcost, ← s.toNat_div_divisor, ← s.toNat_div_divisor]
  exact showsTwo_render _ _

theorem branch_ofRecord {r : Record} {a : Arm} (h : ofRecord s r = .ok a) :
    a.branch.isSome = true ↔ r.IsConditioned := by
  obtain ⟨o, cost, ho, -, rfl⟩ := ofRecord_eq_ok h
  rw [Operation.branch_code]
  exact Operation.condition?_ofRecord ho

/-- What an arm of a record has in place of its statements, and what it costs. -/
structure Priced (s : Settings) (r : Record) (a : Arm) : Prop where
  branch : a.branch.isSome = true ↔ r.IsConditioned
  statements : a.statements = [] ↔ a.branch.isSome = true
  token : ∃ c, Denotes r.cycleToken c
  fixed : ∀ n, Denotes r.cycleToken (.fixed n) → ShowsOne a.cost (s.cycles n)
  notTaken : ∀ t n, Denotes r.cycleToken (.conditional t n) → s.costStyle = .notTaken ∧ a.branch.isSome = true →
    ShowsOne a.cost (s.cycles n)
  pair : ∀ t n, Denotes r.cycleToken (.conditional t n) → ¬ (s.costStyle = .notTaken ∧ a.branch.isSome = true) →
    ShowsTwo a.cost (s.cycles t) (s.cycles n)

/-- Every arm of a record is priced, whatever the texts of the record. -/
theorem priced_ofRecord {r : Record} {a : Arm} (h : ofRecord s r = .ok a) : a.Priced s r := by
  obtain ⟨c, hc, hcost⟩ := ofRecord_cost h
  obtain ⟨o, cost, -, -, rfl⟩ := ofRecord_eq_ok h
  have htoken : ∀ {c'}, Denotes r.cycleToken c' → c' = c := by
    intro c' hc'
    exact Option.some.inj (hc'.parse?.symm.trans hc)
  constructor
  case branch => exact branch_ofRecord h
  case statements =>
    rw [Operation.branch_code]
    exact Operation.statements_code _ _
  case token => exact ⟨c, denotes_of_parse? hc⟩
  case fixed =>
    intro n hn
    rw [hcost, ← htoken hn]
    exact showsOne_costText_fixed
  case notTaken =>
    rintro t n hn ⟨hstyle, hbranch⟩
    rw [hcost, ← htoken hn, hbranch]
    exact showsOne_costText_base hstyle
  case pair =>
    intro t n hn hlong
    rw [hcost, ← htoken hn]
    exact showsTwo_costText hlong

/-- A jump with a condition, costs being those without the branch. -/
theorem priced_of_jump :
    let s : Settings := { costStyle := .notTaken }
    let r : Record := ⟨0xca, 1, "JP", "Z,a16", "3", "16/12", "- - - -"⟩
    let a : Arm := ⟨0xca, .code, [], some "self.jump(self.fetch_ins_word(), Some(Condition::Z))", "3"⟩
    ofRecord s r = .ok a ∧ a.Priced s r := by
  intro s r a
  have ha : ofRecord s r = .ok a := by decide +kernel
  exact ⟨ha, priced_ofRecord ha⟩

/-! ### Diagnostics -/

/-- The records are alike in all that the cost of an arm hangs on. -/
structure CostsAlike (r r' : Record) : Prop where
  mnemonic : r'.mnemonic = r.mnemonic
  cycleToken : r'.cycleToken = r.cycleToken
  operands : r'.operandList.length = r.operandList.length

theorem diagnosticCost?_of_parse? {op : Opcode} {r : Record} {c : CycleCost}
    (hc : CycleCost.parse? r.cycleToken = some c) :
    diagnosticCost? s ⟨op, .record r⟩ =
      some (costText s.costStyle (Family.ofMnemonic r.mnemonic).isBranch (c.scaleDown s.divisor)) := by
  have hcost : r.cost = .ok c := by rw [Record.cost, hc]
  simp only [diagnosticCost?, renderCost_eq, hcost]
  rfl

theorem exists_arm_of_ret {r : Record} {c : CycleCost} (hfamily : Family.ofMnemonic r.mnemonic = .ret)
    (hnil : r.operandList = []) (hc : CycleCost.parse? r.cycleToken = some c) : ∃ a, ofRecord s r = .ok a := by
  have hop : Operation.ofRecord r = .ok (.ret none) := by
    rw [Operation.ofRecord, hfamily]
    simp only [Operation.ofRet, hnil]
  exact ofRecord_of_cost hop hc

/-- A return without a condition cannot fail, so that only a jump is left where a family branches and an
arm of it does not. -/
theorem isPlainJump_of_fault {r r' : Record} {a : Arm} {f : Fault} (h : CostsAlike r r') (ha : ofRecord s r = .ok a)
    (hf : ofRecord s r' = .error f) (hfamily : (Family.ofMnemonic r.mnemonic).isBranch ≠ a.branch.isSome) :
    r.IsPlainJump := by
  obtain ⟨c, hc, -⟩ := ofRecord_cost ha
  obtain ⟨o, cost, ho, -, rfl⟩ := ofRecord_eq_ok ha
  rw [Operation.branch_code, Family.isBranch_eq] at hfamily
  cases hn : (Family.ofMnemonic r.mnemonic).bare? with
  | none =>
    rw [hn, Operation.condition?_of_makes (Operation.makes_ofRecord ho) hn] at hfamily
    exact absurd rfl hfamily
  | some n =>
    have hlength := Operation.length_of_bare? ho hn
    have hplain : o.condition? = none := by
      rw [hn] at hfamily
      simpa using hfamily.symm
    rw [hplain, Option.toList_none, List.length_nil, Nat.zero_add] at hlength
    rcases Family.bare?_le hn with rfl | rfl
    · rw [← h.mnemonic, Family.bare?_eq_zero] at hn
      rw [← h.operands, List.length_eq_zero_iff] at hlength
      rw [← h.cycleToken] at hc
      obtain ⟨b, hb⟩ := exists_arm_of_ret hn hlength hc
      cases hb.symm.trans hf
    · exact ⟨Family.bare?_jump.1 hn, hlength⟩

/-- A diagnostic beside the arm of a record like it: it costs the same, but where a jump without a
condition has two counts and costs are those without the branch. There the arm shows both counts, for it
calls no branch, and the diagnostic only one. -/
structure CostBeside (s : Settings) (r : Record) (a d : Arm) : Prop where
  same : ¬ (s.costStyle = .notTaken ∧ r.IsPlainJump ∧ ∃ t n, Denotes r.cycleToken (.conditional t n)) →
    d.cost = a.cost
  parted : s.costStyle = .notTaken → r.IsPlainJump → ∀ t n, Denotes r.cycleToken (.conditional t n) →
    ShowsTwo a.cost (s.cycles t) (s.cycles n) ∧ ShowsOne d.cost (s.cycles n)

theorem costBeside_diagnostic {r r' : Record} {a : Arm} {f : Fault} (h : CostsAlike r r')
    (ha : ofRecord s r = .ok a) (hf : ofRecord s r' = .error f) (op : Opcode) :
    ∃ cost, diagnosticCost? s ⟨op, .record r'⟩ = some cost ∧ CostBeside s r a (diagnostic op f (some cost)) := by
  obtain ⟨c, hc, hcost⟩ := ofRecord_cost ha
  have hdiagnostic : diagnosticCost? s ⟨op, .record r'⟩ =
      some (costText s.costStyle (Family.ofMnemonic r.mnemonic).isBranch (c.scaleDown s.divisor)) := by
    rw [diagnosticCost?_of_parse? (h.cycleToken ▸ hc), h.mnemonic]
  refine ⟨_, hdiagnostic, ?same, ?parted⟩
  case same =>
    intro hsame
    rw [hcost]
    by_cases hfamily : (Family.ofMnemonic r.mnemonic).isBranch = a.branch.isSome
    · rw [hfamily]
      rfl
    · have hlong : ¬ (s.costStyle = .notTaken ∧ (c.scaleDown s.divisor).isConditional = true) := by
        rintro ⟨hstyle, hpair⟩
        refine hsame ⟨hstyle, isPlainJump_of_fault h ha hf hfamily, ?_⟩
        cases c with
        | fixed n => cases hpair
        | conditional t n => exact ⟨t, n, denotes_of_parse? hc⟩
      rw [costText_eq_render fun hshort => hlong ⟨hshort.1, hshort.2.1⟩]
      exact (costText_eq_render fun hshort => hlong ⟨hshort.1, hshort.2.1⟩).symm
  case parted =>
    intro hstyle hjump t n htoken
    obtain rfl : c = .conditional t n := Option.some.inj (hc.symm.trans htoken.parse?)
    constructor
    · rw [hcost]
      refine showsTwo_costText fun hshort => hjump.not_isConditioned ?_
      exact (branch_ofRecord ha).1 hshort.2
    · rw [Family.isBranch_eq, Family.bare?_jump.2 hjump.1]
      exact showsOne_costText_base hstyle

end Arm

/-- What a lenient run writes for a record without an arm costs what the arm of a record like it does, up to
jumps without a condition. With no ticks in a cycle nothing is written. -/
theorem diagnostics_compile {s : Settings} {r r' : Record} {a : Arm} {f : Fault} (hs : s.strictness = .lenient)
    (hticks : s.ticksPerCycle ≠ 0) (h : Arm.CostsAlike r r') (ha : Arm.ofRecord s r = .ok a)
    (hf : Arm.ofRecord s r' = .error f) {table : List UInt8} {op : Opcode}
    (he : .ok ⟨op, .record r'⟩ ∈ Run.answers s table) :
    ∃ cost, (writtenArms s table)[op.val]? = some (.diagnostic op f (some cost)) ∧
      (compile s table).lines[op.val]? = some (Arm.diagnostic op f (some cost)).render ∧
      Arm.CostBeside s r a (.diagnostic op f (some cost)) := by
  have hl : s.isLenient = true := by rw [Settings.isLenient, hs]; rfl
  have hread := Run.answers_read s table
  rw [hl] at hread
  obtain ⟨cost, hcost, hbeside⟩ := Arm.costBeside_diagnostic h ha hf op
  obtain ⟨d, hd, hof⟩ := Run.exists_arm_lenient hread hl he
  rw [Arm.orDiagnostic_error hf (Arm.blamed_ofRecord s r' f hf).1, if_pos hl, hcost] at hof
  cases hof
  rw [← writtenArms_valid (if_neg hticks)] at hd
  exact ⟨cost, (line_of_arm hd).1, (line_of_arm hd).2, hbeside⟩

/-- Two jumps without a condition. The target of the second is none. -/
def jumps : List UInt8 := bytesOfText "JP a16\n1  16/12\n- - - -\n\nJP (q)\n1  16/12\n- - - -\n"

theorem diagnostics_of_jumps :
    let s : Settings := { strictness := .lenient, costStyle := .notTaken }
    let r : Record := ⟨0, 1, "JP", "a16", "1", "16/12", "- - - -"⟩
    let r' : Record := ⟨1, 5, "JP", "(q)", "1", "16/12", "- - - -"⟩
    let a : Arm := ⟨0, .code, ["self.jump(self.fetch_ins_word(), None);"], none, "4/3"⟩
    let d : Arm := .diagnostic 1 (.unsupportedOperand 1 "JP (q)" "(q)") (some "3")
    Arm.CostsAlike r r' ∧ Arm.ofRecord s r = .ok a ∧ writtenArms s jumps = [a, d] ∧ Arm.CostBeside s r a d := by
  intro s r r' a d
  have halike : Arm.CostsAlike r r' := ⟨rfl, rfl, by decide +kernel⟩
  have ha : Arm.ofRecord s r = .ok a := by decide +kernel
  have hf : Arm.ofRecord s r' = .error (.unsupportedOperand 1 "JP (q)" "(q)") := by decide +kernel
  have he : .ok ⟨1, .record r'⟩ ∈ Run.answers s jumps := by decide +kernel
  have harms : writtenArms s jumps = [a, d] := by decide +kernel
  obtain ⟨cost, hd, -, hbeside⟩ := diagnostics_compile rfl (by decide) halike ha hf he
  rw [harms] at hd
  rw [← Option.some.inj hd] at hbeside
  exact ⟨halike, ha, harms, hbeside⟩

end OpcodeDispatch
