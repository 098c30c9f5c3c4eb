import Mathlib.Data.List.Forall2
import OpcodeDispatch.Proofs.OneLine

/-!
What each setting has an influence on. Runs over one table under two settings that agree on the
reserved opcodes and the strictness end alike and write arms of the same kinds. The ticks of a cycle
and the style show in the costs alone, and the base of high memory in the arms of the records that
name an address above it.
-/

namespace OpcodeDispatch

/-! ### Texts -/

/-- One text is the other with `new` for some occurrences of `old`, possibly for none. -/
inductive Replaced (old new : String) : String → String → Prop
  | refl (s : String) : Replaced old new s s
  | swap : Replaced old new old new
  | append {s s' t t' : String} (h : Replaced old new s s') (h' : Replaced old new t t') :
      Replaced old new (s ++ t) (s' ++ t')

namespace Replaced

variable {old new : String} {s s' : String}

theorem between (before after : String) (h : Replaced old new s s') :
    Replaced old new (before ++ s ++ after) (before ++ s' ++ after) :=
  .append (.append (.refl before) h) (.refl after)

theorem same (l : List String) : List.Forall₂ (Replaced old new) l l :=
  List.forall₂_same.2 fun s _ => .refl s

theorem join {l l' : List String} (h : List.Forall₂ (Replaced old new) l l') (after : String) :
    Replaced old new (String.join (l.map (· ++ after))) (String.join (l'.map (· ++ after))) := by
  induction h with
  | nil => exact .refl _
  | cons hs h ih =>
    simp only [List.map_cons, String.join_cons]
    exact .append (.append hs (.refl after)) ih

end Replaced

namespace Numeral

theorem space_not_mem_decimal (n : Nat) : ' ' ∉ (decimal n).toList := by
  rw [decimal, String.toList_ofList]
  intro h
  exact absurd (Nat.isDigit_of_mem_toDigits (by decide) (by decide) h) (by decide)

end Numeral

theorem Arm.space_not_mem_costText (style : CostStyle) (branch : Bool) (c : CycleCost) :
    ' ' ∉ (costText style branch c).toList := by
  unfold costText
  split
  · exact Numeral.space_not_mem_decimal _
  · cases c with
    | fixed n => exact Numeral.space_not_mem_decimal _
    | conditional t n =>
      have ht := Numeral.space_not_mem_decimal t.toNat
      have hn := Numeral.space_not_mem_decimal n.toNat
      simp [CycleCost.render, ht, hn]

/-! ### Addresses above the base of high memory -/

/-- Whether the address is above the base of high memory. -/
def Address.isHigh : Address → Bool
  | highByte | highRegister => true
  | _ => false

def ByteSource.place? : ByteSource → Option Address
  | memory a => some a
  | _ => none

def ByteTarget.place? : ByteTarget → Option Address
  | memory a => some a
  | _ => none

/-- The places in memory of the bytes that an operation takes or leaves. -/
def Operation.places : Operation → List Address
  | loadByte t s => s.place?.toList ++ t.place?.toList
  | addByte _ s | subtract _ s | logic _ s => s.place?.toList
  | _ => []

/-- An operand of the record is an address above the base of high memory. -/
def Record.NamesHigh (r : Record) : Prop :=
  ∃ o ∈ r.operandList, AddressingMode.parse? o = some (.indirect .highByte) ∨
    AddressingMode.parse? o = some (.indirect .highRegister)

namespace Record

variable {r : Record} {operand : String}

theorem require_eq_ok {x : Option α} {a : α} (h : r.require operand x = .ok a) : x = some a := by
  cases x with
  | none => cases h
  | some b =>
    cases h
    rfl

theorem mode_of_operandAs {as? : AddressingMode → Option α} {a : α} (h : r.operandAs as? operand = .ok a) :
    ∃ m, AddressingMode.parse? operand = some m ∧ as? m = some a := by
  obtain ⟨m, hm, h⟩ := bind_eq_ok h
  exact ⟨m, require_eq_ok hm, require_eq_ok h⟩

end Record

namespace AddressingMode

variable {m : AddressingMode} {a : Address}

theorem indirect_of_byteSource? {s : ByteSource} (h : m.byteSource? = some s) (ha : a ∈ s.place?) :
    m = .indirect a := by
  unfold byteSource? at h
  split at h <;> cases h <;> cases ha
  rfl

theorem indirect_of_byteTarget? {t : ByteTarget} (h : m.byteTarget? = some t) (ha : a ∈ t.place?) :
    m = .indirect a := by
  unfold byteTarget? at h
  split at h <;> cases h <;> cases ha
  rfl

end AddressingMode

namespace Operation

variable {r : Record} {o : Operation} {a : Address}

/-- An operand of the record is the place. -/
def Named (r : Record) (a : Address) : Prop :=
  ∃ operand ∈ r.operandList, AddressingMode.parse? operand = some (.indirect a)

theorem named_of_source {operand : String} {s : ByteSource} (hmem : operand ∈ r.operandList)
    (h : r.operandAs AddressingMode.byteSource? operand = .ok s) (ha : a ∈ s.place?) : Named r a := by
  obtain ⟨m, hm, hs⟩ := Record.mode_of_operandAs h
  rw [AddressingMode.indirect_of_byteSource? hs ha] at hm
  exact ⟨operand, hmem, hm⟩

theorem named_ofLoad (h : ofLoad r = .ok o) (ha : a ∈ o.places) : Named r a := by
  unfold ofLoad at h
  split at h
  · next dst src hops =>
    obtain ⟨target, htarget, h⟩ := bind_eq_ok h
    obtain ⟨source, hsource, h⟩ := bind_eq_ok h
    split at h
    · obtain ⟨t, -, h⟩ := bind_eq_ok h
      obtain ⟨s, -, h⟩ := bind_eq_ok h
      cases h
      cases ha
    · obtain ⟨s, hs, h⟩ := bind_eq_ok h
      obtain ⟨t, ht, h⟩ := bind_eq_ok h
      cases h
      rcases List.mem_append.1 ha with ha | ha
      · have hm := AddressingMode.indirect_of_byteSource? (Record.require_eq_ok hs) (Option.mem_toList.1 ha)
        exact ⟨src, by simp [hops], hm ▸ Record.require_eq_ok hsource⟩
      · have hm := AddressingMode.indirect_of_byteTarget? (Record.require_eq_ok ht) (Option.mem_toList.1 ha)
        exact ⟨dst, by simp [hops], hm ▸ Record.require_eq_ok htarget⟩
  · cases h

theorem named_ofAdd {carry : Bool} (h : ofAdd r carry = .ok o) (ha : a ∈ o.places) : Named r a := by
  unfold ofAdd at h
  split at h
  · next src hops =>
    obtain ⟨s, hs, h⟩ := bind_eq_ok h
    cases h
    exact named_of_source (by simp [hops]) hs (Option.mem_toList.1 ha)
  · next dst src hops =>
    obtain ⟨target, -, h⟩ := bind_eq_ok h
    split at h
    · obtain ⟨s, hs, h⟩ := bind_eq_ok h
      cases h
      exact named_of_source (by simp [hops]) hs (Option.mem_toList.1 ha)
    · obtain ⟨p, -, h⟩ := bind_eq_ok h
      cases h
      cases ha
    · obtain ⟨m, -, hm⟩ := Record.mode_of_operandAs h
      split at hm <;> cases hm
      cases ha
    · cases h
  · cases h

theorem named_ofAccumulate {make : ByteSource → Operation} (hmake : ∀ s, (make s).places = s.place?.toList)
    (h : ofAccumulate r make = .ok o) (ha : a ∈ o.places) : Named r a := by
  unfold ofAccumulate at h
  split at h
  · next src hops =>
    obtain ⟨s, hs, h⟩ := bind_eq_ok h
    cases h
    rw [hmake, Option.mem_toList] at ha
    exact named_of_source (by simp [hops]) hs ha
  · next dst src hops =>
    split at h
    · obtain ⟨s, hs, h⟩ := bind_eq_ok h
      cases h
      rw [hmake, Option.mem_toList] at ha
      exact named_of_source (by simp [hops]) hs ha
    · cases h
  · cases h

/-- A byte is moved from or to memory only where an operand says so. -/
theorem named_of_places (h : ofRecord r = .ok o) (ha : a ∈ o.places) : Named r a := by
  unfold ofRecord at h
  cases hf : Family.ofMnemonic r.mnemonic <;> rw [hf] at h
  case load => exact named_ofLoad h ha
  case relativeJump | call | jump =>
    obtain ⟨x, cc, rfl, -⟩ := ofConditioned_eq_ok h
    cases ha
  case ret =>
    obtain ⟨cc, rfl, -⟩ := ofRet_eq_ok h
    cases ha
  case increment | decrement | push | pop =>
    obtain ⟨x, rfl⟩ := ofUnary_eq_ok h
    cases ha
  case add carry => exact named_ofAdd h ha
  case subtract | logic => exact named_ofAccumulate (fun _ => rfl) h ha
  case restart =>
    obtain ⟨target, rfl⟩ := ofRestart_eq_ok h
    cases ha
  case extension | nullary =>
    cases h
    cases ha

theorem namesHigh_of_places (h : ofRecord r = .ok o) (ha : a ∈ o.places) (hhigh : a.isHigh = true) :
    r.NamesHigh := by
  obtain ⟨operand, hmem, hparse⟩ := named_of_places h ha
  cases a with
  | highByte => exact ⟨operand, hmem, .inl hparse⟩
  | highRegister => exact ⟨operand, hmem, .inr hparse⟩
  | _ => cases hhigh

end Operation

/-! ### Code over two bases -/

namespace Code

variable (base base' : UInt16)

/-- The literals of the bases. -/
abbrev Rebased : String → String → Prop := Replaced (Numeral.hex 4 base.toNat) (Numeral.hex 4 base'.toNat)

theorem address_low {a : Address} (h : a.isHigh = false) : address base a = address base' a := by
  cases a with
  | highByte | highRegister => cases h
  | _ => rfl

theorem byteValue_low {s : ByteSource} (h : ∀ a ∈ s.place?, a.isHigh = false) :
    byteValue base s = byteValue base' s := by
  cases s with
  | memory a =>
    unfold byteValue
    simp only [address_low base base' (h a rfl)]
  | _ => rfl

theorem bytePlace_low {t : ByteTarget} (h : ∀ a ∈ t.place?, a.isHigh = false) :
    bytePlace base t = bytePlace base' t := by
  cases t with
  | memory a =>
    unfold bytePlace
    simp only [address_low base base' (h a rfl)]
  | _ => rfl

theorem rebased_address (a : Address) : Rebased base base' (address base a) (address base' a) := by
  cases a with
  | highByte | highRegister => exact .append (.refl _) .swap
  | _ => exact .refl _

theorem rebased_byteValue (s : ByteSource) : Rebased base base' (byteValue base s) (byteValue base' s) := by
  cases s with
  | memory a => exact .between _ _ (rebased_address base base' a)
  | _ => exact .refl _

theorem rebased_bytePlace (t : ByteTarget) : Rebased base base' (bytePlace base t) (bytePlace base' t) := by
  cases t with
  | memory a => exact .append (.refl _) (rebased_address base base' a)
  | _ => exact .refl _

end Code

namespace Operation

variable (base base' : UInt16)

theorem code_branch (o : Operation) : (o.code base).branch = (o.code base').branch := by
  cases o <;> simp only [code, Code.statement]

/-- The base shows only in code for an address above it. -/
theorem code_low {o : Operation} (h : ∀ a ∈ o.places, a.isHigh = false) : o.code base = o.code base' := by
  cases o with
  | loadByte t s =>
    simp only [places, List.mem_append, Option.mem_toList] at h
    rw [code, code, Code.byteValue_low base base' fun a ha => h a (.inl ha),
      Code.bytePlace_low base base' fun a ha => h a (.inr ha)]
  | addByte carry s | subtract carry s | logic op s =>
    simp only [places, Option.mem_toList] at h
    rw [code, code, Code.byteValue_low base base' h]
  | _ => rfl

theorem rebased_code (o : Operation) :
    List.Forall₂ (Code.Rebased base base') (o.code base).statements (o.code base').statements := by
  cases o with
  | loadByte t s =>
    have hs := Code.rebased_byteValue base base' s
    have ht := Code.rebased_bytePlace base base' t
    exact .cons (.append (.append (.between _ _ hs) ht) (.refl _)) (Replaced.same _)
  | addByte carry s | subtract carry s =>
    have hs := Code.rebased_byteValue base base' s
    exact .cons (.append (.append (.between _ _ hs) (.refl _)) (.refl _)) .nil
  | logic op s => exact .cons (.between _ _ (Code.rebased_byteValue base base' s)) .nil
  | _ => exact Replaced.same _

end Operation

/-! ### The arms of one entry under two settings -/

/-- The entry's record names an address above the base of high memory. -/
def Entry.NamesHigh (e : Entry) : Prop := ∃ r, e.slot = .record r ∧ r.NamesHigh

namespace Arm

/-- The arms of one entry under two settings. -/
structure Beside (s s' : Settings) (e : Entry) (a a' : Arm) : Prop where
  opcode : a.opcode = a'.opcode
  kind : a.kind = a'.kind
  branch : a.branch = a'.branch
  statements : s.highMemoryBase = s'.highMemoryBase ∨ ¬ e.NamesHigh → a.statements = a'.statements
  rebased : List.Forall₂ (Code.Rebased s.highMemoryBase s'.highMemoryBase) a.statements a'.statements
  cost : s.divisor = s'.divisor → s.costStyle = s'.costStyle → a.cost = a'.cost
  space : ' ' ∉ a.cost.toList ∧ ' ' ∉ a'.cost.toList

/-- What comes of one entry under two settings. -/
inductive Both (s s' : Settings) (e : Entry) : Except Fault Arm → Except Fault Arm → Prop
  | arms {a a' : Arm} (h : Beside s s' e a a') : Both s s' e (.ok a) (.ok a')
  | fault (f : Fault) : Both s s' e (.error f) (.error f)

variable {s s' : Settings} {e : Entry} {a a' : Arm}

theorem both_ofRecord (s s' : Settings) (e : Entry) {r : Record} (he : e.slot = .record r) :
    Both s s' e (ofRecord s r) (ofRecord s' r) := by
  cases ho : Operation.ofRecord r with
  | error f =>
    simp only [ofRecord, ho]
    exact .fault f
  | ok o =>
    simp only [ofRecord, ho, renderCost_eq]
    cases hc : r.cost with
    | error f => exact .fault f
    | ok c =>
      refine .arms ⟨rfl, rfl, o.code_branch _ _, ?_, o.rebased_code _ _, ?_, ?_⟩
      · rintro (hbase | hlow)
        · simp only [hbase]
        · have hplaces : ∀ a ∈ o.places, a.isHigh = false := by
            intro a ha
            by_contra hhigh
            exact hlow ⟨r, he, Operation.namesHigh_of_places ho ha (by simpa using hhigh)⟩
          simp only [Operation.code_low s.highMemoryBase s'.highMemoryBase hplaces]
      · intro hdivisor hstyle
        simp only [hdivisor, hstyle, Operation.code_branch s.highMemoryBase s'.highMemoryBase o]
      · exact ⟨space_not_mem_costText _ _ _, space_not_mem_costText _ _ _⟩

theorem diagnosticCost?_eq (h : s.divisor = s'.divisor) (h' : s.costStyle = s'.costStyle) (e : Entry) :
    diagnosticCost? s e = diagnosticCost? s' e := by
  simp only [diagnosticCost?, renderCost_eq, h, h']

theorem space_not_mem_diagnosticCost? (s : Settings) (e : Entry) :
    ' ' ∉ ((diagnosticCost? s e).getD "0").toList := by
  unfold diagnosticCost?
  split
  · decide
  · next r hr =>
    rw [renderCost_eq]
    cases r.cost with
    | error f => exact (by decide : ' ' ∉ "0".toList)
    | ok c => exact space_not_mem_costText _ _ _

/-- One entry has its arm under both settings, or the same fault. -/
theorem both_orDiagnostic (hlenient : s.isLenient = s'.isLenient) (e : Entry) :
    Both s s' e (orDiagnostic s e) (orDiagnostic s' e) := by
  have hentry : Both s s' e (ofEntry s e) (ofEntry s' e) := by
    unfold ofEntry
    split
    · have hspace : ' ' ∉ (undefined e.opcode).cost.toList := (by decide : ' ' ∉ "1".toList)
      exact .arms ⟨rfl, rfl, rfl, fun _ => rfl, Replaced.same _, fun _ _ => rfl, hspace, hspace⟩
    · next r hr => exact both_ofRecord s s' e hr
  unfold orDiagnostic
  generalize ofEntry s e = x at hentry
  generalize ofEntry s' e = x' at hentry
  cases hentry with
  | arms h => exact .arms h
  | fault f =>
    simp only [← hlenient]
    split
    · refine .arms ⟨rfl, rfl, rfl, fun _ => rfl, Replaced.same _, fun hdivisor hstyle => ?_, ?_⟩
      · simp only [diagnostic, diagnosticCost?_eq hdivisor hstyle]
      · exact ⟨space_not_mem_diagnosticCost? s e, space_not_mem_diagnosticCost? s' e⟩
    · exact .fault f

/-- What is written before a cost ends in a space. -/
theorem exists_space (opening : String) (statements : List String) (branch : Option String) : ∃ before,
    opening ++ " " ++ String.join (statements.map (· ++ " ")) ++ renderBranch branch = before ++ " " := by
  have hstatements : ∃ before,
      opening ++ " " ++ String.join (statements.map (· ++ " ")) = before ++ " " := by
    rcases List.eq_nil_or_concat statements with rfl | ⟨init, last, rfl⟩
    · exact ⟨opening, by simp⟩
    · exact ⟨opening ++ " " ++ String.join (init.map (· ++ " ")) ++ last, by simp [String.append_assoc]⟩
  cases branch with
  | none => simpa [renderBranch] using hstatements
  | some call =>
    refine ⟨opening ++ " " ++ String.join (statements.map (· ++ " ")) ++ call ++ " as u8 +", ?_⟩
    simp only [renderBranch, String.append_assoc]
    rfl

namespace Beside

variable (h : Beside s s' e a a')

include h

/-- Under one base of high memory the lines differ in the cost alone. -/
theorem render_cost (hbase : s.highMemoryBase = s'.highMemoryBase) : ∃ before,
    a.render = before ++ " " ++ a.cost ++ " \x7d," ∧ a'.render = before ++ " " ++ a'.cost ++ " \x7d," := by
  obtain ⟨before, hbefore⟩ := exists_space (a.opcode.render ++ " => \x7b") a.statements a.branch
  have hopening (op : String) : op ++ " => \x7b " = op ++ " => \x7b" ++ " " := by
    rw [String.append_assoc]
    rfl
  refine ⟨before, ?_, ?_⟩
  · rw [render, hopening, hbefore]
  · rw [render, hopening, ← h.opcode, ← h.statements (.inl hbase), ← h.branch, hbefore]

theorem render_eq (hdivisor : s.divisor = s'.divisor) (hstyle : s.costStyle = s'.costStyle) (hlow : ¬ e.NamesHigh) :
    a.render = a'.render := by
  rw [render, render, h.opcode, h.statements (.inr hlow), h.branch, h.cost hdivisor hstyle]

theorem rebased_render (hdivisor : s.divisor = s'.divisor) (hstyle : s.costStyle = s'.costStyle) :
    Code.Rebased s.highMemoryBase s'.highMemoryBase a.render a'.render := by
  rw [render, render, h.opcode, h.branch, h.cost hdivisor hstyle]
  have hjoin := Replaced.join h.rebased " "
  exact .append (.append (.append (.append (.refl _) hjoin) (.refl _)) (.refl _)) (.refl _)

end Beside
end Arm

/-! ### Runs under two settings -/

namespace Run

/-- The arms of a reader's answers under two settings, and the fault that both runs come to. -/
inductive InStep (s s' : Settings) : List (Except Fault Entry) → List Arm → List Arm → Option Fault → Prop
  | nil : InStep s s' [] [] [] none
  | arm {e : Entry} {a a' : Arm} {answers : List (Except Fault Entry)} {as as' : List Arm} {f? : Option Fault}
      (ha : Arm.Beside s s' e a a') (h : InStep s s' answers as as' f?) :
      InStep s s' (.ok e :: answers) (a :: as) (a' :: as') f?
  | fault (answer : Except Fault Entry) (answers : List (Except Fault Entry)) (f : Fault) :
      InStep s s' (answer :: answers) [] [] (some f)

variable {s s' : Settings}

theorem inStep (hlenient : s.isLenient = s'.isLenient) (answers : List (Except Fault Entry)) :
    InStep s s' answers (arms s answers) (arms s' answers) (fault? s answers) ∧
      fault? s answers = fault? s' answers := by
  induction answers with
  | nil => exact ⟨.nil, rfl⟩
  | cons answer answers ih =>
    obtain ⟨hstep, hfault⟩ := ih
    cases answer with
    | error f => exact ⟨.fault _ _ f, rfl⟩
    | ok e =>
      have hboth := Arm.both_orDiagnostic hlenient e
      generalize hx : Arm.orDiagnostic s e = x at hboth
      generalize hx' : Arm.orDiagnostic s' e = x' at hboth
      cases hboth with
      | arms ha =>
        rw [arms_ok _ hx, arms_ok _ hx', fault?_ok _ hx, fault?_ok _ hx']
        exact ⟨.arm ha hstep, hfault⟩
      | fault f =>
        rw [arms_error _ hx, arms_error _ hx', fault?_error _ hx, fault?_error _ hx']
        exact ⟨.fault _ _ f, rfl⟩

section

variable {answers : List (Except Fault Entry)} {as as' : List Arm} {f? : Option Fault}
  (h : InStep s s' answers as as' f?)

include h

theorem InStep.kinds : as.map Arm.kind = as'.map Arm.kind := by
  induction h with
  | nil => rfl
  | arm ha h ih => rw [List.map_cons, List.map_cons, ha.kind, ih]
  | fault => rfl

theorem InStep.length : as.length = as'.length := by simpa using congrArg List.length h.kinds

theorem InStep.totals : totals as = totals as' := by
  have hcount (k : ArmKind) : as.countP (·.kind = k) = as'.countP (·.kind = k) := by
    have hmap (l : List Arm) : l.countP (·.kind = k) = (l.map Arm.kind).countP (· = k) := by
      rw [List.countP_map]
      rfl
    rw [hmap, hmap, h.kinds]
  simp only [Run.totals, h.length, hcount]

/-- Corresponding arms are those of one entry. -/
theorem InStep.beside {i : Nat} {a a' : Arm} (ha : as[i]? = some a) (ha' : as'[i]? = some a') :
    ∃ e, answers[i]? = some (.ok e) ∧ Arm.Beside s s' e a a' := by
  induction h generalizing i with
  | nil => cases ha
  | arm hbeside h ih =>
    cases i with
    | zero =>
      cases ha
      cases ha'
      exact ⟨_, rfl, hbeside⟩
    | succ i => exact ih ha ha'
  | fault => cases ha

end

end Run

theorem Settings.validate_of_ticks {s : Settings} (h : 1 ≤ s.ticksPerCycle) : s.validate = .ok () := by
  refine if_neg fun h0 => ?_
  rw [h0] at h
  exact absurd h (by decide)

/-- Two settings that can be run and agree on what they accept. -/
structure Settings.Agree (s s' : Settings) : Prop where
  ticks : 1 ≤ s.ticksPerCycle
  ticks' : 1 ≤ s'.ticksPerCycle
  reserved : s.reservedSet = s'.reservedSet
  strictness : s.strictness = s'.strictness

/-- What the other settings have an influence on, in two runs over a table. -/
structure Influence (s s' : Settings) (table : List UInt8) : Prop where
  /-- none of them changes how the run ends -/
  result : (compile s table).result = (compile s' table).result
  lines : (compile s table).lines.length = (compile s' table).lines.length
  /-- ticks and style change the cost of a line, which stands between its last two spaces -/
  cost (hbase : s.highMemoryBase = s'.highMemoryBase) (i : Nat) (l l' : String)
    (hl : (compile s table).lines[i]? = some l) (hl' : (compile s' table).lines[i]? = some l') :
    ∃ before cost cost', ' ' ∉ cost.toList ∧ ' ' ∉ cost'.toList ∧
      l = before ++ " " ++ cost ++ " \x7d," ∧ l' = before ++ " " ++ cost' ++ " \x7d,"
  /-- the base changes its own literal in a line, if the record names an address above it -/
  base (hticks : s.ticksPerCycle = s'.ticksPerCycle) (hstyle : s.costStyle = s'.costStyle) (i : Nat) (l l' : String)
    (hl : (compile s table).lines[i]? = some l) (hl' : (compile s' table).lines[i]? = some l') :
    Replaced (Numeral.hex 4 s.highMemoryBase.toNat) (Numeral.hex 4 s'.highMemoryBase.toNat) l l' ∧
      (l = l' ∨ ∃ op r, op.val = i ∧ (Run.answers s table)[i]? = some (.ok ⟨op, .record r⟩) ∧ r.NamesHigh)

section

variable {s s' : Settings} (h : s.Agree s') (table : List UInt8)

include h

theorem Settings.Agree.inStep :
    Run.InStep s s' (Run.answers s table) (writtenArms s table) (writtenArms s' table) (endingFault? s table) ∧
      endingFault? s table = endingFault? s' table := by
  have hlenient : s.isLenient = s'.isLenient := by rw [isLenient, isLenient, h.strictness]
  have hanswers : Run.answers s' table = Run.answers s table := by
    simp only [Run.answers, TableReader.ofSettings, h.reserved, hlenient]
  have hv := validate_of_ticks h.ticks
  have hv' := validate_of_ticks h.ticks'
  rw [writtenArms_valid hv, writtenArms_valid hv', endingFault?_valid hv, endingFault?_valid hv', hanswers]
  exact Run.inStep hlenient _

/-- Lines with one number are the arms of one entry. -/
theorem Settings.Agree.beside {i : Nat} {l l' : String} (hl : (compile s table).lines[i]? = some l)
    (hl' : (compile s' table).lines[i]? = some l') :
    ∃ e a a', (Run.answers s table)[i]? = some (.ok e) ∧ e.opcode.val = i ∧ Arm.Beside s s' e a a' ∧
      a.render = l ∧ a'.render = l' := by
  rw [lines_compile, List.getElem?_map, Option.map_eq_some_iff] at hl hl'
  obtain ⟨a, ha, hl⟩ := hl
  obtain ⟨a', ha', hl'⟩ := hl'
  obtain ⟨e, he, hbeside⟩ := (h.inStep table).1.beside ha ha'
  have hop := (Run.answers_read s table).opcode he
  exact ⟨e, a, a', he, hop.trans (Nat.zero_add i), hbeside, hl, hl'⟩

end

/-- Each setting has its own part of the output. -/
theorem influence_compile {s s' : Settings} (h : s.Agree s') (table : List UInt8) : Influence s s' table := by
  obtain ⟨hstep, hfault⟩ := h.inStep table
  constructor
  case result =>
    rw [compile_eq, compile_eq, ← hfault]
    cases endingFault? s table <;> simp only [Run.ofArms, hstep.totals]
  case lines => rw [lines_compile, lines_compile, List.length_map, List.length_map, hstep.length]
  case cost =>
    intro hbase i l l' hl hl'
    obtain ⟨e, a, a', -, -, hbeside, rfl, rfl⟩ := h.beside table hl hl'
    obtain ⟨before, hbefore, hbefore'⟩ := hbeside.render_cost hbase
    exact ⟨before, a.cost, a'.cost, hbeside.space.1, hbeside.space.2, hbefore, hbefore'⟩
  case base =>
    intro hticks hstyle i l l' hl hl'
    obtain ⟨e, a, a', he, hop, hbeside, rfl, rfl⟩ := h.beside table hl hl'
    have hdivisor : s.divisor = s'.divisor := by rw [Settings.divisor, Settings.divisor, hticks]
    refine ⟨hbeside.rebased_render hdivisor hstyle, ?_⟩
    by_cases hhigh : e.NamesHigh
    · obtain ⟨r, hr, hnames⟩ := hhigh
      exact .inr ⟨e.opcode, r, hop, hr ▸ he, hnames⟩
    · exact .inl (hbeside.render_eq hdivisor hstyle hhigh)

/-- One table under settings of other costs, under settings of another base, and under settings of both. -/
theorem influence_of_each :
    let table := bytesOfText "LDH (a8),A\n2  12\n- - - -\n"
    let line (base cost : String) :=
      "0x00 => \x7b self.ld_byte(self.regs.a(), None, self.fetch_ins_byte() as u16 + " ++ base ++ "); " ++
        cost ++ " \x7d,"
    let costs : Settings := { ticksPerCycle := 1, costStyle := .notTaken }
    let based : Settings := { highMemoryBase := 0x8000 }
    let both : Settings := { ticksPerCycle := 1, highMemoryBase := 0x8000, costStyle := .notTaken }
    (compile .default table).lines = [line "0xff00" "3"] ∧
      (Settings.default.Agree costs ∧ Settings.default.highMemoryBase = costs.highMemoryBase ∧
        (compile costs table).lines = [line "0xff00" "12"] ∧ Influence .default costs table) ∧
      (Settings.default.Agree based ∧ Settings.default.ticksPerCycle = based.ticksPerCycle ∧
        Settings.default.costStyle = based.costStyle ∧ (compile based table).lines = [line "0x8000" "3"] ∧
        Influence .default based table) ∧
      Settings.default.Agree both ∧ (compile both table).lines = [line "0x8000" "12"] ∧
      Influence .default both table := by
  intro table line costs based both
  have hcosts : Settings.default.Agree costs := ⟨by decide, by decide, rfl, rfl⟩
  have hbased : Settings.default.Agree based := ⟨by decide, by decide, rfl, rfl⟩
  have hboth : Settings.default.Agree both := ⟨by decide, by decide, rfl, rfl⟩
  exact ⟨by decide +kernel, ⟨hcosts, rfl, by decide +kernel, influence_compile hcosts table⟩,
    ⟨hbased, rfl, rfl, by decide +kernel, influence_compile hbased table⟩,
    hboth, by decide +kernel, influence_compile hboth table⟩

end OpcodeDispatch
