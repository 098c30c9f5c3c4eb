import OpcodeDispatch.Proofs.Written

/-!
An arm is written as one line. Nothing of a table's text reaches an arm but the mnemonic, which has
no white space, and the messages of faults, which are quoted.
-/

namespace OpcodeDispatch

/-! ### Texts without a line break -/

namespace Text

def IsLine (s : String) : Prop := '\n' ∉ s.toList

instance (s : String) : Decidable (IsLine s) := inferInstanceAs (Decidable ('\n' ∉ s.toList))

theorem isLine_append {s t : String} : IsLine (s ++ t) ↔ IsLine s ∧ IsLine t := by
  simp [IsLine]

theorem isLine_ofList {cs : List Char} : IsLine (String.ofList cs) ↔ '\n' ∉ cs := by
  simp [IsLine]

theorem isLine_join {l : List String} (h : ∀ s ∈ l, IsLine s) : IsLine (String.join l) := by
  induction l with
  | nil => simp [IsLine]
  | cons s l ih =>
    rw [String.join_cons, isLine_append]
    exact ⟨h s (by simp), ih fun t ht => h t (by simp [ht])⟩

theorem toLower_ne_newline {c : Char} (h : c ≠ '\n') : c.toLower ≠ '\n' := by
  unfold Char.toLower
  split
  · next hc =>
    intro he
    have hv : (c.val + ('a'.val - 'A'.val)).toNat = 10 := congrArg (fun d => d.val.toNat) he
    have hlow : 65 ≤ c.val.toNat := hc.1
    have hhigh : c.val.toNat ≤ 90 := hc.2
    rw [UInt32.toNat_add, show ('a'.val - 'A'.val).toNat = 32 from rfl] at hv
    omega
  · exact h

theorem toUpper_ne_newline {c : Char} (h : c ≠ '\n') : c.toUpper ≠ '\n' := by
  unfold Char.toUpper
  split
  · next hc =>
    intro he
    have hv : (c.val + ('A'.val - 'a'.val)).toNat = 10 := congrArg (fun d => d.val.toNat) he
    have hlow : 97 ≤ c.val.toNat := hc.1
    have hhigh : c.val.toNat ≤ 122 := hc.2
    rw [UInt32.toNat_add, show ('A'.val - 'a'.val).toNat = 4294967264 from rfl] at hv
    omega
  · exact h

theorem isLine_upper {s : String} (h : IsLine s) : IsLine (upper s) := by
  simp only [upper, isLine_ofList, List.mem_map, not_exists, not_and]
  intro c hc
  exact toUpper_ne_newline fun he => h (he ▸ hc)

theorem isLine_lower {s : String} (h : IsLine s) : IsLine (lower s) := by
  simp only [lower, isLine_ofList, List.mem_map, not_exists, not_and]
  intro c hc
  exact toLower_ne_newline fun he => h (he ▸ hc)

theorem printable_of_mem {cs : List Char} {c : Char} (h : cs.all (fun d => ' ' ≤ d && d ≤ '~') = true) (hc : c ∈ cs) :
    ¬ isUnprintable c := by
  have hrange := List.all_eq_true.1 h c hc
  rw [Bool.and_eq_true, decide_eq_true_iff, decide_eq_true_iff] at hrange
  exact not_isUnprintable_of_ascii hrange.1 hrange.2

end Text

namespace Numeral

open Text

theorem isLine_decimal (n : Nat) : IsLine (decimal n) := by
  rw [decimal, isLine_ofList]
  intro h
  exact absurd (Nat.isDigit_of_mem_toDigits (by decide) (by decide) h) (by decide)

theorem digit_of_mem_hexDigits {w n : Nat} {c : Char} (h : c ∈ hexDigits w n) : ∃ x < 16, x.digitChar = c := by
  induction w generalizing n with
  | zero => cases h
  | succ w ih =>
    rcases List.mem_append.1 h with h | h
    · exact ih h
    · exact ⟨n % 16, Nat.mod_lt n (by decide), (List.mem_singleton.1 h).symm⟩

theorem digit_of_mem_toDigits {n : Nat} {c : Char} (h : c ∈ Nat.toDigits 16 n) : ∃ x < 16, x.digitChar = c := by
  induction n using Nat.strongRecOn with
  | ind n ih =>
    rcases Nat.lt_or_ge n 16 with hn | hn
    · rw [Nat.toDigits_of_lt_base hn, List.mem_singleton] at h
      exact ⟨n, hn, h.symm⟩
    · rw [Nat.toDigits_of_base_le (by decide) hn, List.mem_append, List.mem_singleton] at h
      rcases h with h | h
      · exact ih (n / 16) (by omega) h
      · exact ⟨n % 16, Nat.mod_lt n (by decide), h.symm⟩

theorem not_mem_hex {w n : Nat} {c : Char} (hx : c ≠ 'x') (hc : ∀ x < 16, x.digitChar ≠ c) : c ∉ (hex w n).toList := by
  simp only [hex, String.toList_append, String.toList_ofList, List.mem_append, not_or]
  refine ⟨fun h => ?_, fun h => ?_⟩
  · have hopening : "0x".toList = [Nat.digitChar 0, 'x'] := rfl
    rw [hopening, List.mem_cons, List.mem_singleton] at h
    exact h.elim (fun hzero => hc 0 (by decide) hzero.symm) hx
  · obtain ⟨x, hlt, hx⟩ := digit_of_mem_hexDigits h
    exact hc x hlt hx

theorem isLine_hex (w n : Nat) : IsLine (hex w n) := not_mem_hex (by decide) (by decide)

end Numeral

namespace Quoted

theorem letter_mem {c l : Char} (h : letter? c = some l) : l ∈ ['0', 't', 'r', 'n', '\\', '"'] := by
  unfold letter? at h
  grind

theorem printable_escapeChar (c : Char) : ∀ d ∈ escapeChar c, ¬ Text.isUnprintable d := by
  have hdigits : ∀ x < 16, ' ' ≤ x.digitChar ∧ x.digitChar ≤ '~' := by decide
  intro d hd
  unfold escapeChar at hd
  split at hd
  · next l hl =>
    rcases List.mem_cons.1 hd with rfl | hd
    · exact Text.not_isUnprintable_of_ascii (by decide) (by decide)
    · rw [List.mem_singleton.1 hd]
      exact Text.printable_of_mem (by decide) (letter_mem hl)
  · split at hd
    · simp only [List.mem_append] at hd
      rcases hd with (hd | hd) | hd
      · exact Text.printable_of_mem (by decide) hd
      · obtain ⟨x, hx, rfl⟩ := Numeral.digit_of_mem_toDigits hd
        exact Text.not_isUnprintable_of_ascii (hdigits x hx).1 (hdigits x hx).2
      · exact Text.printable_of_mem (by decide) hd
    · next hc => rwa [List.mem_singleton.1 hd]

theorem printable_escape (cs : List Char) : ∀ d ∈ escape cs, ¬ Text.isUnprintable d := by
  intro d hd
  obtain ⟨c, -, hc⟩ := List.mem_flatMap.1 hd
  exact printable_escapeChar c d hc

theorem isLine_quote (s : String) : Text.IsLine (quote s) := by
  have h : '\n' ∉ escape s.toList := fun h => printable_escape s.toList '\n' h (by decide)
  rw [quote, Text.isLine_ofList]
  simp [h]

end Quoted

/-! ### Code -/

namespace Code

open Text

/-- A fixed text is checked character by character. -/
theorem isLine_fixed {cs : List Char} (h : ¬ '\n' ∈ cs) : IsLine (String.ofList cs) := isLine_ofList.2 h

theorem isLine_name (r : Register) : IsLine r.name := by
  rcases r with r | p
  · cases r <;> exact isLine_fixed (by decide)
  · cases p <;> exact isLine_fixed (by decide)

theorem isLine_readRegister {accessor : String} (h : IsLine accessor) : IsLine (readRegister accessor) := by
  simp only [readRegister, isLine_append]
  exact ⟨⟨isLine_fixed (by decide), h⟩, isLine_fixed (by decide)⟩

theorem isLine_accessor (r : Register) : IsLine r.accessor := isLine_lower (isLine_name r)

theorem isLine_pairAccessor (p : RegisterPair) : IsLine p.accessor := isLine_accessor (.pair p)

theorem isLine_registerIndex (r : Register) : IsLine (registerIndex r) :=
  isLine_append.2 ⟨isLine_fixed (by decide), isLine_name r⟩

theorem isLine_fetchByte : IsLine fetchByte := isLine_fixed (by decide)

theorem isLine_fetchWord : IsLine fetchWord := isLine_fixed (by decide)

theorem isLine_address (base : UInt16) (a : Address) : IsLine (address base a) := by
  have hbase : IsLine (Numeral.hex 4 base.toNat) := Numeral.isLine_hex _ _
  cases a with
  | pair p | increment p | decrement p => exact isLine_readRegister (isLine_pairAccessor p)
  | absolute => exact isLine_fetchWord
  | highByte =>
    unfold address
    simp only [isLine_append]
    exact ⟨⟨isLine_fetchByte, isLine_fixed (by decide)⟩, hbase⟩
  | highRegister =>
    unfold address
    simp only [isLine_append]
    exact ⟨⟨isLine_readRegister (isLine_fixed (by decide)), isLine_fixed (by decide)⟩, hbase⟩

theorem isLine_adjustment (a : Address) : ∀ s ∈ adjustment a, IsLine s := by
  intro s hs
  cases a with
  | increment p | decrement p =>
    have hp := isLine_pairAccessor p
    rw [List.mem_singleton.1 hs]
    simp only [isLine_append]
    exact ⟨⟨⟨⟨isLine_fixed (by decide), hp⟩, isLine_fixed (by decide)⟩, isLine_readRegister hp⟩,
      isLine_fixed (by decide)⟩
  | pair p => cases hs
  | absolute | highByte | highRegister => cases hs

theorem isLine_byteValue (base : UInt16) (s : ByteSource) : IsLine (byteValue base s) := by
  cases s with
  | register r => exact isLine_readRegister (isLine_accessor (.byte r))
  | immediate => exact isLine_fetchByte
  | memory a =>
    unfold byteValue
    simp only [isLine_append]
    exact ⟨⟨isLine_fixed (by decide), isLine_address base a⟩, isLine_fixed (by decide)⟩

theorem isLine_registerPlace (r : Register) : IsLine (registerPlace r) := by
  unfold registerPlace
  simp only [isLine_append]
  exact ⟨⟨isLine_fixed (by decide), isLine_registerIndex r⟩, isLine_fixed (by decide)⟩

theorem isLine_memoryPlace {address : String} (h : IsLine address) : IsLine (memoryPlace address) :=
  isLine_append.2 ⟨isLine_fixed (by decide), h⟩

theorem isLine_bytePlace (base : UInt16) (t : ByteTarget) : IsLine (bytePlace base t) := by
  cases t with
  | register r => exact isLine_registerPlace _
  | memory a => exact isLine_memoryPlace (isLine_address base a)

theorem isLine_wordPlace (t : WordTarget) : IsLine (wordPlace t) := by
  cases t with
  | pair p => exact isLine_registerPlace _
  | absolute => exact isLine_memoryPlace isLine_fetchWord

theorem isLine_stepPlace (t : StepTarget) : IsLine (stepPlace t) := by
  cases t with
  | register r => exact isLine_registerPlace r
  | memory p => exact isLine_memoryPlace (isLine_readRegister (isLine_pairAccessor p))

theorem isLine_carryFlag (carry : Bool) : IsLine (carryFlag carry) := by
  cases carry <;> exact isLine_fixed (by decide)

theorem isLine_logicPrimitive (op : Logic) : IsLine (logicPrimitive op) := by
  cases op <;> exact isLine_fixed (by decide)

theorem isLine_jumpValue (t : JumpTarget) : IsLine (jumpValue t) := by
  cases t with
  | immediate => exact isLine_fetchWord
  | hl => exact isLine_readRegister (isLine_fixed (by decide))

theorem isLine_loadAdjustments (t : ByteTarget) (s : ByteSource) :
    ∀ line ∈ loadAdjustments t s, IsLine line := by
  intro line hline
  rcases List.mem_append.1 hline with h | h
  · cases s with
    | memory a => exact isLine_adjustment a line h
    | register r => cases h
    | immediate => cases h
  · cases t with
    | memory a => exact isLine_adjustment a line h
    | register r => cases h

/-- Text between a fixed opening and a fixed end. -/
theorem isLine_between {opening ending : List Char} {s : String} (ho : ¬ '\n' ∈ opening)
    (hs : IsLine s) (he : ¬ '\n' ∈ ending) :
    IsLine (String.ofList opening ++ s ++ String.ofList ending) :=
  isLine_append.2 ⟨isLine_append.2 ⟨isLine_fixed ho, hs⟩, isLine_fixed he⟩

theorem isLine_wordLoad {place : String} (h : IsLine place) (s : WordSource) :
    ∀ line ∈ wordLoad place s, IsLine line := by
  intro line hline
  cases s with
  | pair p =>
    rw [List.mem_singleton.1 hline]
    simp only [isLine_append]
    exact ⟨⟨⟨⟨isLine_fixed (by decide), isLine_readRegister (isLine_pairAccessor p)⟩,
      isLine_fixed (by decide)⟩, h⟩, isLine_fixed (by decide)⟩
  | immediate =>
    rw [List.mem_singleton.1 hline]
    simp only [isLine_append]
    exact ⟨⟨⟨⟨isLine_fixed (by decide), isLine_fetchWord⟩, isLine_fixed (by decide)⟩, h⟩,
      isLine_fixed (by decide)⟩
  | stackOffset =>
    simp only [wordLoad, stackOffsetLoad, List.mem_cons, List.not_mem_nil, or_false] at hline
    rcases hline with rfl | rfl | rfl | rfl | rfl | rfl | rfl
    · exact isLine_fixed (by decide)
    · exact isLine_fixed (by decide)
    · exact isLine_fixed (by decide)
    · exact isLine_fixed (by decide)
    · exact isLine_fixed (by decide)
    · exact isLine_fixed (by decide)
    · exact isLine_between (by decide) h (by decide)

/-- Every text of the code is one line. -/
def OneLine (c : Code) : Prop := (∀ s ∈ c.statements, IsLine s) ∧ ∀ call ∈ c.branch, IsLine call

theorem oneLine_statement {s : String} (h : IsLine s) : (statement s).OneLine := by
  refine ⟨fun t ht => ?_, fun call hcall => ?_⟩
  · rw [List.mem_singleton.1 ht]
    exact h
  · cases hcall

theorem oneLine_branching {primitive arguments : String} (hp : IsLine primitive)
    (ha : IsLine arguments) (cc : Option Condition) : (branching primitive arguments cc).OneLine := by
  cases cc with
  | none =>
    refine oneLine_statement ?_
    simp only [isLine_append]
    exact ⟨⟨⟨hp, isLine_fixed (by decide)⟩, ha⟩, isLine_fixed (by decide)⟩
  | some cc =>
    have hcc : IsLine cc.name := by cases cc <;> exact isLine_fixed (by decide)
    refine ⟨fun s hs => (by cases hs), fun call hcall => ?_⟩
    cases hcall
    simp only [isLine_append]
    exact ⟨⟨⟨⟨⟨hp, isLine_fixed (by decide)⟩, ha⟩, isLine_fixed (by decide)⟩, hcc⟩, isLine_fixed (by decide)⟩

theorem oneLine_code (base : UInt16) (o : Operation) (h : ∀ name, o = .primitive name → IsLine name) :
    (o.code base).OneLine := by
  cases o with
  | loadByte t s =>
    refine ⟨fun line hline => ?_, fun call hcall => (by cases hcall)⟩
    rcases List.mem_cons.1 hline with rfl | hline
    · simp only [isLine_append]
      exact ⟨⟨⟨⟨isLine_fixed (by decide), isLine_byteValue base s⟩, isLine_fixed (by decide)⟩,
        isLine_bytePlace base t⟩, isLine_fixed (by decide)⟩
    · exact isLine_loadAdjustments t s line hline
  | loadWord t s => exact ⟨isLine_wordLoad (isLine_wordPlace t) s, fun call hcall => (by cases hcall)⟩
  | relativeJump cc | ret cc | call cc =>
    exact oneLine_branching (isLine_fixed (by decide)) (isLine_fixed (by decide)) cc
  | jump t cc =>
    refine oneLine_branching (isLine_fixed (by decide)) ?_ cc
    exact isLine_append.2 ⟨isLine_jumpValue t, isLine_fixed (by decide)⟩
  | increment t | decrement t =>
    exact oneLine_statement (isLine_between (by decide) (isLine_stepPlace t) (by decide))
  | addByte carry s | subtract carry s =>
    refine oneLine_statement ?_
    simp only [isLine_append]
    exact ⟨⟨⟨⟨isLine_fixed (by decide), isLine_byteValue base s⟩, isLine_fixed (by decide)⟩,
      isLine_carryFlag carry⟩, isLine_fixed (by decide)⟩
  | addPair p =>
    exact oneLine_statement
      (isLine_between (by decide) (isLine_readRegister (isLine_pairAccessor p)) (by decide))
  | addOffset => exact oneLine_statement (isLine_fixed (by decide))
  | logic op s =>
    refine oneLine_statement ?_
    simp only [isLine_append]
    exact ⟨⟨⟨⟨isLine_fixed (by decide), isLine_logicPrimitive op⟩, isLine_fixed (by decide)⟩,
      isLine_byteValue base s⟩, isLine_fixed (by decide)⟩
  | push p =>
    exact oneLine_statement
      (isLine_between (by decide) (isLine_readRegister (isLine_pairAccessor p)) (by decide))
  | pop p => exact oneLine_statement (isLine_between (by decide) (isLine_registerIndex _) (by decide))
  | restart target => exact oneLine_statement (isLine_between (by decide) (Numeral.isLine_hex _ _) (by decide))
  | extension => exact oneLine_statement (isLine_fixed (by decide))
  | primitive name => exact oneLine_statement (isLine_between (by decide) (h name rfl) (by decide))

end Code

/-! ### Arms -/

namespace Arm

open Text

theorem isLine_costText (style : CostStyle) (branch : Bool) (c : CycleCost) :
    IsLine (costText style branch c) := by
  unfold costText
  split
  · exact Numeral.isLine_decimal _
  · cases c with
    | fixed n => exact Numeral.isLine_decimal _
    | conditional t n =>
      simp only [CycleCost.render, isLine_append]
      exact ⟨⟨Numeral.isLine_decimal _, Code.isLine_fixed (by decide)⟩, Numeral.isLine_decimal _⟩

theorem isLine_renderCost {s : Settings} {r : Record} {branch : Bool} {cost : String}
    (h : renderCost s r branch = .ok cost) : IsLine cost := by
  obtain ⟨c, -, h⟩ := bind_eq_ok h
  cases h
  exact isLine_costText _ _ _

theorem isLine_diagnosticCost? {s : Settings} {e : Entry} : IsLine ((diagnosticCost? s e).getD "0") := by
  unfold diagnosticCost?
  split
  · exact Code.isLine_fixed (by decide)
  · next r hr =>
    cases h : renderCost s r (Family.ofMnemonic r.mnemonic).isBranch with
    | error f => exact Code.isLine_fixed (by decide)
    | ok cost => exact isLine_renderCost h

theorem isLine_render {a : Arm} (hs : ∀ s ∈ a.statements, IsLine s)
    (hb : ∀ call ∈ a.branch, IsLine call) (hc : IsLine a.cost) : IsLine a.render := by
  have hstatements : IsLine (String.join (a.statements.map (· ++ " "))) := by
    refine isLine_join fun t ht => ?_
    obtain ⟨s, hmem, rfl⟩ := List.mem_map.1 ht
    exact isLine_append.2 ⟨hs s hmem, Code.isLine_fixed (by decide)⟩
  have hbranch : IsLine (renderBranch a.branch) := by
    cases h : a.branch with
    | none => exact Code.isLine_fixed (by decide)
    | some call => exact isLine_append.2 ⟨hb call h, Code.isLine_fixed (by decide)⟩
  simp only [render, Opcode.render, isLine_append]
  exact ⟨⟨⟨⟨⟨Numeral.isLine_hex _ _, Code.isLine_fixed (by decide)⟩, hstatements⟩, hbranch⟩, hc⟩,
    Code.isLine_fixed (by decide)⟩

theorem isLine_diagnostic {op : Opcode} {f : Fault} {cost : Option String} (h : IsLine (cost.getD "0")) :
    IsLine (diagnostic op f cost).render := by
  refine isLine_render (fun t ht => ?_) (fun call hcall => (by cases hcall)) h
  rw [List.mem_singleton.1 ht]
  exact Code.isLine_between (by decide) (Quoted.isLine_quote _) (by decide)

theorem isLine_cutAtSpace (s : String) : IsLine (cutAtSpace s).1 := by
  rw [cutAtSpace, isLine_ofList]
  intro h
  have hc := List.all_eq_true.1 List.all_takeWhile _ h
  exact absurd hc (by decide)

/-- The mnemonic ends before the first white space, so it holds no line break. -/
theorem isLine_mnemonic {R : OpcodeSet} {op : Opcode} {r : Record}
    (h : TableReader.SlotRead R op (.record r)) : IsLine r.mnemonic := by
  cases h with
  | record hop line head cycles flags => exact isLine_upper (isLine_cutAtSpace _)

theorem isLine_primitive {r : Record} {name : String} (hr : IsLine r.mnemonic)
    (h : Operation.ofRecord r = .ok (.primitive name)) : IsLine name := by
  rw [Operation.ofRecord_eq_primitive h]
  exact isLine_lower hr

theorem Fits.isLine {s : Settings} {R : OpcodeSet} {op : Opcode} {e : Entry} {a : Arm}
    (h : Fits s R op e a) : IsLine a.render := by
  cases h with
  | undefined h =>
    refine isLine_render (fun t ht => ?_) (fun call hcall => (by cases hcall)) (Code.isLine_fixed (by decide))
    rw [List.mem_singleton.1 ht]
    exact Code.isLine_fixed (by decide)
  | code hr ha =>
    obtain ⟨o, cost, ho, hcost, rfl⟩ := ofRecord_eq_ok ha
    have hcode : (o.code s.highMemoryBase).OneLine := by
      refine Code.oneLine_code _ _ fun name hname => ?_
      subst hname
      exact isLine_primitive (isLine_mnemonic hr) ho
    exact isLine_render hcode.1 hcode.2 (isLine_renderCost hcost)
  | diagnostic hr hf hl => exact isLine_diagnostic isLine_diagnosticCost?

end Arm

/-! ### Outputs -/

theorem Text.pieces_ended {ls : List String} (h : ∀ l ∈ ls, Text.IsLine l) :
    Text.pieces '\n' (String.join (ls.map (· ++ "\n"))) = ls ++ [""] := by
  induction ls with
  | nil => rfl
  | cons l ls ih =>
    have hl : '\n' ∉ l.toList := h l (by simp)
    have ih' := ih fun t ht => h t (by simp [ht])
    have hchars : (String.join ((l :: ls).map (· ++ "\n"))).toList =
        l.toList ++ '\n' :: (String.join (ls.map (· ++ "\n"))).toList := by
      simp
    rw [Text.pieces, hchars, List.splitOn_append_cons_self_of_not_mem hl, List.map_cons,
      String.ofList_toList, ← Text.pieces, ih', List.cons_append]

/-- The lines of an output, of which each is ended. -/
def Run.lines (r : Run) : List String := (Text.pieces '\n' r.output).dropLast

theorem isLine_writtenArms (s : Settings) (table : List UInt8) :
    ∀ a ∈ writtenArms s table, Text.IsLine a.render := by
  intro a ha
  obtain ⟨e, he⟩ := writtenArms_fit s table a ha
  exact he.isLine

theorem Run.lines_ofArms {as : List Arm} (h : ∀ a ∈ as, Text.IsLine a.render) (f? : Option Fault) :
    (ofArms as f?).lines = as.map Arm.render := by
  have hlines : ∀ l ∈ as.map Arm.render, Text.IsLine l := by
    intro l hl
    obtain ⟨a, ha, rfl⟩ := List.mem_map.1 hl
    exact h a ha
  have hp := Text.pieces_ended hlines
  rw [List.map_map] at hp
  rw [lines, output_ofArms, show (fun a : Arm => a.render ++ "\n") = (· ++ "\n") ∘ Arm.render from rfl, hp]
  simp

/-- An output is its arms, one on each line. -/
theorem lines_compile (s : Settings) (table : List UInt8) :
    (compile s table).lines = (writtenArms s table).map Arm.render := by
  rw [compile_eq, Run.lines_ofArms (isLine_writtenArms s table)]

end OpcodeDispatch
