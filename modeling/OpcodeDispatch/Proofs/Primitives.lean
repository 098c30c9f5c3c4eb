import OpcodeDispatch.Proofs.Calls
import OpcodeDispatch.Proofs.Padding
import OpcodeDispatch.Proofs.Verdicts

/-!
Mnemonics without a family of their own. A record of such a mnemonic is a call of a primitive of the
mnemonic's name, whatever the name is: it has no white space and no capital letter, but nothing
asks for an identifier, and a placeholder in the slot of an opcode that has an instruction is called
like any other. Only the cycles of such a record can be at fault.
-/

namespace OpcodeDispatch
namespace Text

/-! ### Names -/

/-- A lower-case letter or an underscore, then lower-case letters, digits and underscores. -/
def isIdentifier (s : String) : Bool :=
  match s.toList with
  | [] => false
  | c :: cs => (c.isLower || c == '_') && cs.all fun d => d.isLower || d.isDigit || d == '_'

/-- An identifier, but for the case of its letters. -/
def isName (s : String) : Bool :=
  match s.toList with
  | [] => false
  | c :: cs => (c.isAlpha || c == '_') && cs.all fun d => d.isAlpha || d.isDigit || d == '_'

variable {s w : String} {c : Char}

theorem toLower_of_not_isUpper (h : c.isUpper = false) : c.toLower = c := dif_neg (of_decide_eq_false h)

theorem ascii_of_isUpper (h : c.isUpper = true) : c.toNat < 128 :=
  Nat.lt_of_le_of_lt (UInt32.le_iff_toNat_le.1 (of_decide_eq_true h).2) (by decide)

theorem toLower_of_isUpper (h : c.isUpper = true) :
    c.toLower.isLower = true ∧ c.toLower.isUpper = false ∧ isSpace c.toLower = false ∧ isSpace c = false := by
  exact forall_ascii (P := fun c => c.isUpper = true → c.toLower.isLower = true ∧ c.toLower.isUpper = false ∧
    isSpace c.toLower = false ∧ isSpace c = false) (by decide) (ascii_of_isUpper h) h

theorem isSpace_toLower (c : Char) : isSpace c.toLower = isSpace c := by
  cases hcase : c.isUpper with
  | true => rw [(toLower_of_isUpper hcase).2.2.1, (toLower_of_isUpper hcase).2.2.2]
  | false => rw [toLower_of_not_isUpper hcase]

theorem IsWord.map (hw : IsWord w) {f : Char → Char} (hf : ∀ c, isSpace (f c) = isSpace c) :
    IsWord (String.ofList (w.toList.map f)) := by
  refine ⟨fun hempty => hw.toList_ne_nil ?_, fun c hc => ?_⟩
  · rw [String.ext_iff, String.toList_ofList] at hempty
    exact List.map_eq_nil_iff.1 hempty
  · rw [String.toList_ofList] at hc
    obtain ⟨d, hd, rfl⟩ := List.mem_map.1 hc
    rw [hf, hw.2 d hd]

theorem IsWord.upper (hw : IsWord w) : IsWord (upper w) := hw.map isSpace_toUpper

theorem IsWord.lower (hw : IsWord w) : IsWord (lower w) := hw.map isSpace_toLower

theorem isUpper_of_mem_lower (h : c ∈ (lower s).toList) : c.isUpper = false := by
  rw [Text.lower, String.toList_ofList] at h
  obtain ⟨d, -, rfl⟩ := List.mem_map.1 h
  cases hcase : d.isUpper with
  | true => exact (toLower_of_isUpper hcase).2.1
  | false => rw [toLower_of_not_isUpper hcase, hcase]

theorem toLower_first (c : Char) : (c.toLower.isLower || c.toLower == '_') = (c.isAlpha || c == '_') := by
  have halpha : c.isAlpha = (c.isUpper || c.isLower) := rfl
  cases hcase : c.isUpper with
  | true => simp [halpha, hcase, (toLower_of_isUpper hcase).1]
  | false => simp [halpha, hcase, toLower_of_not_isUpper hcase]

theorem toLower_later (c : Char) : (c.toLower.isLower || c.toLower.isDigit || c.toLower == '_') =
    (c.isAlpha || c.isDigit || c == '_') := by
  have halpha : c.isAlpha = (c.isUpper || c.isLower) := rfl
  cases hcase : c.isUpper with
  | true => simp [halpha, hcase, (toLower_of_isUpper hcase).1]
  | false => simp [halpha, hcase, toLower_of_not_isUpper hcase]

theorem isIdentifier_lower (s : String) : isIdentifier (lower s) = isName s := by
  unfold isIdentifier isName
  rw [lower, String.toList_ofList]
  cases s.toList with
  | nil => rfl
  | cons c cs => simp only [List.map_cons, List.all_map, Function.comp_def, toLower_first, toLower_later]

/-- A text that is not blank has a word before its first blank. -/
theorem isWord_cutAtSpace (h : isBlank s = false) : IsWord (cutAtSpace (trim s)).1 := by
  refine ⟨fun hempty => ?_, fun c hc => ?_⟩
  · have hnil : (trim s).toList.takeWhile (!isSpace ·) = [] := by
      rw [cutAtSpace, String.ext_iff, String.toList_ofList] at hempty
      exact hempty
    cases htrim : (trim s).toList with
    | nil =>
      rw [trim_eq_empty.1 (String.ext_iff.2 htrim)] at h
      cases h
    | cons c cs =>
      have hc : isSpace c = false := head_of_trimLeft (trimmed_trim s).ends.1 c (by rw [htrim]; rfl)
      rw [htrim, List.takeWhile_cons_of_pos (by rw [hc]; rfl)] at hnil
      cases hnil
  · rw [cutAtSpace, String.toList_ofList] at hc
    simpa using List.all_eq_true.1 List.all_takeWhile c hc

end Text

/-! ### The record of a primitive -/

/-- The mnemonic has no family of its own. -/
def Record.Unlisted (r : Record) : Prop := Family.find? (Text.upper r.mnemonic) = none

instance (r : Record) : Decidable r.Unlisted := inferInstanceAs (Decidable (_ = none))

/-- The arm is a call of a primitive by the mnemonic's name, which is some text in lower case and
without white space. It is an identifier only if the mnemonic looks like one. -/
structure Arm.CallsPrimitive (a : Arm) (r : Record) : Prop where
  kind : a.kind = .code
  statements : a.statements = ["self." ++ Text.lower r.mnemonic ++ "();"]
  branch : a.branch = none
  word : Text.IsWord (Text.lower r.mnemonic)
  lower : ∀ c ∈ (Text.lower r.mnemonic).toList, c.isUpper = false
  identifier : Text.isIdentifier (Text.lower r.mnemonic) = Text.isName r.mnemonic

section

variable {s : Settings} {table : List UInt8} {r : Record} {op : Opcode}

theorem ofRecord_of_unlisted (h : r.Unlisted) :
    Operation.ofRecord r = .ok (.primitive (Text.lower r.mnemonic)) := by
  have hfamily : Family.ofMnemonic r.mnemonic = .nullary := by
    rw [Family.ofMnemonic, h]
    rfl
  rw [Operation.ofRecord, hfamily]

/-- Nothing but its cycles can be wrong with the record. -/
theorem fault_of_unlisted (h : r.Unlisted) {f : Fault} (hf : Arm.ofRecord s r = .error f) :
    f = .badCycles r.opcode r.cycleToken := by
  rcases bind_eq_error hf with ho | ⟨o, -, hf⟩
  · rw [ofRecord_of_unlisted h] at ho
    cases ho
  rcases bind_eq_error hf with hf | ⟨cost, -, hf⟩
  · rcases bind_eq_error hf with hf | ⟨c, -, hf⟩
    · unfold Record.cost at hf
      split at hf <;> cases hf
      rfl
    · cases hf
  · cases hf

theorem Arm.callsPrimitive_of_unlisted (h : r.Unlisted) (hword : Text.IsWord r.mnemonic) {a : Arm}
    (ha : Arm.ofRecord s r = .ok a) : a.CallsPrimitive r := by
  obtain ⟨o, cost, ho, -, rfl⟩ := Arm.ofRecord_eq_ok ha
  rw [ofRecord_of_unlisted h] at ho
  cases ho
  exact ⟨rfl, rfl, rfl, hword.lower, fun _ => Text.isUpper_of_mem_lower, Text.isIdentifier_lower _⟩

theorem Run.opcode_of_answers (he : .ok ⟨op, .record r⟩ ∈ Run.answers s table) : r.opcode = op := by
  obtain ⟨r', c, ls, -, hslot⟩ := TableReader.slot_of_answers he
  exact (TableReader.slot?_eq_some hslot).opcode

theorem Run.isWord_mnemonic (he : .ok ⟨op, .record r⟩ ∈ Run.answers s table) : Text.IsWord r.mnemonic := by
  obtain ⟨r', c, ls, -, hslot⟩ := TableReader.slot_of_answers he
  obtain ⟨head, cycles, flags, rest, -, hhead, rfl⟩ := TableReader.record_of_slot? hslot
  exact (Text.isWord_cutAtSpace hhead).upper

/-! ### Runs -/

theorem Run.exists_arm {as : List (Except Fault Entry)} (h : Run.fault? s as = none) {e : Entry}
    (he : .ok e ∈ as) : ∃ a ∈ Run.arms s as, Arm.orDiagnostic s e = .ok a := by
  induction as with
  | nil => cases he
  | cons answer rest ih =>
    cases answer with
    | error f => cases h
    | ok e' =>
      cases ha : Arm.orDiagnostic s e' with
      | error f =>
        rw [Run.fault?_error rest ha] at h
        cases h
      | ok a =>
        rw [Run.fault?_ok rest ha] at h
        rw [Run.arms_ok rest ha]
        rcases List.mem_cons.1 he with he | he
        · cases he
          exact ⟨a, List.mem_cons_self, ha⟩
        · obtain ⟨b, hb, hof⟩ := ih h he
          exact ⟨b, List.mem_cons_of_mem _ hb, hof⟩

/-- In a strict run that ends well, the record of an opcode has its arm on the opcode's line. -/
theorem arm_of_answer (hs : s.strictness = .strict) (hok : (compile s table).Ok)
    (he : .ok ⟨op, .record r⟩ ∈ Run.answers s table) :
    ∃ a, Arm.ofRecord s r = .ok a ∧ (writtenArms s table)[op.val]? = some a ∧
      (compile s table).lines[op.val]? = some a.render := by
  rw [ok_iff] at hok
  cases hv : s.validate with
  | error f =>
    rw [endingFault?_invalid hv] at hok
    cases hok
  | ok u =>
    rw [endingFault?_valid hv] at hok
    obtain ⟨a, ha, hof⟩ := Run.exists_arm hok he
    rw [Arm.orDiagnostic_strict (isLenient_of_strict hs)] at hof
    have hop : a.opcode = op := by
      obtain ⟨o, cost, -, -, rfl⟩ := Arm.ofRecord_eq_ok hof
      exact Run.opcode_of_answers he
    rw [← writtenArms_valid hv] at ha
    rw [← hop]
    exact ⟨a, hof, line_of_arm ha⟩

/-- What a strict run that ends well makes of the mnemonics without a family, and what can be wrong with
their records. -/
theorem primitives_compile (hs : s.strictness = .strict) (hok : (compile s table).Ok) :
    (∀ op r, .ok ⟨op, .record r⟩ ∈ Run.answers s table → r.Unlisted →
      ∃ a, (writtenArms s table)[op.val]? = some a ∧ (compile s table).lines[op.val]? = some a.render ∧
        a.CallsPrimitive r) ∧
      ∀ r : Record, r.Unlisted → ∀ f, Arm.ofRecord s r = .error f → f = .badCycles r.opcode r.cycleToken := by
  refine ⟨fun op r he hr => ?_, fun r hr f => fault_of_unlisted hr⟩
  obtain ⟨a, ha, harm, hline⟩ := arm_of_answer hs hok he
  exact ⟨a, harm, hline, Arm.callsPrimitive_of_unlisted hr (Run.isWord_mnemonic he) ha⟩

end

/-! ### A placeholder where an instruction is expected -/

/-- All opcodes but the first have no instruction. -/
def firstOnly : Settings := { reserved := Opcode.all.drop 1 }

/-- A placeholder in the slot of the first opcode. -/
def stray : List UInt8 := bytesOfText "-\n1  4\n- - - -\n"

theorem stray_ok : (compile firstOnly stray).Ok := by
  rw [ok_iff]
  decide +kernel

theorem stray_mem : .ok ⟨0, .record ⟨0, 1, "-", "", "1", "4", "- - - -"⟩⟩ ∈ Run.answers firstOnly stray := by
  have hread : ((Run.answers firstOnly stray).any fun answer =>
      answer.toOption = some ⟨0, .record ⟨0, 1, "-", "", "1", "4", "- - - -"⟩⟩) = true := by decide +kernel
  obtain ⟨answer, hmem, hof⟩ := List.any_eq_true.1 hread
  cases answer with
  | error f => cases of_decide_eq_true hof
  | ok e =>
    cases of_decide_eq_true hof
    exact hmem

theorem primitives_of_stray : firstOnly.strictness = .strict ∧ (compile firstOnly stray).Ok ∧
    (∃ a, (writtenArms firstOnly stray)[0]? = some a ∧ (compile firstOnly stray).lines[0]? = some a.render ∧
      a.CallsPrimitive ⟨0, 1, "-", "", "1", "4", "- - - -"⟩) :=
  ⟨rfl, stray_ok, (primitives_compile rfl stray_ok).1 0 _ stray_mem (by decide)⟩

/-- What is called need not be an identifier. -/
theorem not_only_identifiers : ¬ ∀ (s : Settings) (table : List UInt8), s.strictness = .strict →
    (compile s table).Ok → ∀ op r, .ok ⟨op, .record r⟩ ∈ Run.answers s table → r.Unlisted →
      ∃ a name, (writtenArms s table)[op.val]? = some a ∧ a.statements = ["self." ++ name ++ "();"] ∧
        Text.isIdentifier name = true := by
  intro h
  obtain ⟨a, name, harm, hstatements, hname⟩ := h firstOnly stray rfl stray_ok 0 _ stray_mem (by decide)
  have hfirst : (writtenArms firstOnly stray)[0]? = some ⟨0, .code, ["self.-();"], none, "1"⟩ := by decide +kernel
  cases harm.symm.trans hfirst
  have hchars : "self.".toList ++ name.toList ++ "();".toList = "self.".toList ++ ['-'] ++ "();".toList := by
    have htext := congrArg String.toList (List.cons.inj hstatements).1
    rw [String.toList_append, String.toList_append] at htext
    exact htext.symm
  obtain rfl : name = "-" := String.ext_iff.2 (List.append_cancel_left (List.append_cancel_right hchars))
  revert hname
  decide

end OpcodeDispatch
