import OpcodeDispatch.Listing.Text
import OpcodeDispatch.Proofs.Calls
import OpcodeDispatch.Proofs.LineBytes
import OpcodeDispatch.Proofs.OneLine
import OpcodeDispatch.Proofs.Words

/-!
The text of a listing, line by line. What a listing shows of an instruction comes from one line of the
table, so each opcode has one line, or two if its arm is shown.
-/

namespace OpcodeDispatch

/-! ### Texts cut from a line -/

namespace Text

variable {s : String}

theorem isLine_trim (h : IsLine s) : IsLine (trim s) := by
  rw [trim, isLine_ofList]
  exact fun hc => h ((List.dropWhile_suffix isSpace).subset ((trimRight_isPrefix _).subset hc))

theorem isLine_afterSpace (h : IsLine s) : IsLine (cutAtSpace s).2 := by
  rw [cutAtSpace, isLine_ofList]
  exact fun hc => h ((List.dropWhile_suffix _).subset ((List.drop_suffix 1 _).subset hc))

theorem isLine_pieces {c : Char} (h : IsLine s) : ∀ piece ∈ pieces c s, IsLine piece := by
  intro piece hpiece
  obtain ⟨cs, hcs, rfl⟩ := List.mem_map.1 hpiece
  exact isLine_ofList.2 fun hmem => h ((piece_of_mem_splitOn hcs).2 hmem)

theorem isLine_intercalate {separator : String} (hseparator : IsLine separator) {l : List String}
    (h : ∀ s ∈ l, IsLine s) : IsLine (separator.intercalate l) := by
  induction l with
  | nil => simp [IsLine]
  | cons s l ih =>
    have hs := h s (by simp)
    cases l with
    | nil => simpa using hs
    | cons t l =>
      rw [String.intercalate_cons_cons, isLine_append, isLine_append]
      exact ⟨⟨hs, hseparator⟩, ih fun u hu => h u (by simp [hu])⟩

theorem isLine_padRight (width : Nat) (h : IsLine s) : IsLine (padRight width s) := by
  refine isLine_append.2 ⟨h, isLine_ofList.2 fun hc => ?_⟩
  exact absurd (List.eq_of_mem_replicate hc) (by decide)

end Text

open Text

/-! ### Lines of an instruction -/

/-- The mnemonic and the operands of the record stand on one line. -/
structure Record.IsLine (r : Record) : Prop where
  mnemonic : Text.IsLine r.mnemonic
  operands : Text.IsLine r.operands

theorem Record.isLine_ofLines {head : String} (h : Text.IsLine head) (op : Opcode) (line : Nat)
    (cycles flags : String) :
    (Record.ofLines op line head cycles flags).IsLine where
  mnemonic := isLine_upper (Arm.isLine_cutAtSpace _)
  operands := isLine_trim (isLine_afterSpace (isLine_trim h))

namespace TableReader

variable {r : TableReader}

/-- A record that is read stands on lines that the reader has before it. -/
theorem isLine_of_answers (h : ∀ s, .text s ∈ r.cursor.rest → Text.IsLine s) {n : Nat} {op : Opcode} {rec : Record}
    (he : .ok ⟨op, .record rec⟩ ∈ r.answers n) : rec.IsLine := by
  obtain ⟨r', c, ls, hls, hslot⟩ := slot_of_answers he
  obtain ⟨head, cycles, flags, rest, hrest, -, rfl⟩ := record_of_slot? hslot
  have hhead : .text head ∈ r.cursor.rest := by simp [hls.1, hrest]
  exact Record.isLine_ofLines (h head hhead) _ _ _ _

theorem isLine_of_table {table : List UInt8} {R : OpcodeSet} {lenient : Bool} {op : Opcode} {rec : Record}
    (he : .ok ⟨op, .record rec⟩ ∈ (ofTable table R lenient).all) : rec.IsLine :=
  isLine_of_answers (fun _ => Line.newline_not_mem_of_mem_ofTable) he

end TableReader

theorem CycleCost.isLine_render (c : CycleCost) : Text.IsLine c.render := by
  cases c with
  | fixed n => exact Numeral.isLine_decimal _
  | conditional t n =>
    simp only [render, isLine_append]
    exact ⟨⟨Numeral.isLine_decimal _, Code.isLine_fixed (by decide)⟩, Numeral.isLine_decimal _⟩

theorem AddressingMode.isLine_describe (m : AddressingMode) : Text.IsLine m.describe := by
  have hnamed : ∀ (opening : List Char) (r : Register), ¬ '\n' ∈ opening →
      Text.IsLine (String.ofList opening ++ r.name ++ String.ofList [')']) :=
    fun opening r ho => Code.isLine_between ho (Code.isLine_name r) (by decide)
  cases m with
  | register r => exact hnamed "Register(".toList r (by decide)
  | indirect a =>
    cases a with
    | pair p => exact hnamed "PairIndirect(".toList (.pair p) (by decide)
    | increment p => exact hnamed "AutoIncrement(".toList (.pair p) (by decide)
    | decrement p => exact hnamed "AutoDecrement(".toList (.pair p) (by decide)
    | absolute | highByte | highRegister => exact Code.isLine_fixed (by decide)
  | _ => exact Code.isLine_fixed (by decide)

theorem ListedOperand.isLine_describe {text : String} (h : Text.IsLine text) :
    Text.IsLine (ListedOperand.ofText text).describe := by
  unfold describe
  split
  · exact AddressingMode.isLine_describe _
  · exact h

namespace Record

variable {r : Record} (h : r.IsLine)

include h

theorem IsLine.instruction : Text.IsLine r.instruction := by
  unfold Record.instruction
  split
  · exact h.mnemonic
  · exact isLine_append.2 ⟨isLine_append.2 ⟨h.mnemonic, Code.isLine_fixed (by decide)⟩, h.operands⟩

theorem IsLine.operandList : ∀ o ∈ r.operandList, Text.IsLine o := by
  intro o ho
  unfold Record.operandList at ho
  split at ho
  · cases ho
  · obtain ⟨piece, hpiece, rfl⟩ := List.mem_map.1 ho
    exact isLine_trim (isLine_pieces h.operands piece hpiece)

end Record

namespace ListedOpcode

variable {s : Settings} {e : Entry} {l : ListedOpcode}

theorem isLine_columns (he : ∀ r, e.slot = .record r → r.IsLine) (h : ofEntry s e = .ok l) :
    Text.IsLine l.columns := by
  obtain ⟨arm, -, h⟩ := bind_eq_ok h
  split at h
  · cases h
    exact (by decide : Text.IsLine (padRight 14 "<reserved>" ++ " " ++ padRight 6 "1"))
  · next r hr =>
    have hline := he r hr
    obtain ⟨ticks, -, h⟩ := bind_eq_ok h
    obtain ⟨flags, -, h⟩ := bind_eq_ok h
    cases h
    simp only [columns, ofParts, Option.elim_some, isLine_append]
    refine ⟨⟨⟨⟨isLine_padRight _ hline.instruction, ?_⟩, isLine_padRight _ (CycleCost.isLine_render _)⟩, ?_⟩, ?_⟩
    · exact Code.isLine_fixed (by decide)
    · exact Code.isLine_fixed (by decide)
    · refine isLine_intercalate (Code.isLine_fixed (by decide)) fun t ht => ?_
      simp only [List.map_map, List.mem_map] at ht
      obtain ⟨o, ho, rfl⟩ := ht
      exact ListedOperand.isLine_describe (hline.operandList o ho)

/-- The line that a listing starts an opcode with. -/
def firstLine (l : ListedOpcode) : String := l.opcode.render ++ "  " ++ l.columns

theorem isLine_firstLine (h : Text.IsLine l.columns) : Text.IsLine l.firstLine :=
  isLine_append.2 ⟨isLine_append.2 ⟨Numeral.isLine_hex _ _, Code.isLine_fixed (by decide)⟩, h⟩

end ListedOpcode

namespace Listing

theorem mem_of_ofAnswers {s : Settings} {answers : List (Except Fault Entry)} {ls : List ListedOpcode}
    (h : ofAnswers s answers = .ok ls) : ∀ l ∈ ls, ∃ e, .ok e ∈ answers ∧ ListedOpcode.ofEntry s e = .ok l := by
  induction answers generalizing ls with
  | nil =>
    cases h
    simp
  | cons answer answers ih =>
    obtain ⟨e, he, h⟩ := bind_eq_ok h
    obtain ⟨l, hl, h⟩ := bind_eq_ok h
    obtain ⟨ls, hls, h⟩ := bind_eq_ok h
    cases h
    intro l' hl'
    rcases List.mem_cons.1 hl' with rfl | hl'
    · exact ⟨e, by simp [he], hl⟩
    · obtain ⟨e', he', hl'⟩ := ih hls l' hl'
      exact ⟨e', List.mem_cons_of_mem _ he', hl'⟩

theorem isLine_columns {s : Settings} {table : List UInt8} {R : OpcodeSet} {lenient : Bool} {ls : List ListedOpcode}
    (h : ofAnswers s (TableReader.ofTable table R lenient).all = .ok ls) : ∀ l ∈ ls, Text.IsLine l.columns := by
  intro l hl
  obtain ⟨e, he, hof⟩ := mem_of_ofAnswers h l hl
  refine ListedOpcode.isLine_columns (fun r hr => ?_) hof
  obtain ⟨op, slot⟩ := e
  subst hr
  exact TableReader.isLine_of_table he

/-! ### The lines of a listing -/

/-- The lines of the text of a listing. -/
def lines (arms : Bool) (ls : List ListedOpcode) : List String :=
  ls.flatMap fun l => l.firstLine :: if arms then ["      " ++ l.arm] else []

theorem render_eq (arms : Bool) (ls : List ListedOpcode) :
    render arms ls = String.join ((lines arms ls).map (· ++ "\n")) := by
  induction ls with
  | nil => rfl
  | cons l ls ih =>
    have hcons : lines arms (l :: ls) = (l.firstLine :: if arms then ["      " ++ l.arm] else []) ++ lines arms ls :=
      rfl
    rw [hcons, List.map_append, String.join_append, ← ih, render, List.map_cons, String.join_cons, ← render]
    refine congrArg (· ++ render arms ls) ?_
    cases arms with
    | false => simp [ListedOpcode.renderLines, ListedOpcode.firstLine]
    | true =>
      have hbreak : "\n      " ++ (l.arm ++ "\n") = "\n" ++ ("      " ++ (l.arm ++ "\n")) := by
        rw [← String.append_assoc]
        rfl
      simp [ListedOpcode.renderLines, ListedOpcode.firstLine, String.append_assoc, hbreak]

/-- The text of a listing is its lines, if nothing in them breaks a line. -/
theorem pieces_render {arms : Bool} {ls : List ListedOpcode} (hcolumns : ∀ l ∈ ls, Text.IsLine l.columns)
    (harms : ∀ l ∈ ls, Text.IsLine l.arm) : Text.pieces '\n' (render arms ls) = lines arms ls ++ [""] := by
  rw [render_eq]
  refine Text.pieces_ended fun line hline => ?_
  obtain ⟨l, hl, hline⟩ := List.mem_flatMap.1 hline
  have hfirst := ListedOpcode.isLine_firstLine (hcolumns l hl)
  have hsecond : Text.IsLine ("      " ++ l.arm) := isLine_append.2 ⟨Code.isLine_fixed (by decide), harms l hl⟩
  cases arms with
  | false =>
    obtain rfl : line = l.firstLine := by simpa using hline
    exact hfirst
  | true =>
    obtain rfl | rfl : line = l.firstLine ∨ line = "      " ++ l.arm := by simpa using hline
    · exact hfirst
    · exact hsecond

theorem length_lines_false (ls : List ListedOpcode) : (lines false ls).length = ls.length := by
  simp [lines, List.map_const']

theorem length_lines_true (ls : List ListedOpcode) : (lines true ls).length = 2 * ls.length := by
  induction ls with
  | nil => rfl
  | cons l ls ih =>
    have hcons : lines true (l :: ls) = l.firstLine :: ("      " ++ l.arm) :: lines true ls := rfl
    rw [hcons, List.length_cons, List.length_cons, List.length_cons, ih]
    omega

/-- Every second line is an arm. -/
theorem getElem?_lines_true (ls : List ListedOpcode) (i : Nat) :
    (lines true ls)[2 * i + 1]? = ls[i]?.map fun l => "      " ++ l.arm := by
  induction ls generalizing i with
  | nil => rfl
  | cons l ls ih =>
    have hcons : lines true (l :: ls) = l.firstLine :: ("      " ++ l.arm) :: lines true ls := rfl
    rw [hcons]
    cases i with
    | zero => rfl
    | succ i => exact ih i

end Listing
end OpcodeDispatch
