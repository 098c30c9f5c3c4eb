import OpcodeDispatch.Proofs.LineBytes
import OpcodeDispatch.Proofs.Words

/-!
Texts up to white space. What is read of a line does not depend on the white space around it, nor on
how much there is between two words, nor on any around the commas between operands.
-/

namespace OpcodeDispatch
namespace Text

/-- The text is empty or begins with white space, so that a word ends before it. -/
def StartsBlank (s : String) : Prop := ∀ c, s.toList.head? = some c → isSpace c = true

instance (s : String) : Decidable (StartsBlank s) :=
  decidable_of_iff (s.toList.head?.all isSpace = true) (by
    unfold StartsBlank
    cases s.toList.head? <;> simp)

variable {a b s t w : String} {cs ds : List Char}

theorem isBlank_iff : isBlank s = true ↔ ∀ c ∈ s.toList, isSpace c = true := List.all_eq_true

theorem startsBlank_of_isBlank (h : isBlank a = true) (ha : a ≠ "") (s : String) : StartsBlank (a ++ s) := by
  intro c hc
  rw [String.toList_append] at hc
  cases hcs : a.toList with
  | nil => exact absurd (String.ext_iff.2 hcs) ha
  | cons d ds =>
    rw [hcs] at hc
    cases hc
    exact isBlank_iff.1 h c (by simp [hcs])

/-! ### Trimming -/

theorem trimLeft_blank (h : ∀ c ∈ cs, isSpace c = true) : trimLeft (cs ++ ds) = trimLeft ds :=
  List.dropWhile_append_of_pos h

theorem trimRight_blank (h : ∀ c ∈ ds, isSpace c = true) : trimRight (cs ++ ds) = trimRight cs := by
  rw [trimRight_eq, trimRight_eq, List.reverse_append, trimLeft_blank (by simpa using h)]

theorem trimLeft_append_blank (h : ∀ c ∈ ds, isSpace c = true) :
    trimRight (trimLeft (cs ++ ds)) = trimRight (trimLeft cs) := by
  rw [trimLeft, List.dropWhile_append]
  split
  · next hcs =>
    have hds : trimLeft (ds ++ []) = trimLeft [] := trimLeft_blank h
    rw [List.append_nil] at hds
    rw [← trimLeft, hds, trimLeft, trimLeft, List.isEmpty_iff.1 hcs]
    rfl
  · exact trimRight_blank h

theorem trim_padded (ha : isBlank a = true) (hb : isBlank b = true) (s : String) : trim (a ++ s ++ b) = trim s := by
  rw [trim, trim, String.toList_append, String.toList_append, trimLeft_append_blank (isBlank_iff.1 hb),
    trimLeft_blank (isBlank_iff.1 ha)]

theorem isBlank_padded (ha : isBlank a = true) (hb : isBlank b = true) (s : String) :
    isBlank (a ++ s ++ b) = isBlank s := by
  rw [isBlank_append, isBlank_append, ha, hb, Bool.true_and, Bool.and_true]

theorem exists_trimRight (cs : List Char) : ∃ ds, (∀ c ∈ ds, isSpace c = true) ∧ cs = trimRight cs ++ ds := by
  refine ⟨(cs.reverse.takeWhile isSpace).reverse, fun c hc => ?_, ?_⟩
  · exact List.all_eq_true.1 List.all_takeWhile c (List.mem_reverse.1 hc)
  · rw [trimRight, ← List.reverse_append, List.takeWhile_append_dropWhile, List.reverse_reverse]

theorem exists_trim (s : String) : ∃ a b, isBlank a = true ∧ isBlank b = true ∧ s = a ++ trim s ++ b := by
  obtain ⟨ds, hds, hright⟩ := exists_trimRight (trimLeft s.toList)
  refine ⟨String.ofList (s.toList.takeWhile isSpace), String.ofList ds, ?_, ?_, ?_⟩
  · rw [isBlank_iff, String.toList_ofList]
    exact List.all_eq_true.1 List.all_takeWhile
  · rw [isBlank_iff, String.toList_ofList]
    exact hds
  · rw [String.ext_iff, trim, String.toList_append, String.toList_append, String.toList_ofList, String.toList_ofList,
      String.toList_ofList, List.append_assoc, ← hright]
    exact List.takeWhile_append_dropWhile.symm

theorem trim_eq_empty : trim s = "" ↔ isBlank s = true := by
  obtain ⟨a, b, ha, hb, hs⟩ := exists_trim s
  constructor
  · intro h
    rw [hs, isBlank_padded ha hb, h]
    rfl
  · intro h
    have htrim := trim_padded h (b := "") rfl ""
    rwa [String.append_empty, String.append_empty] at htrim

/-! ### Words -/

theorem words_blank (ha : isBlank a = true) (s : String) : words (a ++ s) = words s := by
  have hchars : ∀ cs : List Char, (∀ c ∈ cs, isSpace c = true) → ∀ ds : List Char,
      ((cs ++ ds).splitOnP isSpace).filter (!·.isEmpty) = (ds.splitOnP isSpace).filter (!·.isEmpty) := by
    intro cs hcs ds
    induction cs with
    | nil => rfl
    | cons c cs ih =>
      rw [List.cons_append, List.splitOnP_cons_eq_if_modifyHead, if_pos (hcs c (by simp)), List.filter_cons,
        if_neg (by simp), ih fun d hd => hcs d (by simp [hd])]
  rw [words, words, String.toList_append, hchars _ (isBlank_iff.1 ha)]

theorem words_append_of_startsBlank (h : StartsBlank t) (s : String) : words (s ++ t) = words s ++ words t := by
  cases ht : t.toList with
  | nil =>
    obtain rfl : t = "" := String.ext_iff.2 ht
    simp [words_empty]
  | cons c cs =>
    have hc : isSpace c = true := h c (by simp [ht])
    have hsplit : words t = ((cs.splitOnP isSpace).filter (!·.isEmpty)).map String.ofList := by
      rw [words, ht, List.splitOnP_cons_eq_if_modifyHead, if_pos hc, List.filter_cons, if_neg (by simp)]
    rw [hsplit, words, words, String.toList_append, ht, List.splitOnP_append_cons _ _ hc, List.filter_append,
      List.map_append]

theorem words_gap (ha : isBlank a = true) (hne : a ≠ "") (s t : String) :
    words (s ++ a ++ t) = words s ++ words t := by
  rw [String.append_assoc, words_append_of_startsBlank (startsBlank_of_isBlank ha hne t), words_blank ha]

theorem words_append_blank (hb : isBlank b = true) (s : String) : words (s ++ b) = words s := by
  by_cases hne : b = ""
  · rw [hne, String.append_empty]
  · have hgap := words_gap hb hne s ""
    simpa [words_empty] using hgap

theorem words_padded (ha : isBlank a = true) (hb : isBlank b = true) (s : String) :
    words (a ++ s ++ b) = words s := by
  rw [words_append_blank hb, words_blank ha]

theorem IsWord.words_opening (hw : IsWord w) (ha : isBlank a = true) (ht : StartsBlank t) :
    Text.words (a ++ w ++ t) = w :: Text.words t := by
  rw [words_append_of_startsBlank ht, words_blank ha, hw.words]
  rfl

/-! ### The cut after the first word -/

theorem trimRight_append_of_ne (h : trimRight ds ≠ []) : trimRight (cs ++ ds) = cs ++ trimRight ds := by
  obtain ⟨es, hes, hds⟩ := exists_trimRight ds
  rw [hds, ← List.append_assoc, trimRight_blank hes, trimRight_append h (trimRight_trimRight ds), trimRight_blank hes,
    trimRight_trimRight]

theorem IsWord.cutAtSpace_chars (hw : IsWord w) {c : Char} (hc : isSpace c = true) (cs : List Char) :
    Text.cutAtSpace (String.ofList (w.toList ++ c :: cs)) = (w, String.ofList cs) := by
  have hall : ∀ c ∈ w.toList, (!isSpace c) = true := fun c hc => by simp [hw.2 c hc]
  rw [Text.cutAtSpace, String.toList_ofList, List.takeWhile_append_of_pos hall, List.dropWhile_append_of_pos hall]
  simp [hc]

/-- The first word of a text, and what is left after it. -/
theorem IsWord.cut_trim (hw : IsWord w) (ha : isBlank a = true) (ht : StartsBlank t) :
    ∃ y, Text.cutAtSpace (Text.trim (a ++ w ++ t)) = (w, y) ∧ Text.trim y = Text.trim t := by
  have hleft : Text.trim (a ++ w ++ t) = Text.trim (w ++ t) := by
    have hpadded := Text.trim_padded ha (b := "") rfl (w ++ t)
    rwa [String.append_empty, ← String.append_assoc] at hpadded
  have hchars : Text.trim (w ++ t) = String.ofList (trimRight (w.toList ++ t.toList)) := by
    rw [Text.trim, String.toList_append, trimLeft_append hw.toList_ne_nil (trimLeft_of_head hw.head)]
  rw [hleft]
  by_cases hright : trimRight t.toList = []
  · -- nothing but white space follows the word
    obtain ⟨ds, hds, hblank⟩ := exists_trimRight t.toList
    rw [hright, List.nil_append] at hblank
    have htblank : isBlank t = true := isBlank_iff.2 (hblank ▸ hds)
    refine ⟨"", ?_, ?_⟩
    · have hpadded := Text.trim_padded (a := "") rfl htblank w
      rw [String.empty_append] at hpadded
      rw [hpadded, hw.trim, hw.cutAtSpace]
    · rw [trim_eq_empty.2 htblank]
      rfl
  · obtain ⟨ds, hds, htail⟩ := exists_trimRight t.toList
    obtain ⟨c, cs, hcs⟩ := List.exists_cons_of_ne_nil hright
    have hc : isSpace c = true := ht c (by rw [htail, hcs]; rfl)
    refine ⟨String.ofList cs, ?_, ?_⟩
    · rw [hchars, trimRight_append_of_ne hright, hcs, hw.cutAtSpace_chars hc]
    · have hdrop : trimLeft (c :: cs) = trimLeft cs := List.dropWhile_cons_of_pos hc
      rw [Text.trim, Text.trim, String.toList_ofList, htail, trimLeft_append_blank hds, hcs, hdrop]

/-! ### Case -/

theorem isSpace_toUpper (c : Char) : isSpace c.toUpper = isSpace c := by
  cases hc : c.isLower with
  | false => rw [toUpper_of_not_isLower hc]
  | true =>
    have hascii : c.toNat < 128 := by
      refine Decidable.byContradiction fun hrange => ?_
      rw [isLower_eq_false.2 fun h => hrange (Nat.lt_of_le_of_lt (UInt32.le_iff_toNat_le.1 h.2) (by decide))] at hc
      cases hc
    exact forall_ascii (P := fun c => isSpace c.toUpper = isSpace c) (by decide) hascii

/-- A word in another case is a word. -/
theorem IsWord.of_upper {w' : String} (hw : IsWord w) (h : upper w' = upper w) : IsWord w' := by
  have hchars : w'.toList.map Char.toUpper = w.toList.map Char.toUpper := by
    simpa [upper, String.ext_iff] using h
  refine ⟨fun hnil => hw.toList_ne_nil ?_, fun c hc => ?_⟩
  · rw [hnil] at hchars
    simpa using hchars.symm
  · have hmem : c.toUpper ∈ w.toList.map Char.toUpper := hchars ▸ List.mem_map_of_mem hc
    obtain ⟨d, hd, hcd⟩ := List.mem_map.1 hmem
    rw [← isSpace_toUpper, ← hcd, isSpace_toUpper]
    exact hw.2 d hd

/-! ### Operands -/

/-- The operands in a text, as a record has them. -/
def operandTexts (s : String) : List String := if isBlank s then [] else (pieces ',' s).map trim

theorem pieces_blank_left (ha : isBlank a = true) (s : String) :
    (pieces ',' (a ++ s)).map trim = (pieces ',' s).map trim := by
  have hchars : ∀ cs : List Char, (∀ c ∈ cs, isSpace c = true) → ∀ ds : List Char,
      ∃ first rest, ds.splitOn ',' = first :: rest ∧ (cs ++ ds).splitOn ',' = (cs ++ first) :: rest := by
    intro cs hcs ds
    obtain ⟨first, rest, hsplit⟩ := List.exists_cons_of_ne_nil (List.splitOn_ne_nil ',' ds)
    refine ⟨first, rest, hsplit, ?_⟩
    induction cs with
    | nil => exact hsplit
    | cons c cs ih =>
      have hc : (c == ',') = false := by
        refine beq_false_of_ne fun hc => ?_
        have hspace := hcs c (by simp)
        rw [hc] at hspace
        exact absurd hspace (by decide)
      rw [List.cons_append, List.splitOn_cons_eq_if_modifyHead, hc, if_neg Bool.false_ne_true,
        ih fun d hd => hcs d (by simp [hd])]
      rfl
  obtain ⟨first, rest, hs, has⟩ := hchars a.toList (isBlank_iff.1 ha) s.toList
  have htrim := trim_padded ha (b := "") rfl (String.ofList first)
  rw [pieces, pieces, String.toList_append, has, hs]
  simp only [List.map_cons, String.append_empty, String.ofList_append, String.ofList_toList] at htrim ⊢
  rw [htrim]

theorem pieces_blank_right (hb : isBlank b = true) (s : String) :
    (pieces ',' (s ++ b)).map trim = (pieces ',' s).map trim := by
  have hcomma : ',' ∉ b.toList := fun h => absurd (isBlank_iff.1 hb _ h) (by decide)
  have hchars : ∀ cs : List Char, ∃ init last, cs.splitOn ',' = init ++ [last] ∧
      (cs ++ b.toList).splitOn ',' = init ++ [last ++ b.toList] := by
    intro cs
    induction cs with
    | nil => exact ⟨[], [], rfl, List.splitOn_eq_singleton hcomma⟩
    | cons c cs ih =>
      obtain ⟨init, last, hcs, hb⟩ := ih
      rw [List.cons_append, List.splitOn_cons_eq_if_modifyHead, List.splitOn_cons_eq_if_modifyHead, hcs, hb]
      split
      · exact ⟨[] :: init, last, rfl, rfl⟩
      · cases init with
        | nil => exact ⟨[], c :: last, rfl, rfl⟩
        | cons first init => exact ⟨(c :: first) :: init, last, rfl, rfl⟩
  obtain ⟨init, last, hs, hsb⟩ := hchars s.toList
  have htrim := trim_padded (a := "") rfl hb (String.ofList last)
  rw [pieces, pieces, String.toList_append, hsb, hs]
  simp only [List.map_append, List.map_cons, List.map_nil, String.empty_append, String.ofList_append,
    String.ofList_toList] at htrim ⊢
  rw [htrim]

theorem operandTexts_padded (ha : isBlank a = true) (hb : isBlank b = true) (s : String) :
    operandTexts (a ++ s ++ b) = operandTexts s := by
  rw [operandTexts, operandTexts, isBlank_padded ha hb, pieces_blank_right hb, pieces_blank_left ha]

theorem operandTexts_blank (ha : isBlank a = true) (s : String) : operandTexts (a ++ s) = operandTexts s := by
  have hpadded := operandTexts_padded ha (b := "") rfl s
  rwa [String.append_empty] at hpadded

theorem operandTexts_trim (s : String) : operandTexts (trim s) = operandTexts s := by
  obtain ⟨a, b, ha, hb, hs⟩ := exists_trim s
  have hpadded := operandTexts_padded ha hb (trim s)
  rw [← hs] at hpadded
  exact hpadded.symm

theorem operandTexts_of_trim (h : trim s = trim t) : operandTexts s = operandTexts t := by
  rw [← operandTexts_trim, h, operandTexts_trim]

/-- White space around a comma is nothing to the operands. -/
theorem operandTexts_comma (ha : isBlank a = true) (hb : isBlank b = true) (s t : String) :
    operandTexts (s ++ a ++ "," ++ (b ++ t)) = operandTexts (s ++ "," ++ t) := by
  have hblank : ∀ u v : String, isBlank (u ++ "," ++ v) = false := by
    intro u v
    rw [isBlank_append, isBlank_append, show isBlank "," = false by decide]
    simp
  have hpieces : ∀ u v : String, pieces ',' (u ++ "," ++ v) = pieces ',' u ++ pieces ',' v := by
    intro u v
    have hlist : (u ++ "," ++ v).toList = u.toList ++ ',' :: v.toList := by simp
    rw [pieces, hlist, List.splitOn_append_cons_self, List.map_append]
    rfl
  simp only [operandTexts, hblank, hpieces, List.map_append, pieces_blank_right ha, pieces_blank_left hb]

end Text

/-- The operands of a record, from the head of its lines. -/
theorem Record.operandList_ofLines (op : Opcode) (line : Nat) (head cycles flags : String) :
    (Record.ofLines op line head cycles flags).operandList =
      Text.operandTexts (Text.cutAtSpace (Text.trim head)).2 := by
  rw [← Text.operandTexts_trim]
  have hblank : Text.trim (Text.cutAtSpace (Text.trim head)).2 = "" ↔
      Text.isBlank (Text.trim (Text.cutAtSpace (Text.trim head)).2) = true := by
    rw [← Text.trim_eq_empty, Text.trimmed_trim]
  simp only [Record.operandList, Record.ofLines, Text.operandTexts, hblank]

end OpcodeDispatch
