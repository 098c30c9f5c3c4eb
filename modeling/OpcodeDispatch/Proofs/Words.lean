import OpcodeDispatch.Table.Cursor

/-!
Words and trimmed texts, and what the reader of a record makes of a line that is put together from
them.
-/

namespace OpcodeDispatch
namespace Text

/-- Some text, none of it white space. -/
def IsWord (s : String) : Prop := s ≠ "" ∧ ∀ c ∈ s.toList, isSpace c = false

instance (s : String) : Decidable (IsWord s) :=
  decidable_of_iff (s ≠ "" ∧ s.toList.all (!isSpace ·) = true) (by simp [IsWord])

/-- Text without white space at either end. -/
def Trimmed (s : String) : Prop := trim s = s

instance (s : String) : Decidable (Trimmed s) := inferInstanceAs (Decidable (_ = _))

/-- What is checked for each of the ASCII characters. -/
theorem forall_ascii {P : Char → Prop} (h : ∀ n < 128, P (Char.ofNat n)) {c : Char} (hc : c.toNat < 128) : P c := by
  have hchar := h c.toNat hc
  rwa [Char.ofNat_toNat] at hchar

/-! ### Trimming -/

section

variable {cs ds : List Char}

theorem trimLeft_of_head (h : ∀ c, cs.head? = some c → isSpace c = false) : trimLeft cs = cs := by
  cases cs with
  | nil => rfl
  | cons c cs => rw [trimLeft, List.dropWhile_cons, h c rfl, if_neg Bool.false_ne_true]

theorem head_trimLeft (cs : List Char) : ∀ c, (trimLeft cs).head? = some c → isSpace c = false := by
  intro c hc
  have hne : cs.dropWhile isSpace ≠ [] := by
    intro hnil
    rw [trimLeft, hnil] at hc
    cases hc
  have := List.head_dropWhile_not isSpace hne
  rw [trimLeft, List.head?_eq_some_head hne] at hc
  rwa [Option.some.inj hc] at this

theorem head_of_trimLeft (h : trimLeft cs = cs) : ∀ c, cs.head? = some c → isSpace c = false := by
  rw [← h]
  exact head_trimLeft cs

theorem trimLeft_trimLeft (cs : List Char) : trimLeft (trimLeft cs) = trimLeft cs :=
  trimLeft_of_head (head_trimLeft cs)

theorem trimLeft_append (hne : cs ≠ []) (h : trimLeft cs = cs) : trimLeft (cs ++ ds) = cs ++ ds := by
  refine trimLeft_of_head fun c hc => head_of_trimLeft h c ?_
  cases cs with
  | nil => exact absurd rfl hne
  | cons c cs => exact hc

theorem trimRight_eq (cs : List Char) : trimRight cs = (trimLeft cs.reverse).reverse := rfl

theorem trimRight_of_last (h : ∀ c, cs.getLast? = some c → isSpace c = false) : trimRight cs = cs := by
  rw [trimRight_eq, trimLeft_of_head (by simpa using h), List.reverse_reverse]

theorem last_of_trimRight (h : trimRight cs = cs) : ∀ c, cs.getLast? = some c → isSpace c = false := by
  rw [trimRight_eq, List.reverse_eq_iff] at h
  simpa using head_of_trimLeft h

theorem trimRight_append (hne : ds ≠ []) (h : trimRight ds = ds) : trimRight (cs ++ ds) = cs ++ ds := by
  rw [trimRight_eq, List.reverse_eq_iff] at h
  rw [trimRight_eq, List.reverse_append, trimLeft_append (by simpa using hne) h, List.reverse_append,
    List.reverse_reverse, List.reverse_reverse]

theorem trimRight_concat_space {c : Char} (hc : isSpace c = true) : trimRight (cs ++ [c]) = trimRight cs := by
  rw [trimRight_eq, List.reverse_concat, trimLeft, List.dropWhile_cons, hc, if_pos rfl]
  rfl

theorem trimRight_isPrefix (cs : List Char) : trimRight cs <+: cs := by
  rw [← List.reverse_suffix, trimRight, List.reverse_reverse]
  exact List.dropWhile_suffix isSpace

theorem trimRight_trimRight (cs : List Char) : trimRight (trimRight cs) = trimRight cs := by
  rw [trimRight_eq, trimRight_eq, List.reverse_reverse, trimLeft_trimLeft]

theorem trimLeft_trimRight (cs : List Char) : trimLeft (trimRight (trimLeft cs)) = trimRight (trimLeft cs) := by
  refine trimLeft_of_head fun c hc => head_trimLeft cs c ?_
  obtain ⟨ds, hds⟩ := trimRight_isPrefix (trimLeft cs)
  rw [← hds, List.head?_append, hc]
  rfl

end

theorem Trimmed.ends {s : String} (h : Trimmed s) :
    trimLeft s.toList = s.toList ∧ trimRight s.toList = s.toList := by
  have hlist : trimRight (trimLeft s.toList) = s.toList := by
    rw [Trimmed, trim, String.ext_iff, String.toList_ofList] at h
    exact h
  have hsuffix : trimLeft s.toList <:+ s.toList := List.dropWhile_suffix isSpace
  have hlength := (trimRight_isPrefix (trimLeft s.toList)).length_le
  rw [hlist] at hlength
  have hleft := hsuffix.eq_of_length (Nat.le_antisymm hsuffix.length_le hlength)
  rw [hleft] at hlist
  exact ⟨hleft, hlist⟩

theorem trimmed_trim (s : String) : Trimmed (trim s) := by
  rw [Trimmed, trim, trim, String.toList_ofList, trimLeft_trimRight, trimRight_trimRight]

theorem trim_eq {s : String} {cs : List Char} (hleft : trimLeft s.toList = s.toList)
    (hright : trimRight s.toList = cs) : trim s = String.ofList cs := by
  rw [trim, hleft, hright]

/-! ### Words -/

section

variable {w : String} (hw : IsWord w)

include hw

theorem IsWord.toList_ne_nil : w.toList ≠ [] := by
  intro h
  exact hw.1 (by rw [String.ext_iff, h]; rfl)

theorem IsWord.head : ∀ c, w.toList.head? = some c → isSpace c = false := fun c hc =>
  hw.2 c (List.mem_of_head? hc)

theorem IsWord.last : ∀ c, w.toList.getLast? = some c → isSpace c = false := fun c hc =>
  hw.2 c (List.mem_of_getLast? hc)

theorem IsWord.not_isBlank (s : String) : isBlank (w ++ s) = false := by
  cases h : w.toList with
  | nil => exact absurd h hw.toList_ne_nil
  | cons c cs => simp [isBlank, h, hw.2 c (by simp [h])]

theorem IsWord.newline_not_mem : '\n' ∉ w.toList := by
  intro h
  have := hw.2 _ h
  revert this
  decide

theorem IsWord.words : words w = [w] := by
  simp [Text.words, List.splitOnP_eq_singleton hw.2, hw.toList_ne_nil]

theorem IsWord.words_append {c : Char} (hc : isSpace c = true) (s : String) :
    Text.words (w ++ String.ofList (c :: s.toList)) = w :: Text.words s := by
  simp [Text.words, List.splitOnP_append_cons_of_forall_mem hw.2 c hc, hw.toList_ne_nil]

theorem IsWord.cutAtSpace : Text.cutAtSpace w = (w, "") := by
  have hall : ∀ c ∈ w.toList, (!isSpace c) = true := fun c hc => by simp [hw.2 c hc]
  have htake : w.toList.takeWhile (!isSpace ·) = w.toList := by
    rw [← List.append_nil w.toList, List.takeWhile_append_of_pos hall]
    rfl
  have hdrop : w.toList.dropWhile (!isSpace ·) = [] := by
    rw [← List.append_nil w.toList, List.dropWhile_append_of_pos hall]
    rfl
  rw [Text.cutAtSpace, htake, hdrop]
  simp

theorem IsWord.cutAtSpace_append (s : String) : Text.cutAtSpace (w ++ " " ++ s) = (w, s) := by
  have hall : ∀ c ∈ w.toList, (!isSpace c) = true := fun c hc => by simp [hw.2 c hc]
  have hlist : (w ++ " " ++ s).toList = w.toList ++ ' ' :: s.toList := by simp
  have hspace : isSpace ' ' = true := by decide
  rw [Text.cutAtSpace, hlist, List.takeWhile_append_of_pos hall, List.dropWhile_append_of_pos hall]
  simp [hspace]

theorem IsWord.trim : Text.trim w = w := by
  rw [trim_eq (trimLeft_of_head hw.head) (trimRight_of_last hw.last), String.ofList_toList]

theorem IsWord.trim_padded : Text.trim (w ++ " ") = w := by
  have hlist : (w ++ " ").toList = w.toList ++ [' '] := by simp
  have hleft : trimLeft (w ++ " ").toList = (w ++ " ").toList := by
    rw [hlist, trimLeft_append hw.toList_ne_nil (trimLeft_of_head hw.head)]
  have hright : trimRight (w ++ " ").toList = w.toList := by
    rw [hlist, trimRight_concat_space (by decide), trimRight_of_last hw.last]
  rw [trim_eq hleft hright, String.ofList_toList]

theorem IsWord.trim_append {s : String} (hs : Trimmed s) (hne : s ≠ "") :
    Text.trim (w ++ " " ++ s) = w ++ " " ++ s := by
  have hlist : (w ++ " " ++ s).toList = w.toList ++ ' ' :: s.toList := by simp
  have hsne : s.toList ≠ [] := by
    intro h
    exact hne (by rw [String.ext_iff, h]; rfl)
  have hleft : trimLeft (w ++ " " ++ s).toList = (w ++ " " ++ s).toList := by
    rw [hlist, trimLeft_append hw.toList_ne_nil (trimLeft_of_head hw.head)]
  have hright : trimRight (w ++ " " ++ s).toList = (w ++ " " ++ s).toList := by
    rw [hlist, List.append_cons, trimRight_append hsne hs.ends.2]
  rw [trim_eq hleft hright, String.ofList_toList]

end

theorem words_of_isBlank {s : String} (h : isBlank s = true) : words s = [] := by
  have hlist : ∀ cs : List Char, cs.all isSpace = true → (cs.splitOnP isSpace).filter (!·.isEmpty) = [] := by
    intro cs
    induction cs with
    | nil => intro _; rfl
    | cons c cs ih =>
      intro hcs
      rw [List.all_cons, Bool.and_eq_true] at hcs
      rw [List.splitOnP_cons_eq_if_modifyHead, if_pos hcs.1, List.filter_cons, if_neg (by simp)]
      exact ih hcs.2
  rw [words, hlist _ h, List.map_nil]

/-! ### Case -/

theorem isLower_eq_false {c : Char} : c.isLower = false ↔ ¬ ('a'.val ≤ c.val ∧ c.val ≤ 'z'.val) := by
  have hlower : c.isLower = (decide ('a'.val ≤ c.val) && decide (c.val ≤ 'z'.val)) := rfl
  rw [hlower, ← Bool.decide_and, decide_eq_false_iff_not]

theorem toUpper_of_not_isLower {c : Char} (h : c.isLower = false) : c.toUpper = c :=
  dif_neg (isLower_eq_false.1 h)

theorem upper_eq_self {s : String} (h : s.toList.any Char.isLower = false) : upper s = s := by
  have hs : ∀ c ∈ s.toList, c.toUpper = c := by
    intro c hc
    exact toUpper_of_not_isLower (by simpa using List.any_eq_false.1 h c hc)
  rw [upper, List.map_congr_left hs, List.map_id', String.ofList_toList]

theorem toUpper_of_isSpace {c : Char} (h : isSpace c = true) : c.toUpper = c := by
  have hspaces : ∀ n ∈ spaces, ¬ (97 ≤ n ∧ n ≤ 122) := by decide
  have hc := hspaces c.toNat (List.contains_iff_mem.1 h)
  exact toUpper_of_not_isLower (isLower_eq_false.2 hc)

end Text
end OpcodeDispatch
