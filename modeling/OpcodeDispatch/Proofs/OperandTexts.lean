import Mathlib.Data.List.Nodup
import OpcodeDispatch.Proofs.Spelling

/-!
The texts of operands, read exactly. A text names a mode just if it is spelled so, up to white space
around it. So it names one mode at most, no mode but the immediate word has a second spelling, and a
text that is wrong in a blank, a case, a parenthesis or a sign names none.
-/

namespace OpcodeDispatch
namespace AddressingMode

def isMark (c : Char) : Bool := ['(', ')', '+', '-'].contains c

/-- The parentheses and signs of a text. -/
def marks (s : String) : List Char := s.toList.filter isMark

/-- The parentheses and signs in the spellings of a mode. -/
def frame : AddressingMode → List Char
  | stackOffset => ['+']
  | indirect (.increment _) => ['(', '+', ')']
  | indirect (.decrement _) => ['(', '-', ')']
  | indirect _ => ['(', ')']
  | _ => []

/-- The first text is the second without one of its parentheses or signs. -/
def LacksMark (s t : String) : Prop :=
  ∃ i < t.toList.length, t.toList[i]?.any isMark = true ∧ s.toList = t.toList.eraseIdx i

instance (s t : String) : Decidable (LacksMark s t) := inferInstanceAs (Decidable (∃ i < _, _))

/-- The places where the pair of a place moves as well. -/
def moving : AddressingMode → List AddressingMode
  | indirect (.pair p) => [indirect (.increment p), indirect (.decrement p)]
  | _ => []

/-! ### Spellings -/

section

variable {m m' : AddressingMode} {s s' : String}

theorem eq_of_mem_spellings (h : s ∈ m.spellings) (h' : s ∈ m'.spellings) : m = m' :=
  Option.some.inj ((parse?_spelling h).symm.trans (parse?_spelling h'))

theorem spelling_eq (hm : m ≠ immediateWord) (h : s ∈ m.spellings) (h' : s' ∈ m.spellings) : s = s' := by
  have hsingle : ∀ m : AddressingMode, m ≠ immediateWord → m.spellings.length = 1 := by decide
  obtain ⟨only, honly⟩ := List.length_eq_one_iff.1 (hsingle m hm)
  rw [honly, List.mem_singleton] at h h'
  rw [h, h']

theorem isSpace_of_spelling (h : s ∈ m.spellings) : ∀ c ∈ s.toList, Text.isSpace c = false := by
  have hchars : ∀ m : AddressingMode, ∀ s ∈ m.spellings, s.toList.any Text.isSpace = false := by decide +kernel
  intro c hc
  exact Bool.eq_false_iff.2 (List.any_eq_false.1 (hchars m s h) c hc)

theorem marks_spelling (h : s ∈ m.spellings) : marks s = m.frame := by
  have hmarks : ∀ m : AddressingMode, ∀ s ∈ m.spellings, marks s = m.frame := by decide +kernel
  exact hmarks m s h

/-- No two spellings differ in the case of letters alone. -/
theorem spelling_of_lower (h : s ∈ m.spellings) (h' : s' ∈ m'.spellings) (hcase : Text.lower s = Text.lower s') :
    s = s' := by
  have hnodup : ((all.flatMap spellings).map Text.lower).Nodup := by decide +kernel
  have hmem : ∀ {m : AddressingMode} {s}, s ∈ m.spellings → s ∈ all.flatMap spellings := fun hs =>
    List.mem_flatMap.2 ⟨_, mem_all _, hs⟩
  exact List.inj_on_of_nodup_map hnodup (hmem h) (hmem h') hcase

theorem mem_moving_of_lacksMark (h : s ∈ m.spellings) (h' : s' ∈ m'.spellings) (hmark : LacksMark s s') :
    m' ∈ m.moving := by
  have hslips : ∀ m m' : AddressingMode, ∀ s ∈ m.spellings, ∀ s' ∈ m'.spellings, LacksMark s s' → m' ∈ m.moving := by
    decide +kernel
  exact hslips m m' s h s' h' hmark

end

/-! ### Texts -/

theorem parse?_eq_none {t : String} : parse? t = none ↔ ∀ m : AddressingMode, Text.trim t ∉ m.spellings := by
  rw [Option.eq_none_iff_forall_ne_some]
  exact forall_congr' fun m => not_congr parse?_eq_some

/-- What comes of a text, and of the texts that are wrong in one respect. -/
structure ReadExactly (t : String) : Prop where
  named : ∀ m, parse? t = some m ↔ Text.trim t ∈ m.spellings
  refused : parse? t = none ↔ ∀ m : AddressingMode, Text.trim t ∉ m.spellings
  one_mode : ∀ m m' : AddressingMode, Text.trim t ∈ m.spellings → Text.trim t ∈ m'.spellings → m = m'
  one_spelling : ∀ u m, parse? t = some m → parse? u = some m → Text.trim t = Text.trim u ∨ m = immediateWord
  no_space : (∃ c ∈ (Text.trim t).toList, Text.isSpace c = true) → parse? t = none
  one_case : ∀ u, Text.lower (Text.trim t) = Text.lower (Text.trim u) → Text.trim t ≠ Text.trim u →
    (parse? u).isSome = true → parse? t = none
  /-- the parentheses and signs are those of the mode, no more and no fewer -/
  framed : ∀ m, parse? t = some m → marks (Text.trim t) = m.frame
  /-- one parenthesis or sign more or less is wrong, but for the sign of a pair that moves -/
  slip : ∀ u m m', parse? t = some m → parse? u = some m' → LacksMark (Text.trim t) (Text.trim u) → m' ∈ m.moving

/-- Operands are read exactly, whatever their text. -/
theorem readExactly (t : String) : ReadExactly t where
  named m := parse?_eq_some
  refused := parse?_eq_none
  one_mode m m' := eq_of_mem_spellings
  one_spelling u m ht hu := by
    rw [parse?_eq_some] at ht hu
    by_cases hm : m = immediateWord
    · exact .inr hm
    · exact .inl (spelling_eq hm ht hu)
  no_space := by
    rintro ⟨c, hc, hspace⟩
    refine parse?_eq_none.2 fun m hm => ?_
    have hchar := isSpace_of_spelling hm c hc
    rw [hspace] at hchar
    cases hchar
  one_case u hcase hne hu := by
    obtain ⟨m', hm'⟩ := Option.isSome_iff_exists.1 hu
    exact parse?_eq_none.2 fun m hm => hne (spelling_of_lower hm (parse?_eq_some.1 hm') hcase)
  framed m hm := marks_spelling (parse?_eq_some.1 hm)
  slip u m m' hm hm' := mem_moving_of_lacksMark (parse?_eq_some.1 hm) (parse?_eq_some.1 hm')

end AddressingMode
end OpcodeDispatch
