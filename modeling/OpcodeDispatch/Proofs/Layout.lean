import Mathlib.Data.List.Forall2
import Mathlib.Logic.Relation
import OpcodeDispatch.Proofs.OneLine
import OpcodeDispatch.Proofs.Padding

/-!
Edits of a table's layout, and what they leave alone. A table that compiles holds its records in
chunks of four lines, so an edit of a record is one of the lines at its place among the four. `Alike`
says of two lists of lines that the same is read from both of them.
-/

namespace OpcodeDispatch
namespace Layout

open Text (isBlank words trim cutAtSpace upper operandTexts IsWord IsLine StartsBlank)

/-! ### Edits -/

/-- White space within a line. -/
def Gap (g : String) : Prop := isBlank g = true ∧ IsLine g

instance (g : String) : Decidable (Gap g) := inferInstanceAs (Decidable (_ ∧ _))

/-- A line with other white space at its ends. -/
inductive Padded : String → String → Prop
  | intro {a a' b b' : String} (ha : Gap a) (ha' : Gap a') (hb : Gap b) (hb' : Gap b') (s : String) :
      Padded (a ++ s ++ b) (a' ++ s ++ b')

/-- The head of a record with its mnemonic in another case, with other white space behind the mnemonic, or
with other white space around a comma between the operands. -/
inductive HeadEdit : String → String → Prop
  | case {a m m' t : String} (ha : Gap a) (hm : IsWord m) (ht : StartsBlank t) (hcase : upper m' = upper m) :
      HeadEdit (a ++ m ++ t) (a ++ m' ++ t)
  | gap {a m g g' : String} (ha : Gap a) (hm : IsWord m) (hg : Gap g) (hne : g ≠ "") (hg' : Gap g')
      (hne' : g' ≠ "") (operands : String) : HeadEdit (a ++ m ++ (g ++ operands)) (a ++ m ++ (g' ++ operands))
  | comma {a m g b b' c c' : String} (ha : Gap a) (hm : IsWord m) (hg : Gap g) (hne : g ≠ "") (hb : Gap b)
      (hb' : Gap b') (hc : Gap c) (hc' : Gap c') (x y : String) :
      HeadEdit (a ++ m ++ (g ++ (x ++ b ++ "," ++ (c ++ y)))) (a ++ m ++ (g ++ (x ++ b' ++ "," ++ (c' ++ y))))

/-- The cycle line of a record with another first token, with other white space between two tokens, or
with something else behind its second token. -/
inductive CyclesEdit : String → String → Prop
  | label {a w w' t : String} (ha : Gap a) (hw : IsWord w) (hw' : IsWord w') (ht : StartsBlank t) :
      CyclesEdit (a ++ w ++ t) (a ++ w' ++ t)
  | gap {g g' : String} (hg : Gap g) (hne : g ≠ "") (hg' : Gap g') (hne' : g' ≠ "") (x y : String) :
      CyclesEdit (x ++ g ++ y) (x ++ g' ++ y)
  | more {x t t' : String} (hx : 2 ≤ (words x).length) (ht : StartsBlank t) (ht' : StartsBlank t')
      (hl : IsLine t') : CyclesEdit (x ++ t) (x ++ t')

/-- One edit of the layout. -/
inductive Edit : List String → List String → Prop
  | spaces {ls ls' : List String} (h : List.Forall₂ Padded ls ls') : Edit ls ls'
  | head {h h' : String} (hh : HeadEdit h h') (ls : List String) : Edit (h :: ls) (h' :: ls)
  | cycles {h c c' : String} (hh : isBlank h = false) (hc : CyclesEdit c c') (ls : List String) :
      Edit (h :: c :: ls) (h :: c' :: ls)
  /-- any flags line in the place of another one -/
  | flags {h f' : String} (hh : isBlank h = false) (hf' : IsLine f') (c f : String) (ls : List String) :
      Edit (h :: c :: f :: ls) (h :: c :: f' :: ls)
  /-- an edit behind the first record -/
  | later {ls ls' : List String} (h : Edit ls ls') (head cycles flags blank : String) :
      Edit (head :: cycles :: flags :: blank :: ls) (head :: cycles :: flags :: blank :: ls')

/-! ### Edited lines are lines -/

theorem isLine_padded {l l' : String} (h : Padded l l') (hl : IsLine l) : IsLine l' := by
  cases h with
  | intro ha ha' hb hb' s =>
    simp only [Text.isLine_append] at hl ⊢
    exact ⟨⟨ha'.2, hl.1.2⟩, hb'.2⟩

theorem isLine_head {h h' : String} (he : HeadEdit h h') (hl : IsLine h) : IsLine h' := by
  cases he with
  | case ha hm ht hcase =>
    simp only [Text.isLine_append] at hl ⊢
    exact ⟨⟨hl.1.1, (hm.of_upper hcase).newline_not_mem⟩, hl.2⟩
  | gap ha hm hg hne hg' hne' operands =>
    simp only [Text.isLine_append] at hl ⊢
    exact ⟨hl.1, hg'.2, hl.2.2⟩
  | comma ha hm hg hne hb hb' hc hc' x y =>
    simp only [Text.isLine_append] at hl ⊢
    exact ⟨hl.1, hl.2.1, ⟨⟨hl.2.2.1.1.1, hb'.2⟩, hl.2.2.1.2⟩, hc'.2, hl.2.2.2.2⟩

theorem isLine_cycles {c c' : String} (he : CyclesEdit c c') (hl : IsLine c) : IsLine c' := by
  cases he with
  | label ha hw hw' ht =>
    simp only [Text.isLine_append] at hl ⊢
    exact ⟨⟨hl.1.1, hw'.newline_not_mem⟩, hl.2⟩
  | gap hg hne hg' hne' x y =>
    simp only [Text.isLine_append] at hl ⊢
    exact ⟨⟨hl.1.1, hg'.2⟩, hl.2⟩
  | more hx ht ht' hl' => exact Text.isLine_append.2 ⟨(Text.isLine_append.1 hl).1, hl'⟩

theorem Edit.isLine {ls ls' : List String} (h : Edit ls ls') (hls : ∀ l ∈ ls, IsLine l) :
    ∀ l ∈ ls', IsLine l := by
  induction h with
  | spaces h =>
    induction h with
    | nil => exact hls
    | cons hl h ih =>
      simp only [List.forall_mem_cons] at hls ⊢
      exact ⟨isLine_padded hl hls.1, ih hls.2⟩
  | head hh ls =>
    simp only [List.forall_mem_cons] at hls ⊢
    exact ⟨isLine_head hh hls.1, hls.2⟩
  | cycles hh hc ls =>
    simp only [List.forall_mem_cons] at hls ⊢
    exact ⟨hls.1, isLine_cycles hc hls.2.1, hls.2.2⟩
  | flags hh hf' c f ls =>
    simp only [List.forall_mem_cons] at hls ⊢
    exact ⟨hls.1, hls.2.1, hf', hls.2.2.2⟩
  | later h head cycles flags blank ih =>
    simp only [List.forall_mem_cons] at hls ⊢
    exact ⟨hls.1, hls.2.1, hls.2.2.1, hls.2.2.2.1, ih hls.2.2.2.2⟩

/-! ### What is read of a head -/

/-- Two heads of which the same is read. -/
structure SameHead (h h' : String) : Prop where
  left : isBlank h = false
  right : isBlank h' = false
  word : (words h).head?.map upper = (words h').head?.map upper
  mnemonic : upper (cutAtSpace (trim h)).1 = upper (cutAtSpace (trim h')).1
  operands : operandTexts (cutAtSpace (trim h)).2 = operandTexts (cutAtSpace (trim h')).2

section

variable {h h' h'' : String}

theorem SameHead.refl (hh : isBlank h = false) : SameHead h h := ⟨hh, hh, rfl, rfl, rfl⟩

theorem SameHead.trans (hs : SameHead h h') (hs' : SameHead h' h'') : SameHead h h'' :=
  ⟨hs.left, hs'.right, hs.word.trans hs'.word, hs.mnemonic.trans hs'.mnemonic,
    hs.operands.trans hs'.operands⟩

/-- Of a head are read its first word and the operands behind it. -/
theorem SameHead.of_opening {a m t m' t' : String} (ha : Gap a) (hm : IsWord m) (hm' : IsWord m') (ht : StartsBlank t)
    (ht' : StartsBlank t') (hcase : upper m = upper m') (hops : operandTexts t = operandTexts t') :
    SameHead (a ++ m ++ t) (a ++ m' ++ t') := by
  obtain ⟨y, hcut, htrim⟩ := hm.cut_trim ha.1 ht
  obtain ⟨y', hcut', htrim'⟩ := hm'.cut_trim ha.1 ht'
  constructor
  case left => rw [String.append_assoc, Text.isBlank_append, hm.not_isBlank, Bool.and_false]
  case right => rw [String.append_assoc, Text.isBlank_append, hm'.not_isBlank, Bool.and_false]
  case word => simp [hm.words_opening ha.1 ht, hm'.words_opening ha.1 ht', hcase]
  case mnemonic => rw [hcut, hcut', hcase]
  case operands =>
    rw [hcut, hcut', Text.operandTexts_of_trim htrim, hops, Text.operandTexts_of_trim htrim']

theorem HeadEdit.same (he : HeadEdit h h') : SameHead h h' := by
  cases he with
  | case ha hm ht hcase => exact .of_opening ha hm (hm.of_upper hcase) ht ht hcase.symm rfl
  | gap ha hm hg hne hg' hne' operands =>
    have ht := Text.startsBlank_of_isBlank hg.1 hne operands
    have ht' := Text.startsBlank_of_isBlank hg'.1 hne' operands
    refine .of_opening ha hm hm ht ht' rfl ?_
    rw [Text.operandTexts_blank hg.1, Text.operandTexts_blank hg'.1]
  | comma ha hm hg hne hb hb' hc hc' x y =>
    have ht := Text.startsBlank_of_isBlank hg.1 hne
    refine .of_opening ha hm hm (ht _) (ht _) rfl ?_
    rw [Text.operandTexts_blank hg.1, Text.operandTexts_blank hg.1, Text.operandTexts_comma hb.1 hc.1,
      Text.operandTexts_comma hb'.1 hc'.1]

theorem Padded.same (hp : Padded h h') (hh : isBlank h = false) : SameHead h h' := by
  cases hp with
  | intro ha ha' hb hb' s =>
    have hs : isBlank s = false := by rwa [Text.isBlank_padded ha.1 hb.1] at hh
    constructor
    case left => exact hh
    case right => rwa [Text.isBlank_padded ha'.1 hb'.1]
    case word => rw [Text.words_padded ha.1 hb.1, Text.words_padded ha'.1 hb'.1]
    case mnemonic => rw [Text.trim_padded ha.1 hb.1, Text.trim_padded ha'.1 hb'.1]
    case operands => rw [Text.trim_padded ha.1 hb.1, Text.trim_padded ha'.1 hb'.1]

theorem Padded.isBlank_eq (hp : Padded h h') : isBlank h = isBlank h' := by
  cases hp with
  | intro ha ha' hb hb' s => rw [Text.isBlank_padded ha.1 hb.1, Text.isBlank_padded ha'.1 hb'.1]

end

/-! ### What is read of a cycle line -/

/-- Two cycle lines with the same second token. -/
def SameCycles (c c' : String) : Prop := (words c)[1]? = (words c')[1]?

section

variable {c c' c'' : String}

theorem SameCycles.trans (hs : SameCycles c c') (hs' : SameCycles c' c'') : SameCycles c c'' := Eq.trans hs hs'

theorem CyclesEdit.same (he : CyclesEdit c c') : SameCycles c c' := by
  unfold SameCycles
  cases he with
  | label ha hw hw' ht => rw [hw.words_opening ha.1 ht, hw'.words_opening ha.1 ht]; rfl
  | gap hg hne hg' hne' x y => rw [Text.words_gap hg.1 hne, Text.words_gap hg'.1 hne']
  | more hx ht ht' hl =>
    rw [Text.words_append_of_startsBlank ht, Text.words_append_of_startsBlank ht', List.getElem?_append_left hx,
      List.getElem?_append_left hx]

theorem Padded.sameCycles (hp : Padded c c') : SameCycles c c' := by
  cases hp with
  | intro ha ha' hb hb' s => rw [SameCycles, Text.words_padded ha.1 hb.1, Text.words_padded ha'.1 hb'.1]

end

/-! ### What is read of a table -/

/-- Lines of which the same is read: chunks of four lines that agree one by one, and blank lines. The last
chunk may lack its blank line. -/
inductive Alike : List String → List String → Prop
  | blanks {ls ls' : List String} (h : ∀ l ∈ ls, isBlank l = true) (h' : ∀ l ∈ ls', isBlank l = true) :
      Alike ls ls'
  | last {h c f h' c' f' : String} (hh : SameHead h h') (hc : SameCycles c c') : Alike [h, c, f] [h', c', f']
  | record {h c f b h' c' f' b' : String} {ls ls' : List String} (hh : SameHead h h') (hc : SameCycles c c')
      (hb : isBlank b = true) (hb' : isBlank b' = true) (ht : Alike ls ls') :
      Alike (h :: c :: f :: b :: ls) (h' :: c' :: f' :: b' :: ls')

section

variable {ls₀ ls ls' : List String}

theorem blank_of_padded (h : List.Forall₂ Padded ls ls') (hls : ∀ l ∈ ls, isBlank l = true) :
    ∀ l ∈ ls', isBlank l = true := by
  induction h with
  | nil => exact hls
  | cons hp h ih =>
    simp only [List.forall_mem_cons] at hls ⊢
    exact ⟨hp.isBlank_eq ▸ hls.1, ih hls.2⟩

/-- No record stands among blank lines, so they stay blank. -/
theorem Edit.blank (he : Edit ls ls') (hls : ∀ l ∈ ls, isBlank l = true) : ∀ l ∈ ls', isBlank l = true := by
  induction he with
  | spaces h => exact blank_of_padded h hls
  | head hh ls =>
    have hblank := hls _ List.mem_cons_self
    simp [hh.same.left] at hblank
  | cycles hh hc ls =>
    have hblank := hls _ List.mem_cons_self
    simp [hh] at hblank
  | flags hh hf' c f ls =>
    have hblank := hls _ List.mem_cons_self
    simp [hh] at hblank
  | later h head cycles flags blank ih =>
    simp only [List.forall_mem_cons] at hls ⊢
    exact ⟨hls.1, hls.2.1, hls.2.2.1, hls.2.2.2.1, ih hls.2.2.2.2⟩

theorem Alike.spaces (ha : Alike ls₀ ls) (h : List.Forall₂ Padded ls ls') : Alike ls₀ ls' := by
  induction ha generalizing ls' with
  | blanks h₀ h₁ => exact .blanks h₀ (blank_of_padded h h₁)
  | last hh hc =>
    rcases h with _ | ⟨hp, _ | ⟨hp', _ | ⟨-, _ | _⟩⟩⟩
    exact .last (hh.trans (hp.same hh.right)) (hc.trans hp'.sameCycles)
  | record hh hc hb hb' ht ih =>
    rcases h with _ | ⟨hp, _ | ⟨hp', _ | ⟨-, _ | ⟨hp'', h⟩⟩⟩⟩
    exact .record (hh.trans (hp.same hh.right)) (hc.trans hp'.sameCycles) hb (hp''.isBlank_eq ▸ hb') (ih h)

/-- An edit leaves alone what is read. -/
theorem Alike.edit (he : Edit ls ls') (ha : Alike ls₀ ls) : Alike ls₀ ls' := by
  induction he generalizing ls₀ with
  | spaces h => exact ha.spaces h
  | head hh ls =>
    cases ha with
    | blanks h₀ h₁ => exact .blanks h₀ (Edit.blank (.head hh ls) h₁)
    | last hh₀ hc => exact .last (hh₀.trans hh.same) hc
    | record hh₀ hc hb hb' ht => exact .record (hh₀.trans hh.same) hc hb hb' ht
  | cycles hh hc ls =>
    cases ha with
    | blanks h₀ h₁ => exact .blanks h₀ (Edit.blank (.cycles hh hc ls) h₁)
    | last hh hc₀ => exact .last hh (hc₀.trans hc.same)
    | record hh hc₀ hb hb' ht => exact .record hh (hc₀.trans hc.same) hb hb' ht
  | flags hh hf' c f ls =>
    cases ha with
    | blanks h₀ h₁ => exact .blanks h₀ (Edit.blank (.flags hh hf' c f ls) h₁)
    | last hh hc => exact .last hh hc
    | record hh hc hb hb' ht => exact .record hh hc hb hb' ht
  | later he head cycles flags blank ih =>
    cases ha with
    | blanks h₀ h₁ => exact .blanks h₀ (Edit.blank (.later he head cycles flags blank) h₁)
    | record hh hc hb hb' ht => exact .record hh hc hb hb' (ih ht)

theorem Alike.edits (he : Relation.ReflTransGen Edit ls ls') (ha : Alike ls₀ ls) : Alike ls₀ ls' := by
  induction he with
  | refl => exact ha
  | tail _ h ih => exact ih.edit h

theorem isLine_of_edits (he : Relation.ReflTransGen Edit ls ls') (hls : ∀ l ∈ ls, IsLine l) :
    ∀ l ∈ ls', IsLine l := by
  induction he with
  | refl => exact hls
  | tail _ h ih => exact h.isLine ih

end

end Layout
end OpcodeDispatch
