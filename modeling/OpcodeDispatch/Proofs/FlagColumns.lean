import Mathlib.Data.List.Forall2
import OpcodeDispatch.Proofs.Padding
import OpcodeDispatch.Table.Record

/-!
Lines of flags, column by column. `Spread` says where the words of a text stand without splitting it. A
line is taken just if it has four words and each of them is a mark. The sets that are gathered stand for
the columns read so far (`Reflects`), so that at the end each flag is in the set of the mark in its own
column and in no other. Marks written for these sets give the same sets again.
-/

namespace OpcodeDispatch

/-! ### The words of a text -/

namespace Text

/-- The words stand in the text in this order, apart by white space. -/
inductive Spread : String → List String → Prop
  | blank {s : String} (h : isBlank s = true) : Spread s []
  | word {gap w rest : String} {ws : List String} (hgap : isBlank gap = true) (hw : IsWord w)
      (hrest : StartsBlank rest) (h : Spread rest ws) : Spread (gap ++ w ++ rest) (w :: ws)

variable {s : String} {ws : List String}

theorem Spread.words_eq (h : Spread s ws) : words s = ws := by
  induction h with
  | blank h => exact words_of_isBlank h
  | word hgap hw hrest h ih => rw [hw.words_opening hgap hrest, ih]

/-- A text that is not blank opens with a word. -/
theorem exists_opening (h : isBlank s = false) : ∃ gap w rest, isBlank gap = true ∧ IsWord w ∧ StartsBlank rest ∧
    s = gap ++ w ++ rest := by
  have hsplit : s.toList = s.toList.takeWhile isSpace ++ trimLeft s.toList := List.takeWhile_append_dropWhile.symm
  have hword : trimLeft s.toList =
      (trimLeft s.toList).takeWhile (!isSpace ·) ++ (trimLeft s.toList).dropWhile (!isSpace ·) :=
    List.takeWhile_append_dropWhile.symm
  refine ⟨String.ofList (s.toList.takeWhile isSpace), String.ofList ((trimLeft s.toList).takeWhile (!isSpace ·)),
    String.ofList ((trimLeft s.toList).dropWhile (!isSpace ·)), ?_, ⟨?_, ?_⟩, ?_, ?_⟩
  · rw [isBlank_iff, String.toList_ofList]
    exact List.all_eq_true.1 List.all_takeWhile
  · intro hempty
    rw [String.ext_iff, String.toList_ofList] at hempty
    cases hleft : trimLeft s.toList with
    | nil =>
      rw [hleft, List.append_nil] at hsplit
      have hblank : isBlank s = true := by
        rw [isBlank, hsplit]
        exact List.all_takeWhile
      rw [h] at hblank
      cases hblank
    | cons c cs =>
      have hc := head_trimLeft s.toList c (by rw [hleft]; rfl)
      rw [hleft, List.takeWhile_cons_of_pos (by simp [hc])] at hempty
      cases hempty
  · intro c hc
    rw [String.toList_ofList] at hc
    simpa using List.all_eq_true.1 List.all_takeWhile c hc
  · intro c hc
    rw [String.toList_ofList] at hc
    have hne : (trimLeft s.toList).dropWhile (!isSpace ·) ≠ [] := by
      intro hnil
      rw [hnil] at hc
      cases hc
    have hhead := List.head_dropWhile_not (!isSpace ·) hne
    rw [List.head?_eq_some_head hne] at hc
    rw [Option.some.inj hc] at hhead
    simpa using hhead
  · rw [String.ext_iff]
    simp only [String.toList_append, String.toList_ofList]
    rw [List.append_assoc, ← hword, ← hsplit]

theorem spread_words (s : String) : Spread s (words s) := by
  induction hn : s.length using Nat.strongRecOn generalizing s with
  | ind n ih =>
    cases hs : isBlank s with
    | true =>
      rw [words_of_isBlank hs]
      exact .blank hs
    | false =>
      obtain ⟨gap, w, rest, hgap, hw, hrest, rfl⟩ := exists_opening hs
      rw [hw.words_opening hgap hrest]
      refine .word hgap hw hrest (ih rest.length ?_ rest rfl)
      have hpos : 0 < w.toList.length := List.length_pos_iff.2 hw.toList_ne_nil
      rw [String.length_toList] at hpos
      rw [← hn, String.length_append, String.length_append]
      omega

theorem words_intercalate (h : ∀ w ∈ ws, IsWord w) : words (" ".intercalate ws) = ws := by
  induction ws with
  | nil => decide
  | cons w ws ih =>
    have hw := (h w List.mem_cons_self).words
    have hws := ih fun v hv => h v (List.mem_cons_of_mem w hv)
    cases ws with
    | nil => rw [String.intercalate_singleton, hw]
    | cons v ws =>
      rw [String.intercalate_cons_of_ne_nil (by simp), words_gap (by decide) (by decide), hw, hws]
      rfl

end Text

/-! ### The marks of the columns -/

namespace FlagEffects

variable {line token token' : String} {fx fx' : FlagEffects} {f g : Flag} {columns more : List (String × Flag)}

/-- One capital letter of ASCII. -/
def IsLetter (token : String) : Prop := ∃ c : Char, 'A' ≤ c ∧ c ≤ 'Z' ∧ token = String.singleton c

/-- A token that can stand in a column. -/
def IsMark (token : String) : Prop := token = "-" ∨ token = "0" ∨ token = "1" ∨ IsLetter token

theorem isUpper_iff {c : Char} : c.isUpper = true ↔ 'A' ≤ c ∧ c ≤ 'Z' := decide_eq_true_iff

theorem isLetter_iff : isLetter token = true ↔ IsLetter token := by
  rw [isLetter, Bool.and_eq_true, beq_iff_eq, ← String.length_toList, List.length_eq_one_iff]
  constructor
  · rintro ⟨⟨c, hc⟩, hall⟩
    rw [hc, List.all_cons, Bool.and_eq_true, isUpper_iff] at hall
    exact ⟨c, hall.1.1, hall.1.2, by rw [String.ext_iff, hc, String.toList_singleton]⟩
  · rintro ⟨c, hA, hZ, rfl⟩
    refine ⟨⟨c, String.toList_singleton c⟩, ?_⟩
    rw [String.toList_singleton, List.all_cons, List.all_nil, Bool.and_true]
    exact isUpper_iff.2 ⟨hA, hZ⟩

theorem IsLetter.ne (h : IsLetter token) (d : Char) (hd : d < 'A') : token ≠ String.singleton d := by
  obtain ⟨c, hA, -, rfl⟩ := h
  intro heq
  rw [String.ext_iff, String.toList_singleton, String.toList_singleton] at heq
  exact absurd hA (Char.not_le.2 ((List.cons.inj heq).1 ▸ hd))

theorem IsLetter.ne_dash (h : IsLetter token) : token ≠ "-" := h.ne '-' (by decide)

theorem IsLetter.ne_zero (h : IsLetter token) : token ≠ "0" := h.ne '0' (by decide)

theorem IsLetter.ne_one (h : IsLetter token) : token ≠ "1" := h.ne '1' (by decide)

/-! ### Reading one column -/

/-- What a token does to the sets when it stands in the column of a flag. -/
inductive Enters (fx : FlagEffects) (f : Flag) : String → FlagEffects → Prop
  | untouched : Enters fx f "-" fx
  | reset : Enters fx f "0" { fx with reset := fx.reset.union (.single f) }
  | set : Enters fx f "1" { fx with set := fx.set.union (.single f) }
  | computed {token : String} (h : IsLetter token) :
    Enters fx f token { fx with computed := fx.computed.union (.single f) }

theorem Enters.enter? (h : Enters fx f token fx') : fx.enter? token f = some fx' := by
  cases h with
  | untouched => rfl
  | reset => rfl
  | set => rfl
  | computed h =>
    rw [FlagEffects.enter?, if_neg h.ne_dash, if_neg h.ne_zero, if_neg h.ne_one, if_pos (isLetter_iff.2 h)]

theorem enters_of_enter? (h : fx.enter? token f = some fx') : Enters fx f token fx' := by
  unfold FlagEffects.enter? at h
  split at h
  · next hdash =>
    subst hdash
    cases h
    exact .untouched
  split at h
  · next hzero =>
    subst hzero
    cases h
    exact .reset
  split at h
  · next hone =>
    subst hone
    cases h
    exact .set
  split at h
  · next hletter =>
    cases h
    exact .computed (isLetter_iff.1 hletter)
  · cases h

theorem exists_enters : (∃ fx', Enters fx f token fx') ↔ IsMark token := by
  constructor
  · rintro ⟨fx', h⟩
    cases h with
    | untouched => exact .inl rfl
    | reset => exact .inr (.inl rfl)
    | set => exact .inr (.inr (.inl rfl))
    | computed h => exact .inr (.inr (.inr h))
  · rintro (rfl | rfl | rfl | h)
    · exact ⟨_, .untouched⟩
    · exact ⟨_, .reset⟩
    · exact ⟨_, .set⟩
    · exact ⟨_, .computed h⟩

/-! ### Reading the columns in turn -/

/-- The sets hold the flags of the columns with their marks, and no others. -/
structure Reflects (fx : FlagEffects) (columns : List (String × Flag)) : Prop where
  reset : ∀ f, f ∈ fx.reset ↔ ("0", f) ∈ columns
  set : ∀ f, f ∈ fx.set ↔ ("1", f) ∈ columns
  computed : ∀ f, f ∈ fx.computed ↔ ∃ token, IsLetter token ∧ (token, f) ∈ columns

theorem reflects_start : Reflects start [] where
  reset f := iff_of_false (Flags.not_mem_empty f) List.not_mem_nil
  set f := iff_of_false (Flags.not_mem_empty f) List.not_mem_nil
  computed f := iff_of_false (Flags.not_mem_empty f) fun ⟨_, _, h⟩ => List.not_mem_nil h

theorem mem_snoc_other (h : token ≠ token') : (token, f) ∈ columns ++ [(token', g)] ↔ (token, f) ∈ columns := by
  rw [List.mem_append, List.mem_singleton, or_iff_left]
  intro heq
  exact h (Prod.mk.inj heq).1

theorem mem_union_single {s : Flags} (h : f ∈ s ↔ (token, f) ∈ columns) :
    f ∈ s.union (.single g) ↔ (token, f) ∈ columns ++ [(token, g)] := by
  rw [Flags.mem_union, Flags.mem_single, List.mem_append, List.mem_singleton, h, Prod.mk.injEq,
    and_iff_right rfl]

theorem letter_snoc_other (h : ¬IsLetter token') :
    (∃ token, IsLetter token ∧ (token, f) ∈ columns ++ [(token', g)]) ↔
      ∃ token, IsLetter token ∧ (token, f) ∈ columns :=
  exists_congr fun _ => and_congr_right fun hletter => mem_snoc_other fun heq => h (heq ▸ hletter)

theorem Reflects.enter (h : Reflects fx columns) (he : Enters fx f token fx') :
    Reflects fx' (columns ++ [(token, f)]) := by
  cases he with
  | untouched =>
    constructor
    · exact fun g => (h.reset g).trans (mem_snoc_other (by decide)).symm
    · exact fun g => (h.set g).trans (mem_snoc_other (by decide)).symm
    · exact fun g => (h.computed g).trans (letter_snoc_other (fun h => h.ne_dash rfl)).symm
  | reset =>
    constructor
    · exact fun g => mem_union_single (h.reset g)
    · exact fun g => (h.set g).trans (mem_snoc_other (by decide)).symm
    · exact fun g => (h.computed g).trans (letter_snoc_other (fun h => h.ne_zero rfl)).symm
  | set =>
    constructor
    · exact fun g => (h.reset g).trans (mem_snoc_other (by decide)).symm
    · exact fun g => mem_union_single (h.set g)
    · exact fun g => (h.computed g).trans (letter_snoc_other (fun h => h.ne_one rfl)).symm
  | computed hletter =>
    constructor
    · exact fun g => (h.reset g).trans (mem_snoc_other hletter.ne_zero.symm).symm
    · exact fun g => (h.set g).trans (mem_snoc_other hletter.ne_one.symm).symm
    · intro g
      rw [Flags.mem_union, Flags.mem_single, h.computed]
      constructor
      · rintro (⟨token', hletter', hmem⟩ | rfl)
        · exact ⟨token', hletter', List.mem_append_left _ hmem⟩
        · exact ⟨token, hletter, List.mem_append_right _ (List.mem_singleton.2 rfl)⟩
      · rintro ⟨token', hletter', hmem⟩
        rcases List.mem_append.1 hmem with hmem | hmem
        · exact .inl ⟨token', hletter', hmem⟩
        · exact .inr (Prod.mk.inj (List.mem_singleton.1 hmem)).2

theorem Reflects.enterAll (h : Reflects fx columns) (he : fx.enterAll? more = some fx') :
    Reflects fx' (columns ++ more) := by
  induction more generalizing fx columns with
  | nil =>
    cases he
    rwa [List.append_nil]
  | cons column more ih =>
    rw [enterAll?, List.foldlM_cons] at he
    obtain ⟨fx₁, hfirst, hrest⟩ := Option.bind_eq_some_iff.1 he
    rw [List.append_cons]
    exact ih (h.enter (enters_of_enter? hfirst)) hrest

theorem exists_enterAll? : (∃ fx', fx.enterAll? columns = some fx') ↔ ∀ c ∈ columns, IsMark c.1 := by
  induction columns generalizing fx with
  | nil => exact iff_of_true ⟨fx, rfl⟩ nofun
  | cons column columns ih =>
    rw [List.forall_mem_cons, ← @exists_enters column.1 fx column.2]
    constructor
    · rintro ⟨fx', h⟩
      rw [enterAll?, List.foldlM_cons] at h
      obtain ⟨fx₁, hfirst, hrest⟩ := Option.bind_eq_some_iff.1 h
      exact ⟨⟨fx₁, enters_of_enter? hfirst⟩, ih.1 ⟨fx', hrest⟩⟩
    · rintro ⟨⟨fx₁, hfirst⟩, hrest⟩
      obtain ⟨fx', hfx'⟩ := (@ih fx₁).2 hrest
      refine ⟨fx', ?_⟩
      rw [enterAll?, List.foldlM_cons, hfirst.enter?]
      exact hfx'

/-- The columns determine the sets. -/
theorem Reflects.unique (h : Reflects fx columns) (h' : Reflects fx' columns) : fx = fx' := by
  have hreset : fx.reset = fx'.reset := Flags.ext fun f => (h.reset f).trans (h'.reset f).symm
  have hset : fx.set = fx'.set := Flags.ext fun f => (h.set f).trans (h'.set f).symm
  have hcomputed : fx.computed = fx'.computed := Flags.ext fun f => (h.computed f).trans (h'.computed f).symm
  cases fx
  cases fx'
  cases hreset
  cases hset
  cases hcomputed
  rfl

/-! ### One column for each flag -/

variable {tokens : List String} {i : Nat}

theorem mem_columns (hf : Flag.all[i]? = some f) (htoken : tokens[i]? = some token) :
    (token', f) ∈ tokens.zip Flag.all ↔ token' = token := by
  have hnodup : Flag.all.Nodup := by decide
  rw [List.mem_iff_getElem?]
  constructor
  · rintro ⟨j, hj⟩
    obtain ⟨htoken', hf'⟩ := List.getElem?_zip_eq_some.1 hj
    obtain ⟨hi, -⟩ := List.getElem?_eq_some_iff.1 hf
    obtain rfl := (List.getElem?_inj hi hnodup).1 (hf.trans hf'.symm)
    exact Option.some.inj (htoken'.symm.trans htoken)
  · rintro rfl
    exact ⟨i, List.getElem?_zip_eq_some.2 ⟨htoken, hf⟩⟩

theorem exists_column (h : tokens.length = 4) (f : Flag) :
    ∃ (i : Nat) (token : String), Flag.all[i]? = some f ∧ tokens[i]? = some token := by
  obtain ⟨i, hf⟩ := List.mem_iff_getElem?.1 f.mem_all
  obtain ⟨hi, -⟩ := List.getElem?_eq_some_iff.1 hf
  have hi' : i < tokens.length := h ▸ hi
  exact ⟨i, tokens[i], hf, List.getElem?_eq_getElem hi'⟩

/-- In which sets a flag is, by the token of its column. -/
theorem Reflects.column (h : Reflects fx (tokens.zip Flag.all)) (hf : Flag.all[i]? = some f)
    (htoken : tokens[i]? = some token) :
    (f ∈ fx.reset ↔ token = "0") ∧ (f ∈ fx.set ↔ token = "1") ∧ (f ∈ fx.computed ↔ IsLetter token) := by
  rw [h.reset, h.set, h.computed, mem_columns hf htoken, mem_columns hf htoken]
  refine ⟨eq_comm, eq_comm, ?_⟩
  constructor
  · rintro ⟨token', hletter, hmem⟩
    rwa [(mem_columns hf htoken).1 hmem] at hletter
  · exact fun hletter => ⟨token, hletter, (mem_columns hf htoken).2 rfl⟩

/-- The mark of a flag; a computed flag is marked by its own letter. -/
def mark (fx : FlagEffects) (f : Flag) : String :=
  if f ∈ fx.reset then "0" else if f ∈ fx.set then "1" else if f ∈ fx.computed then f.name else "-"

/-- One token for each flag. -/
def marks (fx : FlagEffects) : List String := Flag.all.map fx.mark

/-- The marks of the flags, with a blank between two of them. -/
def render (fx : FlagEffects) : String := " ".intercalate fx.marks

theorem isLetter_name (f : Flag) : IsLetter f.name := by
  rw [← isLetter_iff]
  cases f <;> rfl

theorem isWord_mark (fx : FlagEffects) (f : Flag) : Text.IsWord (fx.mark f) := by
  unfold mark
  split
  · decide
  split
  · decide
  split
  · cases f <;> decide
  · decide

theorem words_render (fx : FlagEffects) : Text.words fx.render = fx.marks := by
  refine Text.words_intercalate fun w hw => ?_
  obtain ⟨f, -, rfl⟩ := List.mem_map.1 hw
  exact isWord_mark fx f

/-- A flag is marked by the token of its column, or by its own letter for another letter. -/
theorem Reflects.mark_or (h : Reflects fx (tokens.zip Flag.all)) (hf : Flag.all[i]? = some f)
    (htoken : tokens[i]? = some token) (hmark : IsMark token) :
    fx.mark f = token ∨ IsLetter (fx.mark f) ∧ IsLetter token := by
  obtain ⟨hreset, hset, hcomputed⟩ := h.column hf htoken
  obtain rfl | rfl | rfl | hletter := hmark
  · left
    rw [mark, if_neg fun hr => absurd (hreset.1 hr) (by decide), if_neg fun hs => absurd (hset.1 hs) (by decide),
      if_neg fun hc => (hcomputed.1 hc).ne_dash rfl]
  · exact .inl (if_pos (hreset.2 rfl))
  · left
    rw [mark, if_neg fun hr => absurd (hreset.1 hr) (by decide), if_pos (hset.2 rfl)]
  · right
    rw [mark, if_neg fun hr => hletter.ne_zero (hreset.1 hr), if_neg fun hs => hletter.ne_one (hset.1 hs),
      if_pos (hcomputed.2 hletter)]
    exact ⟨isLetter_name f, hletter⟩

/-- The columns that are written have the marks of the columns that were read. -/
theorem Reflects.marks (h : Reflects fx (tokens.zip Flag.all)) (hlength : tokens.length = 4)
    (hmarks : ∀ token ∈ tokens, IsMark token) : Reflects fx (fx.marks.zip Flag.all) := by
  have hsame : ∀ f, (f ∈ fx.reset ↔ fx.mark f = "0") ∧ (f ∈ fx.set ↔ fx.mark f = "1") ∧
      (f ∈ fx.computed ↔ IsLetter (fx.mark f)) := by
    intro f
    obtain ⟨i, token, hf, htoken⟩ := exists_column hlength f
    obtain ⟨hreset, hset, hcomputed⟩ := h.column hf htoken
    rw [hreset, hset, hcomputed]
    obtain heq | ⟨hmark, hletter⟩ := h.mark_or hf htoken (hmarks token (List.mem_of_getElem? htoken))
    · rw [heq]
      exact ⟨Iff.rfl, Iff.rfl, Iff.rfl⟩
    · exact ⟨iff_of_false hletter.ne_zero hmark.ne_zero, iff_of_false hletter.ne_one hmark.ne_one,
        iff_of_true hletter hmark⟩
  have hmem : ∀ token f, (token, f) ∈ fx.marks.zip Flag.all ↔ token = fx.mark f := by
    intro token f
    obtain ⟨i, hi⟩ := List.mem_iff_getElem?.1 f.mem_all
    exact mem_columns hi (by rw [FlagEffects.marks, List.getElem?_map, hi]; rfl)
  constructor
  · intro f
    rw [hmem, (hsame f).1, eq_comm]
  · intro f
    rw [hmem, (hsame f).2.1, eq_comm]
  · intro f
    rw [(hsame f).2.2]
    constructor
    · exact fun hletter => ⟨_, hletter, (hmem _ f).2 rfl⟩
    · rintro ⟨token, hletter, htoken⟩
      rwa [(hmem token f).1 htoken] at hletter

theorem parse?_of_length (h : (Text.words line).length = 4) :
    parse? line = start.enterAll? ((Text.words line).zip Flag.all) := if_pos h

/-- A line is taken just if there are four words and each is a mark. -/
theorem exists_parse? : (∃ fx, parse? line = some fx) ↔
    (Text.words line).length = 4 ∧ ∀ token ∈ Text.words line, IsMark token := by
  by_cases hlength : (Text.words line).length = 4
  · have hmap : ((Text.words line).zip Flag.all).map Prod.fst = Text.words line :=
      List.map_fst_zip (Nat.le_of_eq hlength)
    rw [parse?_of_length hlength, exists_enterAll?, and_iff_right hlength]
    conv => rhs; rw [← hmap]
    rw [List.forall_mem_map]
  · exact iff_of_false (fun ⟨fx, h⟩ => by rw [parse?, if_neg hlength] at h; cases h) fun h => hlength h.1

theorem reflects_of_parse? (h : parse? line = some fx) : Reflects fx ((Text.words line).zip Flag.all) := by
  obtain ⟨hlength, -⟩ := exists_parse?.1 ⟨fx, h⟩
  rw [parse?_of_length hlength] at h
  exact reflects_start.enterAll h

/-- The marks of what was read, in a text that may be spaced otherwise, are read the same way. -/
theorem parse?_marks {again : String} (h : parse? line = some fx) (hagain : Text.words again = fx.marks) :
    parse? again = some fx := by
  obtain ⟨hlength, hmarks⟩ := exists_parse?.1 ⟨fx, h⟩
  have hwritten := (reflects_of_parse? h).marks hlength hmarks
  have hread : ∃ fx', parse? again = some fx' := by
    rw [exists_parse?, hagain]
    refine ⟨rfl, fun token htoken => ?_⟩
    obtain ⟨f, -, rfl⟩ := List.mem_map.1 htoken
    obtain ⟨i, token, hf, htoken⟩ := exists_column hlength f
    obtain heq | ⟨hmark, -⟩ :=
      (reflects_of_parse? h).mark_or hf htoken (hmarks token (List.mem_of_getElem? htoken))
    · exact heq ▸ hmarks token (List.mem_of_getElem? htoken)
    · exact .inr (.inr (.inr hmark))
  obtain ⟨fx', hfx'⟩ := hread
  have hreflects := reflects_of_parse? hfx'
  rw [hagain] at hreflects
  rw [hfx', hreflects.unique hwritten]

/-- What is read of a line. -/
structure Decodes (line : String) : Prop where
  taken : (∃ fx, parse? line = some fx) ↔
    ∃ tokens, Text.Spread line tokens ∧ tokens.length = 4 ∧ ∀ token ∈ tokens, IsMark token
  read : ∀ r : Record, r.flags = line → ∀ fx, r.flagEffects = .ok fx ↔ parse? line = some fx
  refused : parse? line = none → ∀ r : Record, r.flags = line → r.flagEffects = .error (.badFlags line)
  column : ∀ fx, parse? line = some fx → ∀ tokens, Text.Spread line tokens →
    ∀ (i : Nat) f token, [Flag.zero, .subtract, .halfCarry, .carry][i]? = some f → tokens[i]? = some token →
      (f ∈ fx.reset ↔ token = "0") ∧ (f ∈ fx.set ↔ token = "1") ∧ (f ∈ fx.computed ↔ IsLetter token) ∧
      (f ∈ fx.affected ↔ token ≠ "-")
  disjoint : ∀ fx, parse? line = some fx → fx.reset.bits &&& fx.set.bits = 0 ∧
    fx.reset.bits &&& fx.computed.bits = 0 ∧ fx.set.bits &&& fx.computed.bits = 0
  /-- no other bit is affected than those of the flags with a mark -/
  affected : ∀ fx, parse? line = some fx → ∀ tokens, Text.Spread line tokens → ∀ n,
    fx.affected.bits.getLsbD n = true ↔
      ∃ (i : Nat) (f : Flag) (token : String),
        [Flag.zero, .subtract, .halfCarry, .carry][i]? = some f ∧ tokens[i]? = some token ∧ f.index = n ∧ token ≠ "-"
  written : ∀ fx, parse? line = some fx → parse? fx.render = some fx
  spaced : ∀ fx, parse? line = some fx → ∀ again, Text.Spread again fx.marks → parse? again = some fx

theorem affected_iff (h : (f ∈ fx.reset ↔ token = "0") ∧ (f ∈ fx.set ↔ token = "1") ∧
    (f ∈ fx.computed ↔ IsLetter token)) (hmark : IsMark token) : f ∈ fx.affected ↔ token ≠ "-" := by
  obtain ⟨hreset, hset, hcomputed⟩ := h
  rw [mem_affected, hreset, hset, hcomputed]
  constructor
  · rintro (rfl | rfl | hletter)
    · decide
    · decide
    · exact hletter.ne_dash
  · exact hmark.resolve_left

/-- Where a flag of a line is, by the token of its column. -/
theorem column_of_parse? (h : parse? line = some fx) (hspread : Text.Spread line tokens)
    (hf : Flag.all[i]? = some f) (htoken : tokens[i]? = some token) :
    (f ∈ fx.reset ↔ token = "0") ∧ (f ∈ fx.set ↔ token = "1") ∧ (f ∈ fx.computed ↔ IsLetter token) ∧
      (f ∈ fx.affected ↔ token ≠ "-") := by
  rw [← hspread.words_eq] at htoken
  have hcolumn := (reflects_of_parse? h).column hf htoken
  have hmark := (exists_parse?.1 ⟨fx, h⟩).2 token (List.mem_of_getElem? htoken)
  exact ⟨hcolumn.1, hcolumn.2.1, hcolumn.2.2, affected_iff hcolumn hmark⟩

/-- A flag is in no two of the sets. -/
theorem disjoint_of_parse? (h : parse? line = some fx) :
    (∀ f ∈ fx.reset, f ∉ fx.set) ∧ (∀ f ∈ fx.reset, f ∉ fx.computed) ∧ ∀ f ∈ fx.set, f ∉ fx.computed := by
  have hcolumn : ∀ f, ∃ token, (f ∈ fx.reset ↔ token = "0") ∧ (f ∈ fx.set ↔ token = "1") ∧
      (f ∈ fx.computed ↔ IsLetter token) := by
    intro f
    obtain ⟨i, token, hf, htoken⟩ := exists_column (exists_parse?.1 ⟨fx, h⟩).1 f
    exact ⟨token, (reflects_of_parse? h).column hf htoken⟩
  refine ⟨fun f hr hs => ?_, fun f hr hc => ?_, fun f hs hc => ?_⟩
  all_goals obtain ⟨token, hreset, hset, hcomputed⟩ := hcolumn f
  · exact absurd ((hreset.1 hr).symm.trans (hset.1 hs)) (by decide)
  · exact (hcomputed.1 hc).ne_zero (hreset.1 hr)
  · exact (hcomputed.1 hc).ne_one (hset.1 hs)

/-- A line of flags is read column by column. -/
theorem decodes_line (line : String) : Decodes line where
  taken := by
    rw [exists_parse?]
    exact ⟨fun h => ⟨_, Text.spread_words line, h⟩, fun ⟨tokens, hspread, h⟩ => by rwa [hspread.words_eq]⟩
  read r hr fx := by
    rw [Record.flagEffects, hr]
    cases parse? line <;> simp
  refused h r hr := by
    rw [Record.flagEffects, hr, h]
  column fx hfx tokens hspread i f token hf htoken := column_of_parse? hfx hspread hf htoken
  disjoint fx hfx := by
    obtain ⟨hrs, hrc, hsc⟩ := disjoint_of_parse? hfx
    exact ⟨Flags.and_eq_zero hrs, Flags.and_eq_zero hrc, Flags.and_eq_zero hsc⟩
  affected fx hfx tokens hspread n := by
    have hlength := (exists_parse?.1 ⟨fx, hfx⟩).1
    rw [hspread.words_eq] at hlength
    constructor
    · intro hbit
      obtain ⟨f, hf, hindex⟩ := Flags.exists_mem_of_bit hbit
      obtain ⟨i, token, hi, htoken⟩ := exists_column hlength f
      exact ⟨i, f, token, hi, htoken, hindex, (column_of_parse? hfx hspread hi htoken).2.2.2.1 hf⟩
    · rintro ⟨i, f, token, hi, htoken, rfl, hne⟩
      exact Flags.mem_iff.1 ((column_of_parse? hfx hspread hi htoken).2.2.2.2 hne)
  written fx hfx := parse?_marks hfx (words_render fx)
  spaced fx hfx again hagain := parse?_marks hfx hagain.words_eq

end FlagEffects
end OpcodeDispatch
