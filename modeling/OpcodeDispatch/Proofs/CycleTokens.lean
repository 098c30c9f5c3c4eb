import OpcodeDispatch.CycleCost

/-!
Cycle tokens. `Denotes` says what a token means without reading it: the decimal of one count, or two
decimals around a slash. The reader takes just the tokens that denote a cost, and gives that cost. The
cost is written back as the token without its superfluous zeros. Scaling twice scales by the product.
-/

namespace OpcodeDispatch

/-! ### Decimals with zeros in front -/

namespace Numeral

/-- The digits without the zeros that stand in front of another digit. -/
def significant : List Char → List Char
  | c :: d :: ds => if c = '0' then significant (d :: ds) else c :: d :: ds
  | ds => ds

variable {c : Char} {ds : List Char} {acc : Nat}

theorem significant_ne (ds : List Char) (d : Char) (es : List Char) : significant ds ≠ '0' :: d :: es := by
  fun_induction significant ds with
  | case1 e ds ih => exact ih
  | case2 c e ds hc =>
    intro h
    cases h
    exact hc rfl
  | case3 ds hds =>
    rintro rfl
    exact hds _ _ _ rfl

theorem toDigits_of_isDigit (h : c.isDigit = true) : c.toNat - 48 < 10 ∧ Nat.toDigits 10 (c.toNat - 48) = [c] := by
  have hrange : 48 ≤ c.toNat ∧ c.toNat ≤ 57 := Char.isDigit_iff_toNat.1 h
  have hlt : c.toNat - 48 < 10 := by omega
  have hchar : (c.toNat - 48).digitChar = c := by
    rw [← Char.toNat_inj, Nat.toNat_digitChar_of_lt_ten hlt]
    omega
  exact ⟨hlt, by rw [Nat.toDigits_of_lt_base hlt, hchar]⟩

theorem ofDigitChars_cons_zero : Nat.ofDigitChars 10 (c :: ds) 0 = Nat.ofDigitChars 10 ds (c.toNat - 48) := by
  have hzero : '0'.toNat = 48 := rfl
  rw [Nat.ofDigitChars_cons, hzero, Nat.mul_zero, Nat.zero_add]

/-- Digits that are read after a number other than zero are the last digits of the whole. -/
theorem toDigits_ofDigitChars (hacc : 0 < acc) (h : ∀ c ∈ ds, c.isDigit = true) :
    Nat.toDigits 10 (Nat.ofDigitChars 10 ds acc) = Nat.toDigits 10 acc ++ ds := by
  induction ds generalizing acc with
  | nil => simp
  | cons c ds ih =>
    obtain ⟨hlt, hc⟩ := toDigits_of_isDigit (h c (by simp))
    have hzero : '0'.toNat = 48 := rfl
    rw [Nat.ofDigitChars_cons, hzero, ih (by omega) fun d hd => h d (by simp [hd]),
      ← Nat.toDigits_append_toDigits (by decide) hacc hlt, hc]
    simp

/-- The shortest decimal of what the digits denote. -/
theorem toDigits_of_digits (hne : ds ≠ []) (h : ∀ c ∈ ds, c.isDigit = true) :
    Nat.toDigits 10 (Nat.ofDigitChars 10 ds 0) = significant ds := by
  fun_induction significant ds with
  | case1 d ds ih =>
    rw [ofDigitChars_cons_zero]
    exact ih (by simp) fun e he => h e (by simp [he])
  | case2 c d ds hc =>
    have hdigit : c.isDigit = true := h c (by simp)
    have hpos : 0 < c.toNat - 48 := by
      have hne : c.toNat ≠ '0'.toNat := fun heq => hc (Char.toNat_inj.1 heq)
      have hzero : '0'.toNat = 48 := rfl
      have hrange : 48 ≤ c.toNat ∧ c.toNat ≤ 57 := Char.isDigit_iff_toNat.1 hdigit
      omega
    rw [ofDigitChars_cons_zero, toDigits_ofDigitChars hpos fun e he => h e (by simp [he]),
      (toDigits_of_isDigit hdigit).2]
    rfl
  | case3 ds hds =>
    match ds with
    | [] => exact absurd rfl hne
    | [c] => rw [ofDigitChars_cons_zero, Nat.ofDigitChars_nil, (toDigits_of_isDigit (h c (by simp))).2]
    | c :: d :: ds => exact absurd rfl (hds c d ds)

end Numeral

/-! ### Tokens -/

namespace CycleCost

/-- The digits are a decimal of the count, perhaps with leading zeros. -/
structure IsCount (ds : List Char) (n : UInt32) : Prop where
  ne_nil : ds ≠ []
  digit : ∀ c ∈ ds, c.isDigit = true
  value : Nat.ofDigitChars 10 ds 0 = n.toNat

/-- What a token says. -/
inductive Denotes : String → CycleCost → Prop
  | fixed {ds : List Char} {n : UInt32} (h : IsCount ds n) : Denotes (String.ofList ds) (.fixed n)
  | conditional {ds es : List Char} {t n : UInt32} (ht : IsCount ds t) (hn : IsCount es n) :
      Denotes (String.ofList ds ++ "/" ++ String.ofList es) (.conditional t n)

variable {s token : String} {c : CycleCost} {n : UInt32} {ds : List Char}

theorem IsCount.slash_not_mem (h : IsCount ds n) : '/' ∉ ds := by
  intro hmem
  exact absurd (h.digit _ hmem) (by decide)

theorem IsCount.pieces (h : IsCount ds n) : Text.pieces '/' (String.ofList ds) = [String.ofList ds] := by
  rw [Text.pieces, String.toList_ofList, List.splitOn_eq_singleton h.slash_not_mem]
  rfl

theorem IsCount.pieces_pair {es : List Char} {t : UInt32} (ht : IsCount ds t) (hn : IsCount es n) :
    Text.pieces '/' (String.ofList ds ++ "/" ++ String.ofList es) = [String.ofList ds, String.ofList es] := by
  have hchars : (String.ofList ds ++ "/" ++ String.ofList es).toList = ds ++ '/' :: es := by simp
  rw [Text.pieces, hchars, List.splitOn_append_cons_self_of_not_mem ht.slash_not_mem,
    List.splitOn_eq_singleton hn.slash_not_mem]
  rfl

theorem isCount_decimal (n : UInt32) : IsCount (Nat.toDigits 10 n.toNat) n where
  ne_nil := Nat.toDigits_ne_nil
  digit _ hc := Nat.isDigit_of_mem_toDigits (by decide) (by decide) hc
  value := Nat.ofDigitChars_toDigits (by decide) (by decide)

theorem count?_eq_natural? : count? s = some n ↔ Numeral.natural? s = some n.toNat := by
  rw [count?]
  cases Numeral.natural? s with
  | none => simp
  | some m =>
    simp only [Option.bind_eq_bind, Option.bind_some, Option.some.injEq]
    constructor
    · intro h
      split at h
      · next hm => rw [← Option.some.inj h, UInt32.toNat_ofNat_of_lt' hm]
      · cases h
    · rintro rfl
      rw [if_pos n.toNat_lt_size, UInt32.ofNat_toNat]

theorem count?_eq_some : count? s = some n ↔ IsCount s.toList n := by
  rw [count?_eq_natural?, Numeral.natural?]
  constructor
  · intro h
    split at h
    · next hs => exact ⟨hs.1, List.all_eq_true.1 hs.2, Option.some.inj h⟩
    · cases h
  · intro h
    rw [if_pos ⟨h.ne_nil, List.all_eq_true.2 h.digit⟩, h.value]

theorem Denotes.parse? (h : Denotes token c) : parse? token = some c := by
  induction h with
  | @fixed ds n h =>
    have hcount : count? (String.ofList ds) = some n := count?_eq_some.2 (by rwa [String.toList_ofList])
    rw [CycleCost.parse?, h.pieces]
    simp [hcount]
  | @conditional ds es t n ht hn =>
    have hcount : count? (String.ofList ds) = some t := count?_eq_some.2 (by rwa [String.toList_ofList])
    have hcount' : count? (String.ofList es) = some n := count?_eq_some.2 (by rwa [String.toList_ofList])
    rw [CycleCost.parse?, ht.pieces_pair hn]
    simp [hcount, hcount']

theorem denotes_of_parse? (h : parse? token = some c) : Denotes token c := by
  have hjoin := Text.intercalate_pieces '/' token
  have htext : ∀ s : String, String.ofList s.toList = s := fun s => String.ofList_toList
  unfold CycleCost.parse? at h
  split at h
  · next a hpieces =>
    obtain ⟨n, hn, rfl⟩ := Option.map_eq_some_iff.1 h
    rw [hpieces, String.intercalate_singleton] at hjoin
    rw [← hjoin, ← htext a]
    exact .fixed (count?_eq_some.1 hn)
  · next a b hpieces =>
    obtain ⟨t, ht, h⟩ := Option.bind_eq_some_iff.1 h
    obtain ⟨n, hn, h⟩ := Option.bind_eq_some_iff.1 h
    cases h
    have hslash : String.singleton '/' = "/" := rfl
    rw [hpieces, hslash, String.intercalate_cons_of_ne_nil (by simp), String.intercalate_singleton] at hjoin
    rw [← hjoin, ← htext a, ← htext b]
    exact .conditional (count?_eq_some.1 ht) (count?_eq_some.1 hn)
  · cases h

theorem parse?_eq_some_iff : parse? token = some c ↔ Denotes token c := ⟨denotes_of_parse?, Denotes.parse?⟩

theorem denotes_render (c : CycleCost) : Denotes c.render c := by
  cases c with
  | fixed n => exact .fixed (isCount_decimal n)
  | conditional t n => exact .conditional (isCount_decimal t) (isCount_decimal n)

theorem parse?_render (c : CycleCost) : parse? c.render = some c := (denotes_render c).parse?

/-! ### Tokens taken and written back -/

/-- Digits of a number that a count can hold. -/
structure IsRun (ds : List Char) : Prop where
  ne_nil : ds ≠ []
  digit : ∀ c ∈ ds, c.isDigit = true
  bound : Nat.ofDigitChars 10 ds 0 < UInt32.size

/-- A run of digits, or two around a slash. -/
inductive IsToken : List Char → Prop
  | one {ds : List Char} (h : IsRun ds) : IsToken ds
  | two {ds es : List Char} (ht : IsRun ds) (hn : IsRun es) : IsToken (ds ++ '/' :: es)

/-- The token without the superfluous zeros of its numbers. -/
def plain (token : String) : String :=
  "/".intercalate ((Text.pieces '/' token).map fun piece => String.ofList (Numeral.significant piece.toList))

theorem IsRun.isCount (h : IsRun ds) : IsCount ds (UInt32.ofNat (Nat.ofDigitChars 10 ds 0)) where
  ne_nil := h.ne_nil
  digit := h.digit
  value := (UInt32.toNat_ofNat_of_lt' h.bound).symm

theorem IsCount.isRun (h : IsCount ds n) : IsRun ds where
  ne_nil := h.ne_nil
  digit := h.digit
  bound := by
    rw [h.value]
    exact n.toNat_lt_size

theorem isToken_iff : IsToken token.toList ↔ ∃ c, Denotes token c := by
  constructor
  · intro h
    rw [← String.ofList_toList (s := token)]
    generalize token.toList = cs at h
    cases h with
    | one h => exact ⟨_, .fixed h.isCount⟩
    | @two ds es ht hn =>
      have htext : String.ofList (ds ++ '/' :: es) = String.ofList ds ++ "/" ++ String.ofList es := by
        simp [String.ext_iff]
      rw [htext]
      exact ⟨_, .conditional ht.isCount hn.isCount⟩
  · rintro ⟨c, h⟩
    cases h with
    | fixed h =>
      rw [String.toList_ofList]
      exact .one h.isRun
    | @conditional ds es t n ht hn =>
      have hchars : (String.ofList ds ++ "/" ++ String.ofList es).toList = ds ++ '/' :: es := by simp
      rw [hchars]
      exact .two ht.isRun hn.isRun

theorem IsCount.decimal (h : IsCount ds n) : Numeral.decimal n.toNat = String.ofList (Numeral.significant ds) := by
  rw [Numeral.decimal, ← h.value, Numeral.toDigits_of_digits h.ne_nil h.digit]

/-- A cost is written as the plainest of its tokens. -/
theorem Denotes.render (h : Denotes token c) : c.render = plain token := by
  cases h with
  | fixed h =>
    rw [plain, h.pieces, CycleCost.render, h.decimal]
    simp
  | conditional ht hn =>
    rw [plain, ht.pieces_pair hn, CycleCost.render, ht.decimal, hn.decimal]
    simp

/-! ### Scaling -/

variable {a b : UInt32}

theorem scaleDown?_of_ne_zero (ha : a ≠ 0) (c : CycleCost) : c.scaleDown? a = some (c.scaleDown a) := if_neg ha

theorem toNat_mul_of_lt (h : a.toNat * b.toNat < UInt32.size) : (a * b).toNat = a.toNat * b.toNat := by
  rw [UInt32.toNat_mul]
  exact Nat.mod_eq_of_lt h

theorem mul_ne_zero_of_lt (ha : a ≠ 0) (hb : b ≠ 0) (h : a.toNat * b.toNat < UInt32.size) : a * b ≠ 0 := by
  have hpos : ∀ d : UInt32, d ≠ 0 → 0 < d.toNat := fun d hd => Nat.pos_of_ne_zero fun h0 => hd (UInt32.toNat_inj.1 h0)
  intro h0
  have hprod := toNat_mul_of_lt h
  rw [h0] at hprod
  exact absurd hprod (Nat.ne_of_lt (Nat.mul_pos (hpos a ha) (hpos b hb)))

theorem scaleDown_scaleDown (h : a.toNat * b.toNat < UInt32.size) (c : CycleCost) :
    (c.scaleDown a).scaleDown b = c.scaleDown (a * b) := by
  have hdiv : ∀ n : UInt32, n / a / b = n / (a * b) := by
    intro n
    rw [← UInt32.toNat_inj, UInt32.toNat_div, UInt32.toNat_div, UInt32.toNat_div, toNat_mul_of_lt h,
      Nat.div_div_eq_div_mul]
  cases c <;> simp [scaleDown, hdiv]

/-! ### Tokens and costs -/

/-- What comes of a token. -/
structure ReadBack (token : String) : Prop where
  taken : (parse? token).isSome = true ↔ IsToken token.toList
  value : ∀ c, parse? token = some c ↔ Denotes token c
  plain : ∀ c, parse? token = some c → c.render = plain token

/-- What a cost keeps when it is written and when it is scaled. -/
structure Kept (c : CycleCost) : Prop where
  written : parse? c.render = some c
  scaled : ∀ a b : UInt32, a ≠ 0 → b ≠ 0 → a.toNat * b.toNat < UInt32.size →
    (c.scaleDown? a).bind (·.scaleDown? b) = c.scaleDown? (a * b) ∧ (c.scaleDown? (a * b)).isSome = true
  base : ∀ a : UInt32, a ≠ 0 → (c.scaleDown? a).map CycleCost.base = some (c.base / a)

theorem readBack (token : String) : ReadBack token where
  taken := by
    rw [isToken_iff, Option.isSome_iff_exists]
    exact exists_congr fun c => parse?_eq_some_iff
  value c := parse?_eq_some_iff
  plain c h := (denotes_of_parse? h).render

theorem kept (c : CycleCost) : Kept c where
  written := parse?_render c
  scaled a b ha hb h := by
    rw [scaleDown?_of_ne_zero ha, scaleDown?_of_ne_zero (mul_ne_zero_of_lt ha hb h), Option.bind_some,
      scaleDown?_of_ne_zero hb, scaleDown_scaleDown h]
    exact ⟨rfl, rfl⟩
  base a ha := by
    rw [scaleDown?_of_ne_zero ha, Option.map_some, base_scaleDown]

/-- Tokens are read exactly, and costs keep their value in writing and in scaling. -/
theorem tokens_and_costs (token : String) (c : CycleCost) : ReadBack token ∧ Kept c := ⟨readBack token, kept c⟩

example : plain "0012/000" = "12/0" := by decide +kernel

end CycleCost
end OpcodeDispatch
