import Mathlib.Data.List.DropRight
import OpcodeDispatch.Json.Printer
import OpcodeDispatch.Json.Reader
import OpcodeDispatch.Proofs.CycleTokens

/-!
JSON texts. `Spells` is the grammar: it says which characters make up a value and does not read them. The
reader takes just the texts that spell a value and gives that value, so its fuel never runs out and no
text spells two values. The printer's text spells whatever some text spells.
-/

namespace OpcodeDispatch
namespace Json

/-! ### The grammar of the leaves -/

def Blanks (cs : List Char) : Prop := ∀ c ∈ cs, isBlank c = true

structure Digits (ds : List Char) : Prop where
  ne_nil : ds ≠ []
  digit : ∀ d ∈ ds, d.isDigit = true

/-- The digits before the point: a zero stands first only if it stands alone. -/
structure Whole (ds : List Char) : Prop extends Digits ds where
  lead : ds.head? = some '0' → ds = ['0']

inductive Fraction : List Char → Prop
  | absent : Fraction []
  | digits {ds : List Char} (h : Digits ds) : Fraction ('.' :: ds)

inductive Exponent : List Char → Prop
  | absent : Exponent []
  | digits {e : Char} {sign ds : List Char} (he : e = 'e' ∨ e = 'E') (hsign : sign ∈ [[], ['+'], ['-']])
      (h : Digits ds) : Exponent (e :: (sign ++ ds))

inductive IsUnsigned : List Char → Prop
  | intro {ds part power : List Char} (hds : Whole ds) (hpart : Fraction part) (hpower : Exponent power) :
      IsUnsigned (ds ++ part ++ power)

inductive IsNumber : List Char → Prop
  | unsigned {cs : List Char} (h : IsUnsigned cs) : IsNumber cs
  | negative {cs : List Char} (h : IsUnsigned cs) : IsNumber ('-' :: cs)

/-- The characters between the quotes of a string. -/
inductive IsLiteral : List Char → Prop
  | nil : IsLiteral []
  | plain {c : Char} {cs : List Char} (hc : ' ' ≤ c) (hquote : c ≠ '"') (hslash : c ≠ '\\') (h : IsLiteral cs) :
      IsLiteral (c :: cs)
  | short {c : Char} {cs : List Char} (hc : (ofShort? c).isSome = true) (h : IsLiteral cs) :
      IsLiteral ('\\' :: c :: cs)
  | unit {a b c d : Char} {cs : List Char} (hhex : ∀ x ∈ [a, b, c, d], (Numeral.hexValue? x).isSome = true)
      (h : IsLiteral cs) : IsLiteral ('\\' :: 'u' :: a :: b :: c :: d :: cs)

/-! ### Blanks -/

variable {cs ds r l : List Char}

theorem isBlank_iff {c : Char} : isBlank c = true ↔ c = ' ' ∨ c = '\t' ∨ c = '\n' ∨ c = '\r' := by
  simp [isBlank, or_assoc]

theorem skipBlanks_cons {c : Char} (hc : isBlank c = false) (cs : List Char) : skipBlanks (c :: cs) = c :: cs :=
  List.dropWhile_cons_of_neg (by simp [hc])

theorem skipBlanks_append (h : Blanks cs) (r : List Char) : skipBlanks (cs ++ r) = skipBlanks r :=
  List.dropWhile_append_of_pos h

theorem exists_blanks (cs : List Char) : ∃ b, Blanks b ∧ cs = b ++ skipBlanks cs :=
  ⟨cs.takeWhile isBlank, List.all_eq_true.1 List.all_takeWhile, List.takeWhile_append_dropWhile.symm⟩

theorem skipBlanks_skipBlanks (cs : List Char) : skipBlanks (skipBlanks cs) = skipBlanks cs :=
  List.dropWhile_idempotent _ cs

/-! ### Numbers -/

theorem Digits.digits? (h : Digits ds) (hr : ∀ c ∈ r.head?, c.isDigit = false) :
    digits? (ds ++ r) = some (ds, r) := by
  have htake : (ds ++ r).takeWhile Char.isDigit = ds := by
    rw [List.takeWhile_append_of_pos h.digit]
    cases r with
    | nil => simp
    | cons c r => rw [List.takeWhile_cons_of_neg (by simp [hr c rfl]), List.append_nil]
  have hdrop : (ds ++ r).dropWhile Char.isDigit = r := by
    rw [List.dropWhile_append_of_pos h.digit]
    cases r with
    | nil => rfl
    | cons c r => rw [List.dropWhile_cons_of_neg (by simp [hr c rfl])]
  rw [Json.digits?, htake, hdrop]
  split
  · exact absurd rfl h.ne_nil
  · rfl

theorem digits_of_digits? (h : digits? cs = some (ds, r)) : Digits ds ∧ cs = ds ++ r := by
  rw [digits?] at h
  split at h
  · cases h
  · next hne =>
    cases h
    exact ⟨⟨hne, List.all_eq_true.1 List.all_takeWhile⟩, List.takeWhile_append_dropWhile.symm⟩

theorem Whole.integer? (h : Whole ds) (hr : ∀ c ∈ r.head?, c.isDigit = false) :
    integer? (ds ++ r) = some (ds, r) := by
  unfold Json.integer?
  split
  · next cs hcs =>
    cases ds with
    | nil => exact absurd rfl h.ne_nil
    | cons d ds =>
      cases hcs
      cases h.lead rfl
      rfl
  · exact h.digits? hr

theorem whole_of_integer? (h : integer? cs = some (ds, r)) : Whole ds ∧ cs = ds ++ r := by
  unfold integer? at h
  split at h
  · cases h
    exact ⟨⟨⟨by simp, by simp⟩, fun _ => rfl⟩, rfl⟩
  · next hlead =>
    obtain ⟨hds, rfl⟩ := digits_of_digits? h
    refine ⟨⟨hds, ?_⟩, rfl⟩
    intro h0
    cases ds with
    | nil => cases h0
    | cons d ds =>
      cases h0
      exact absurd rfl (hlead (ds ++ r))


/-- What no number goes on with. -/
def Stops (r : List Char) : Prop := ∀ c ∈ r.head?, c.isDigit = false ∧ c ≠ '.' ∧ c ≠ 'e' ∧ c ≠ 'E'

variable {part power : List Char}

theorem Fraction.fraction? (h : Fraction part) (hr : ∀ c ∈ r.head?, c.isDigit = false ∧ c ≠ '.') :
    fraction? (part ++ r) = some (part, r) := by
  cases h with
  | absent =>
    unfold Json.fraction?
    split
    · exact absurd rfl (hr '.' (by simp_all)).2
    · rfl
  | digits h =>
    rw [List.cons_append, Json.fraction?, h.digits? fun c hc => (hr c hc).1]
    rfl

theorem fraction_of_fraction? (h : fraction? cs = some (part, r)) : Fraction part ∧ cs = part ++ r := by
  unfold fraction? at h
  split at h
  · obtain ⟨⟨ds, rest⟩, hdigits, heq⟩ := Option.map_eq_some_iff.1 h
    cases heq
    obtain ⟨hds, rfl⟩ := digits_of_digits? hdigits
    exact ⟨.digits hds, rfl⟩
  · cases h
    exact ⟨.absent, rfl⟩

theorem Exponent.exponent? (h : Exponent power) (hr : Stops r) : exponent? (power ++ r) = some (power, r) := by
  cases h with
  | absent =>
    cases r with
    | nil => rfl
    | cons c r =>
      have hc := hr c rfl
      exact if_neg (by simp [hc])
  | @digits e sign ds he hsign h =>
    have hdigits := h.digits? fun c hc => (hr c hc).1
    rw [List.cons_append, List.append_assoc]
    unfold Json.exponent?
    simp only [if_pos he]
    simp only [List.mem_cons, List.not_mem_nil, or_false] at hsign
    obtain rfl | rfl | rfl := hsign
    · rw [List.nil_append]
      split
      · next rest hplus =>
        cases ds with
        | nil => exact absurd rfl h.ne_nil
        | cons d ds =>
          cases hplus
          exact absurd (h.digit '+' (by simp)) (by decide)
      · next rest hminus =>
        cases ds with
        | nil => exact absurd rfl h.ne_nil
        | cons d ds =>
          cases hminus
          exact absurd (h.digit '-' (by simp)) (by decide)
      · rw [hdigits]
        rfl
    · simp only [List.cons_append, List.nil_append, hdigits, Option.map_some]
    · simp only [List.cons_append, List.nil_append, hdigits, Option.map_some]

theorem exponent_of_exponent? (h : exponent? cs = some (power, r)) : Exponent power ∧ cs = power ++ r := by
  unfold exponent? at h
  split at h
  · split at h
    · next e _ he =>
      split at h <;> obtain ⟨⟨ds, rest⟩, hdigits, heq⟩ := Option.map_eq_some_iff.1 h <;> cases heq <;>
        obtain ⟨hds, rfl⟩ := digits_of_digits? hdigits
      · exact ⟨@Exponent.digits e ['+'] ds he (by simp) hds, rfl⟩
      · exact ⟨@Exponent.digits e ['-'] ds he (by simp) hds, rfl⟩
      · exact ⟨@Exponent.digits e [] ds he (by simp) hds, rfl⟩
    · cases h
      exact ⟨.absent, rfl⟩
  · cases h
    exact ⟨.absent, rfl⟩

/-- No digit begins what follows the digits of a number. -/
theorem Exponent.head (h : Exponent power) (hr : Stops r) :
    ∀ c ∈ (power ++ r).head?, c.isDigit = false ∧ c ≠ '.' := by
  intro c hc
  cases h with
  | absent => exact ⟨(hr c hc).1, (hr c hc).2.1⟩
  | digits he _ _ =>
    cases hc
    obtain rfl | rfl := he <;> decide

theorem Fraction.head (h : Fraction part) (hr : ∀ c ∈ r.head?, c.isDigit = false) :
    ∀ c ∈ (part ++ r).head?, c.isDigit = false := by
  intro c hc
  cases h with
  | absent => exact hr c hc
  | digits _ =>
    cases hc
    rfl

theorem IsUnsigned.unsigned? (h : IsUnsigned l) (hr : Stops r) : unsigned? (l ++ r) = some (l, r) := by
  cases h with
  | @intro ds part power hds hpart hpower =>
    have hhead := hpower.head hr
    have hwhole := hds.integer? (hpart.head fun c hc => (hhead c hc).1)
    have hfraction := hpart.fraction? hhead
    rw [Json.unsigned?, List.append_assoc, List.append_assoc]
    simp [hwhole, hfraction, hpower.exponent? hr]

theorem isUnsigned_of_unsigned? (h : unsigned? cs = some (l, r)) : IsUnsigned l ∧ cs = l ++ r := by
  obtain ⟨⟨ds, r₁⟩, hinteger, h⟩ := Option.bind_eq_some_iff.1 h
  obtain ⟨⟨part, r₂⟩, hfraction, h⟩ := Option.bind_eq_some_iff.1 h
  obtain ⟨⟨power, r₃⟩, hexponent, h⟩ := Option.bind_eq_some_iff.1 h
  cases h
  obtain ⟨hds, rfl⟩ := whole_of_integer? hinteger
  obtain ⟨hpart, rfl⟩ := fraction_of_fraction? hfraction
  obtain ⟨hpower, rfl⟩ := exponent_of_exponent? hexponent
  exact ⟨.intro hds hpart hpower, by simp⟩

/-- A number begins with a digit. -/
theorem IsUnsigned.exists_head (h : IsUnsigned l) : ∃ d ds, l = d :: ds ∧ d.isDigit = true := by
  cases h with
  | @intro ds part power hds _ _ =>
    cases ds with
    | nil => exact absurd rfl hds.ne_nil
    | cons d ds => exact ⟨d, _, rfl, hds.digit d (by simp)⟩

theorem IsNumber.exists_head (h : IsNumber l) : ∃ c ds, l = c :: ds ∧ (c = '-' ∨ c.isDigit = true) := by
  cases h with
  | unsigned h =>
    obtain ⟨d, ds, hl, hd⟩ := h.exists_head
    exact ⟨d, ds, hl, .inr hd⟩
  | negative h => exact ⟨'-', _, rfl, .inl rfl⟩

theorem not_isBlank_of_head {c : Char} (hc : c = '-' ∨ c.isDigit = true) : isBlank c = false := by
  rw [Bool.eq_false_iff, ne_eq, isBlank_iff]
  rintro (rfl | rfl | rfl | rfl) <;> exact absurd hc (by decide)

theorem IsNumber.number? (h : IsNumber l) (hr : Stops r) : number? (l ++ r) = some (l, r) := by
  cases h with
  | unsigned h =>
    obtain ⟨d, ds, rfl, hd⟩ := h.exists_head
    unfold Json.number?
    split
    · next hminus =>
      cases hminus
      exact absurd hd (by decide)
    · exact h.unsigned? hr
  | negative h => simp [Json.number?, h.unsigned? hr]

theorem isNumber_of_number? (h : number? cs = some (l, r)) : IsNumber l ∧ cs = l ++ r := by
  unfold number? at h
  split at h
  · obtain ⟨⟨ds, rest⟩, hunsigned, heq⟩ := Option.map_eq_some_iff.1 h
    cases heq
    obtain ⟨hds, rfl⟩ := isUnsigned_of_unsigned? hunsigned
    exact ⟨.negative hds, rfl⟩
  · obtain ⟨hl, hcs⟩ := isUnsigned_of_unsigned? h
    exact ⟨.unsigned hl, hcs⟩

/-! ### Strings -/

theorem literal?_plain {c : Char} (hc : ' ' ≤ c) (hquote : c ≠ '"') (hslash : c ≠ '\\') (r : List Char) :
    literal? (c :: r) = (literal? r).map fun (l, r) => (c :: l, r) := by
  have hplain : ¬ (c < ' ' ∨ c = '\\') := by
    rintro (hlt | heq)
    · exact Char.not_lt.2 hc hlt
    · exact hslash heq
  rw [literal?.eq_def]
  split
  · next h => cases h
  · next h => cases h; exact absurd rfl hquote
  · next h => cases h; exact absurd rfl hslash
  · next h => cases h; exact absurd rfl hslash
  · next h => cases h; exact if_neg hplain

theorem literal?_short {c : Char} (hc : (ofShort? c).isSome = true) (r : List Char) :
    literal? ('\\' :: c :: r) = (literal? r).map fun (l, r) => ('\\' :: c :: l, r) := by
  have hu : c ≠ 'u' := by
    rintro rfl
    revert hc
    decide
  rw [literal?.eq_def]
  split
  · next h => cases h
  · next h => cases h
  · next h => cases h; exact absurd rfl hu
  · next h => cases h; exact if_pos hc
  · next hne h =>
    cases h
    exact (hne _ _ rfl rfl).elim

theorem IsLiteral.literal? (h : IsLiteral l) (r : List Char) : literal? (l ++ '"' :: r) = some (l, r) := by
  induction h with
  | nil => rfl
  | plain hc hquote hslash h ih =>
    rw [List.cons_append, literal?_plain hc hquote hslash, ih]
    rfl
  | short hc h ih =>
    rw [List.cons_append, List.cons_append, literal?_short hc, ih]
    rfl
  | unit hhex h ih =>
    simp only [List.cons_append]
    rw [Json.literal?, if_pos (List.all_eq_true.2 hhex), ih]
    rfl

theorem isLiteral_of_literal? (h : literal? cs = some (l, r)) : IsLiteral l ∧ cs = l ++ '"' :: r := by
  fun_induction literal? cs generalizing l with
  | case1 => cases h
  | case2 rest =>
    cases h
    exact ⟨.nil, rfl⟩
  | case3 a b c d rest hhex ih =>
    obtain ⟨⟨l, r⟩, hread, heq⟩ := Option.map_eq_some_iff.1 h
    cases heq
    obtain ⟨hl, rfl⟩ := ih hread
    exact ⟨.unit (List.all_eq_true.1 hhex) hl, rfl⟩
  | case4 => cases h
  | case5 c rest hne hshort ih =>
    obtain ⟨⟨l, r⟩, hread, heq⟩ := Option.map_eq_some_iff.1 h
    cases heq
    obtain ⟨hl, rfl⟩ := ih hread
    exact ⟨.short hshort hl, rfl⟩
  | case6 => cases h
  | case7 => cases h
  | case8 c rest hquote hunit hshort hplain ih =>
    obtain ⟨⟨l, r⟩, hread, heq⟩ := Option.map_eq_some_iff.1 h
    cases heq
    obtain ⟨hl, rfl⟩ := ih hread
    refine ⟨.plain ?_ ?_ ?_ hl, rfl⟩
    · exact Char.not_lt.1 fun hlt => hplain (.inl hlt)
    · exact fun heq => hquote heq
    · exact fun heq => hplain (.inr heq)

/-! ### The grammar of values -/

/-- The parts of a text: a value, a value with blanks around it, and what stands between the brackets. -/
inductive Part where
  | value (j : Json)
  | spaced (j : Json)
  | items (js : List Json)
  | member (m : String × Json)
  | members (ms : List (String × Json))

/-- The characters make up the part. -/
inductive Spells : Part → List Char → Prop
  | null : Spells (.value null) ['n', 'u', 'l', 'l']
  | yes : Spells (.value (bool true)) ['t', 'r', 'u', 'e']
  | no : Spells (.value (bool false)) ['f', 'a', 'l', 's', 'e']
  | number {cs : List Char} (h : IsNumber cs) : Spells (.value (number (String.ofList cs))) cs
  | string {cs : List Char} (h : IsLiteral cs) : Spells (.value (string (String.ofList cs))) ('"' :: (cs ++ ['"']))
  | emptyArray {b : List Char} (h : Blanks b) : Spells (.value (array [])) ('[' :: (b ++ [']']))
  | array {js : List Json} {cs : List Char} (h : Spells (.items js) cs) :
      Spells (.value (array js)) ('[' :: (cs ++ [']']))
  | emptyObject {b : List Char} (h : Blanks b) : Spells (.value (object [])) ('\x7b' :: (b ++ ['\x7d']))
  | object {ms : List (String × Json)} {cs : List Char} (h : Spells (.members ms) cs) :
      Spells (.value (object ms)) ('\x7b' :: (cs ++ ['\x7d']))
  | spaced {j : Json} {a cs b : List Char} (ha : Blanks a) (h : Spells (.value j) cs) (hb : Blanks b) :
      Spells (.spaced j) (a ++ cs ++ b)
  | lastItem {j : Json} {cs : List Char} (h : Spells (.spaced j) cs) : Spells (.items [j]) cs
  | item {j : Json} {js : List Json} {cs ds : List Char} (h : Spells (.spaced j) cs) (hs : Spells (.items js) ds) :
      Spells (.items (j :: js)) (cs ++ ',' :: ds)
  | colon {j : Json} {a key b cs : List Char} (ha : Blanks a) (hkey : IsLiteral key) (hb : Blanks b)
      (h : Spells (.spaced j) cs) :
      Spells (.member (String.ofList key, j)) (a ++ '"' :: (key ++ '"' :: (b ++ ':' :: cs)))
  | lastMember {m : String × Json} {cs : List Char} (h : Spells (.member m) cs) : Spells (.members [m]) cs
  | member {m : String × Json} {ms : List (String × Json)} {cs ds : List Char} (h : Spells (.member m) cs)
      (hs : Spells (.members ms) ds) : Spells (.members (m :: ms)) (cs ++ ',' :: ds)

variable {fuel : Nat} {j : Json} {js : List Json} {m : String × Json} {ms : List (String × Json)}

/-! ### One step of the readers -/

theorem value?_skipBlanks (fuel : Nat) (cs : List Char) : value? fuel (skipBlanks cs) = value? fuel cs := by
  cases fuel with
  | zero => simp [value?]
  | succ fuel => rw [value?, value?, skipBlanks_skipBlanks]

theorem items?_skipBlanks (fuel : Nat) (cs : List Char) : items? fuel (skipBlanks cs) = items? fuel cs := by
  cases fuel with
  | zero => simp [items?]
  | succ fuel => rw [items?, items?, value?_skipBlanks]

theorem members?_skipBlanks (fuel : Nat) (cs : List Char) : members? fuel (skipBlanks cs) = members? fuel cs := by
  cases fuel with
  | zero => simp [members?]
  | succ fuel => rw [members?, members?, skipBlanks_skipBlanks]

theorem value?_array (h : ∀ c ∈ (skipBlanks cs).head?, c ≠ ']') :
    value? (fuel + 1) ('[' :: cs) = (items? fuel cs).map fun (vs, r) => (array vs, r) := by
  have hskip : skipBlanks ('[' :: cs) = '[' :: cs := rfl
  rw [value?, hskip]
  simp only
  split
  · next hclose =>
    rw [hclose] at h
    exact absurd rfl (h _ rfl)
  · rw [items?_skipBlanks]

theorem value?_object (h : ∀ c ∈ (skipBlanks cs).head?, c ≠ '\x7d') :
    value? (fuel + 1) ('\x7b' :: cs) = (members? fuel cs).map fun (ms, r) => (object ms, r) := by
  have hskip : skipBlanks ('\x7b' :: cs) = '\x7b' :: cs := rfl
  rw [value?, hskip]
  simp only
  split
  · next hclose =>
    rw [hclose] at h
    exact absurd rfl (h _ rfl)
  · rw [members?_skipBlanks]

theorem value?_emptyArray (h : skipBlanks cs = ']' :: r) : value? (fuel + 1) ('[' :: cs) = some (array [], r) := by
  have hskip : skipBlanks ('[' :: cs) = '[' :: cs := rfl
  rw [value?, hskip]
  simp only [h]

theorem value?_emptyObject (h : skipBlanks cs = '\x7d' :: r) :
    value? (fuel + 1) ('\x7b' :: cs) = some (object [], r) := by
  have hskip : skipBlanks ('\x7b' :: cs) = '\x7b' :: cs := rfl
  rw [value?, hskip]
  simp only [h]

theorem value?_string (r : List Char) : value? (fuel + 1) ('"' :: r) =
    (literal? r).map fun (l, r) => (string (String.ofList l), r) := by
  rw [value?]
  rfl

theorem value?_number {c : Char} (hc : c = '-' ∨ c.isDigit = true) (cs : List Char) : value? (fuel + 1) (c :: cs) =
    (number? (c :: cs)).map fun (l, r) => (number (String.ofList l), r) := by
  rw [value?, skipBlanks_cons (not_isBlank_of_head hc)]
  split
  iterate 6
    · next h =>
      cases h
      exact absurd hc (by decide)
  · rfl

theorem items?_more (hread : value? fuel cs = some (j, ds)) (hcomma : skipBlanks ds = ',' :: r) :
    items? (fuel + 1) cs = (items? fuel r).map fun next => (j :: next.1, next.2) := by
  rw [items?, hread]
  simp only [Option.bind_eq_bind, Option.bind_some, hcomma]

theorem items?_last (hread : value? fuel cs = some (j, ds)) (hclose : skipBlanks ds = ']' :: r) :
    items? (fuel + 1) cs = some ([j], r) := by
  rw [items?, hread]
  simp only [Option.bind_eq_bind, Option.bind_some, hclose]

section

variable {key afterKey vs afterValue : List Char} (hkey : IsLiteral key)
  (hopen : skipBlanks cs = '"' :: (key ++ '"' :: afterKey)) (hcolon : skipBlanks afterKey = ':' :: vs)
  (hread : value? fuel vs = some (j, afterValue))

include hkey hopen hcolon hread

theorem members?_more (hcomma : skipBlanks afterValue = ',' :: r) :
    members? (fuel + 1) cs = (members? fuel r).map fun next => ((String.ofList key, j) :: next.1, next.2) := by
  rw [members?, hopen]
  simp only [hkey.literal?, Option.bind_eq_bind, Option.bind_some, hcolon, hread, hcomma]

theorem members?_last (hclose : skipBlanks afterValue = '\x7d' :: r) :
    members? (fuel + 1) cs = some ([(String.ofList key, j)], r) := by
  rw [members?, hopen]
  simp only [hkey.literal?, Option.bind_eq_bind, Option.bind_some, hcolon, hread, hclose]

end

/-! ### From the grammar to the reader -/

/-- What can follow a value in a text. -/
def Ends (r : List Char) : Prop := ∀ c ∈ r.head?, isBlank c = true ∨ c = ',' ∨ c = ']' ∨ c = '\x7d'

theorem Ends.stops (h : Ends r) : Stops r := by
  intro c hc
  obtain hblank | rfl | rfl | rfl := h c hc
  · obtain rfl | rfl | rfl | rfl := isBlank_iff.1 hblank <;> decide
  all_goals decide

theorem Ends.blanks {b : List Char} (h : Ends r) (hb : Blanks b) : Ends (b ++ r) := by
  intro c hc
  cases b with
  | nil => exact h c hc
  | cons d b =>
    cases hc
    exact .inl (hb c (by simp))

/-- A value begins with a character of its own. -/
theorem Spells.head (h : Spells (.value j) cs) : ∃ c ds, cs = c :: ds ∧ isBlank c = false ∧ c ≠ ']' := by
  cases h with
  | number h =>
    obtain ⟨c, ds, rfl, hc⟩ := h.exists_head
    refine ⟨c, ds, rfl, not_isBlank_of_head hc, ?_⟩
    rintro rfl
    exact absurd hc (by decide)
  | _ => exact ⟨_, _, rfl, by decide, by decide⟩

theorem Spells.spaced_head (h : Spells (.spaced j) cs) (r : List Char) :
    ∀ c ∈ (skipBlanks (cs ++ r)).head?, c ≠ ']' := by
  cases h with
  | spaced ha h hb =>
    obtain ⟨c, ds, rfl, hblank, hc⟩ := h.head
    rw [List.append_assoc, List.append_assoc, skipBlanks_append ha, List.cons_append, skipBlanks_cons hblank]
    intro d hd
    cases hd
    exact hc

theorem Spells.items_head (h : Spells (.items js) cs) (r : List Char) :
    ∀ c ∈ (skipBlanks (cs ++ r)).head?, c ≠ ']' := by
  cases h with
  | lastItem h => exact h.spaced_head r
  | item h _ =>
    rw [List.append_assoc]
    exact h.spaced_head _

theorem Spells.member_head (h : Spells (.member m) cs) (r : List Char) :
    ∀ c ∈ (skipBlanks (cs ++ r)).head?, c ≠ '\x7d' := by
  cases h with
  | colon ha =>
    rw [List.append_assoc, skipBlanks_append ha]
    intro d hd
    cases hd
    decide

theorem Spells.members_head (h : Spells (.members ms) cs) (r : List Char) :
    ∀ c ∈ (skipBlanks (cs ++ r)).head?, c ≠ '\x7d' := by
  cases h with
  | lastMember h => exact h.member_head r
  | member h _ =>
    rw [List.append_assoc]
    exact h.member_head _

/-- What the readers make of a part, whatever follows it. Two units of fuel for each character are enough: a level
of nesting takes two units, one for its bracket and one for its first item, and has two brackets. -/
def Reads : Part → List Char → Prop
  | .value j, cs => ∀ fuel r, 2 * cs.length ≤ fuel → Ends r → value? fuel (cs ++ r) = some (j, r)
  | .spaced j, cs => ∀ fuel r, 2 * cs.length ≤ fuel → Ends r →
      ∃ b, Blanks b ∧ value? fuel (cs ++ r) = some (j, b ++ r)
  | .items js, cs => ∀ fuel r, 2 * cs.length + 1 ≤ fuel → items? fuel (cs ++ ']' :: r) = some (js, r)
  | .member m, cs => ∀ fuel r, 2 * cs.length ≤ fuel →
      members? (fuel + 1) (cs ++ ',' :: r) = (members? fuel r).map (fun next => (m :: next.1, next.2)) ∧
        members? (fuel + 1) (cs ++ '\x7d' :: r) = some ([m], r)
  | .members ms, cs => ∀ fuel r, 2 * cs.length + 1 ≤ fuel → members? fuel (cs ++ '\x7d' :: r) = some (ms, r)

theorem reads_value (hne : cs ≠ []) (h : ∀ fuel r, 2 * cs.length ≤ fuel + 1 → Ends r →
    value? (fuel + 1) (cs ++ r) = some (j, r)) : Reads (.value j) cs := by
  intro fuel r hfuel hr
  have hpos := List.length_pos_iff.2 hne
  cases fuel with
  | zero => omega
  | succ fuel => exact h fuel r hfuel hr

theorem ends_cons {c : Char} (hc : c = ',' ∨ c = ']' ∨ c = '\x7d') (r : List Char) : Ends (c :: r) := by
  intro d hd
  cases hd
  exact .inr hc

/-- By induction over the grammar. -/
theorem Spells.reads {p : Part} (h : Spells p cs) : Reads p cs := by
  induction h with
  | null => exact reads_value (by simp) fun fuel r _ _ => by rw [value?]; rfl
  | yes => exact reads_value (by simp) fun fuel r _ _ => by rw [value?]; rfl
  | no => exact reads_value (by simp) fun fuel r _ _ => by rw [value?]; rfl
  | number h =>
    obtain ⟨c, ds, rfl, hc⟩ := h.exists_head
    refine reads_value (by simp) fun fuel r _ hr => ?_
    have hread := h.number? hr.stops
    rw [List.cons_append] at hread ⊢
    rw [value?_number hc, hread]
    rfl
  | string h =>
    refine reads_value (by simp) fun fuel r _ _ => ?_
    rw [List.cons_append, List.append_assoc, value?_string, List.singleton_append, h.literal?]
    rfl
  | emptyArray h =>
    refine reads_value (by simp) fun fuel r _ _ => ?_
    rw [List.cons_append, List.append_assoc]
    exact value?_emptyArray (skipBlanks_append h _)
  | array h ih =>
    refine reads_value (by simp) fun fuel r hfuel _ => ?_
    simp only [List.length_cons, List.length_append, List.length_nil] at hfuel
    rw [List.cons_append, List.append_assoc, List.singleton_append, value?_array (h.items_head _),
      ih fuel r (by omega)]
    rfl
  | emptyObject h =>
    refine reads_value (by simp) fun fuel r _ _ => ?_
    rw [List.cons_append, List.append_assoc]
    exact value?_emptyObject (skipBlanks_append h _)
  | object h ih =>
    refine reads_value (by simp) fun fuel r hfuel _ => ?_
    simp only [List.length_cons, List.length_append, List.length_nil] at hfuel
    rw [List.cons_append, List.append_assoc, List.singleton_append, value?_object (h.members_head _),
      ih fuel r (by omega)]
    rfl
  | @spaced j a cs b ha h hb ih =>
    intro fuel r hfuel hr
    simp only [List.length_append] at hfuel
    refine ⟨b, hb, ?_⟩
    rw [← value?_skipBlanks, List.append_assoc, List.append_assoc, skipBlanks_append ha, value?_skipBlanks]
    exact ih fuel (b ++ r) (by omega) (hr.blanks hb)
  | lastItem h ih =>
    intro fuel r hfuel
    obtain ⟨fuel, rfl⟩ : ∃ f, fuel = f + 1 := ⟨fuel - 1, by omega⟩
    obtain ⟨b, hb, hread⟩ := ih fuel (']' :: r) (by omega) (ends_cons (by simp) r)
    exact items?_last hread (skipBlanks_append hb _)
  | @item j js cs ds h hs ih ihs =>
    intro fuel r hfuel
    simp only [List.length_append, List.length_cons] at hfuel
    obtain ⟨fuel, rfl⟩ : ∃ f, fuel = f + 1 := ⟨fuel - 1, by omega⟩
    obtain ⟨b, hb, hread⟩ := ih fuel (',' :: (ds ++ ']' :: r)) (by omega) (ends_cons (by simp) _)
    rw [List.append_assoc, List.cons_append, items?_more hread (skipBlanks_append hb _), ihs fuel r (by omega)]
    rfl
  | @colon j a key b cs ha hkey hb h ih =>
    intro fuel r hfuel
    simp only [List.length_append, List.length_cons] at hfuel
    have hopen : ∀ rest, skipBlanks (a ++ '"' :: (key ++ '"' :: (b ++ ':' :: cs)) ++ rest) =
        '"' :: (key ++ '"' :: (b ++ ':' :: (cs ++ rest))) := by
      intro rest
      rw [List.append_assoc, skipBlanks_append ha]
      simp [skipBlanks_cons (c := '"') rfl]
    constructor
    · obtain ⟨b', hb', hread⟩ := ih fuel (',' :: r) (by omega) (ends_cons (by simp) r)
      exact members?_more hkey (hopen _) (skipBlanks_append hb _) hread (skipBlanks_append hb' _)
    · obtain ⟨b', hb', hread⟩ := ih fuel ('\x7d' :: r) (by omega) (ends_cons (by simp) r)
      exact members?_last hkey (hopen _) (skipBlanks_append hb _) hread (skipBlanks_append hb' _)
  | lastMember h ih =>
    intro fuel r hfuel
    obtain ⟨fuel, rfl⟩ : ∃ f, fuel = f + 1 := ⟨fuel - 1, by omega⟩
    exact (ih fuel r (by omega)).2
  | @member m ms cs ds h hs ih ihs =>
    intro fuel r hfuel
    simp only [List.length_append, List.length_cons] at hfuel
    obtain ⟨fuel, rfl⟩ : ∃ f, fuel = f + 1 := ⟨fuel - 1, by omega⟩
    rw [List.append_assoc, List.cons_append, (ih fuel _ (by omega)).1, ihs fuel r (by omega)]
    rfl

/-! ### From the reader to the grammar -/

/-- What the readers take with this fuel spells what they give. -/
structure Sound (fuel : Nat) : Prop where
  value : ∀ {cs r j}, value? fuel cs = some (j, r) → ∃ a l, Blanks a ∧ Spells (.value j) l ∧ cs = a ++ l ++ r
  items : ∀ {cs r js}, items? fuel cs = some (js, r) → ∃ l, Spells (.items js) l ∧ cs = l ++ ']' :: r
  members : ∀ {cs r ms}, members? fuel cs = some (ms, r) → ∃ l, Spells (.members ms) l ∧ cs = l ++ '\x7d' :: r

theorem Sound.spaced (h : Sound fuel) (hread : value? fuel cs = some (j, r)) :
    ∃ l, Spells (.spaced j) l ∧ cs = l ++ skipBlanks r := by
  obtain ⟨a, l, ha, hl, rfl⟩ := h.value hread
  obtain ⟨b, hb, hr⟩ := exists_blanks r
  refine ⟨a ++ l ++ b, .spaced ha hl hb, ?_⟩
  rw [List.append_assoc (a ++ l), ← hr]

theorem Sound.value_succ (h : Sound fuel) (hread : value? (fuel + 1) cs = some (j, r)) :
    ∃ a l, Blanks a ∧ Spells (.value j) l ∧ cs = a ++ l ++ r := by
  obtain ⟨a, ha, hcs⟩ := exists_blanks cs
  suffices hl : ∃ l, Spells (.value j) l ∧ skipBlanks cs = l ++ r by
    obtain ⟨l, hl, hskip⟩ := hl
    exact ⟨a, l, ha, hl, by rw [hcs, hskip, List.append_assoc]⟩
  -- one case for each character that a value can begin with, the numbers last
  rw [value?] at hread
  split at hread
  · cases hread
    exact ⟨_, .null, by assumption⟩
  · cases hread
    exact ⟨_, .yes, by assumption⟩
  · cases hread
    exact ⟨_, .no, by assumption⟩
  · next rest hskip =>
    obtain ⟨⟨l, r⟩, hliteral, heq⟩ := Option.map_eq_some_iff.1 hread
    cases heq
    obtain ⟨hl, rfl⟩ := isLiteral_of_literal? hliteral
    exact ⟨_, .string hl, by simp [hskip]⟩
  · next rest hskip =>
    obtain ⟨b, hb, hrest⟩ := exists_blanks rest
    split at hread
    · next hclose =>
      cases hread
      exact ⟨_, .emptyArray hb, by rw [hskip, hrest, hclose]; simp⟩
    · obtain ⟨⟨js, r⟩, hitems, heq⟩ := Option.map_eq_some_iff.1 hread
      cases heq
      rw [items?_skipBlanks] at hitems
      obtain ⟨l, hl, rfl⟩ := h.items hitems
      exact ⟨_, .array hl, by simp [hskip]⟩
  · next rest hskip =>
    obtain ⟨b, hb, hrest⟩ := exists_blanks rest
    split at hread
    · next hclose =>
      cases hread
      exact ⟨_, .emptyObject hb, by rw [hskip, hrest, hclose]; simp⟩
    · obtain ⟨⟨ms, r⟩, hmembers, heq⟩ := Option.map_eq_some_iff.1 hread
      cases heq
      rw [members?_skipBlanks] at hmembers
      obtain ⟨l, hl, rfl⟩ := h.members hmembers
      exact ⟨_, .object hl, by simp [hskip]⟩
  · obtain ⟨⟨l, r⟩, hnumber, heq⟩ := Option.map_eq_some_iff.1 hread
    cases heq
    obtain ⟨hl, hskip⟩ := isNumber_of_number? hnumber
    exact ⟨l, .number hl, hskip⟩

theorem Sound.items_succ (h : Sound fuel) (hread : items? (fuel + 1) cs = some (js, r)) :
    ∃ l, Spells (.items js) l ∧ cs = l ++ ']' :: r := by
  rw [items?] at hread
  obtain ⟨⟨j, rest⟩, hvalue, hrest⟩ := Option.bind_eq_some_iff.1 hread
  obtain ⟨l, hl, rfl⟩ := h.spaced hvalue
  simp only at hrest
  split at hrest
  · next hskip =>
    obtain ⟨⟨js, r⟩, hitems, heq⟩ := Option.map_eq_some_iff.1 hrest
    cases heq
    obtain ⟨ls, hls, rfl⟩ := h.items hitems
    exact ⟨_, .item hl hls, by simp [hskip]⟩
  · next hskip =>
    cases hrest
    exact ⟨l, .lastItem hl, by rw [hskip]⟩
  · cases hrest

theorem Sound.members_succ (h : Sound fuel) (hread : members? (fuel + 1) cs = some (ms, r)) :
    ∃ l, Spells (.members ms) l ∧ cs = l ++ '\x7d' :: r := by
  obtain ⟨a, ha, hcs⟩ := exists_blanks cs
  rw [members?] at hread
  split at hread
  · next rest hquote =>
    obtain ⟨⟨key, afterKey⟩, hliteral, hbody⟩ := Option.bind_eq_some_iff.1 hread
    obtain ⟨hkey, rfl⟩ := isLiteral_of_literal? hliteral
    obtain ⟨b, hb, hafterKey⟩ := exists_blanks afterKey
    simp only at hbody
    split at hbody
    · next hcolon =>
      obtain ⟨⟨j, afterValue⟩, hvalue, hend⟩ := Option.bind_eq_some_iff.1 hbody
      obtain ⟨l, hl, rfl⟩ := h.spaced hvalue
      have hm := Spells.colon ha hkey hb hl
      rw [hcolon] at hafterKey
      simp only at hend
      split at hend
      · next hskip =>
        obtain ⟨⟨ms, r⟩, hmembers, heq⟩ := Option.map_eq_some_iff.1 hend
        cases heq
        obtain ⟨ls, hls, rfl⟩ := h.members hmembers
        exact ⟨_, .member hm hls, by rw [hcs, hquote, hafterKey, hskip]; simp⟩
      · next hskip =>
        cases hend
        exact ⟨_, .lastMember hm, by rw [hcs, hquote, hafterKey, hskip]; simp⟩
      · cases hend
    · cases hbody
  · cases hread

theorem sound (fuel : Nat) : Sound fuel := by
  induction fuel with
  | zero => exact ⟨by simp [value?], by simp [items?], by simp [members?]⟩
  | succ fuel ih => exact ⟨ih.value_succ, ih.items_succ, ih.members_succ⟩

/-- A text that spells a value, with blanks around it. -/
def Spelled (text : String) (j : Json) : Prop := Spells (.spaced j) text.toList

theorem parse?_eq_some_iff {text : String} : parse? text = some j ↔ Spelled text j := by
  rw [parse?]
  constructor
  · intro h
    split at h
    · next v r hread =>
      split at h
      · next hr =>
        cases h
        obtain ⟨l, hl, htext⟩ := (sound _).spaced hread
        rw [List.isEmpty_iff.1 hr, List.append_nil] at htext
        rw [Spelled, htext]
        exact hl
      · cases h
    · cases h
  · intro h
    obtain ⟨b, hb, hread⟩ := h.reads (2 * text.toList.length + 2) [] (by omega) (by simp [Ends])
    have hskip : skipBlanks (b ++ []) = [] := skipBlanks_append hb []
    rw [List.append_nil] at hread
    rw [hread]
    simp only [hskip]
    rfl

/-! ### Trees that texts spell -/

/-- Some text spells the value. -/
def Spellable (j : Json) : Prop := ∃ cs, Spells (.value j) cs

theorem Spells.spellable (h : Spells (.spaced j) cs) : Spellable j := by
  cases h with
  | spaced _ h _ => exact ⟨_, h⟩

theorem Spells.spellable_items (h : Spells (.items js) cs) : ∀ j ∈ js, Spellable j := by
  generalize hp : Part.items js = p at h
  induction h generalizing js with
  | lastItem h _ =>
    cases hp
    simpa using h.spellable
  | item h _ _ ih =>
    cases hp
    exact List.forall_mem_cons.2 ⟨h.spellable, ih rfl⟩
  | _ => cases hp

theorem Spells.spellable_member (h : Spells (.member m) cs) : Spellable m.2 := by
  cases h with
  | colon _ _ _ h => exact h.spellable

theorem Spells.spellable_members (h : Spells (.members ms) cs) : ∀ m ∈ ms, Spellable m.2 := by
  generalize hp : Part.members ms = p at h
  induction h generalizing ms with
  | lastMember h _ =>
    cases hp
    simpa using h.spellable_member
  | member h _ _ ih =>
    cases hp
    exact List.forall_mem_cons.2 ⟨h.spellable_member, ih rfl⟩
  | _ => cases hp

theorem Spellable.items (h : Spellable (.array js)) : ∀ j ∈ js, Spellable j := by
  obtain ⟨cs, h⟩ := h
  cases h with
  | emptyArray _ => simp
  | array h => exact h.spellable_items

theorem Spellable.members (h : Spellable (.object ms)) : ∀ m ∈ ms, Spellable m.2 := by
  obtain ⟨cs, h⟩ := h
  cases h with
  | emptyObject _ => simp
  | object h => exact h.spellable_members

theorem Whole.significant (h : Whole ds) : Numeral.significant ds = ds := by
  match ds, h with
  | [], _ => rfl
  | [_], _ => rfl
  | c :: d :: ds, h =>
    refine if_neg ?_
    rintro rfl
    cases h.lead rfl

theorem whole_of_significant (h : Digits ds) (hs : Numeral.significant ds = ds) : Whole ds where
  toDigits := h
  lead hzero := by
    match ds, hs, hzero with
    | [_], _, rfl => rfl
    | _ :: _ :: _, hs, rfl => exact absurd hs (Numeral.significant_ne _ _ _)

theorem whole_toDigits (n : Nat) : Whole (Nat.toDigits 10 n) := by
  have h : Digits (Nat.toDigits 10 n) :=
    ⟨Nat.toDigits_ne_nil, fun _ hd => Nat.isDigit_of_mem_toDigits (by decide) (by decide) hd⟩
  refine whole_of_significant h ?_
  rw [← Numeral.toDigits_of_digits h.ne_nil h.digit, Nat.ofDigitChars_toDigits (by decide) (by decide)]

theorem isNumber_toDigits (n : Nat) : IsNumber (Nat.toDigits 10 n) := by
  have h := IsUnsigned.intro (whole_toDigits n) .absent .absent
  rw [List.append_nil, List.append_nil] at h
  exact .unsigned h

theorem IsNumber.whole (h : IsNumber l) (hl : ∀ c ∈ l, c.isDigit = true) : Whole l := by
  cases h with
  | negative h => exact absurd (hl '-' (by simp)) (by decide)
  | unsigned h =>
    cases h with
    | intro hds hpart hpower =>
      cases hpart with
      | digits _ => exact absurd (hl '.' (by simp)) (by decide)
      | absent =>
        cases hpower with
        | @digits e _ _ he _ _ =>
          have he' := hl e (by simp)
          obtain rfl | rfl := he <;> exact absurd he' (by decide)
        | absent => rwa [List.append_nil, List.append_nil]

/-- A number that a text spells is read as `n` just if it is the decimal of `n`. -/
theorem nat?_eq_some_iff (h : Spellable j) {n : Nat} : j.nat? = some n ↔ j = ofNat n := by
  constructor
  · intro hn
    obtain ⟨cs, h⟩ := h
    cases h with
    | number h =>
      rw [nat?, Numeral.natural?, String.toList_ofList] at hn
      split at hn
      · next hcs =>
        have hwhole := h.whole (List.all_eq_true.1 hcs.2)
        cases hn
        rw [ofNat, Numeral.decimal, Numeral.toDigits_of_digits hwhole.ne_nil hwhole.digit, hwhole.significant]
      · cases hn
    | _ => cases hn
  · rintro rfl
    exact nat?_ofNat n

/-! ### Texts of the printer -/

theorem blanks_nil : Blanks [] := by simp [Blanks]

theorem spells_spaced (h : Spells (.value j) cs) : Spells (.spaced j) cs := by
  have hs := Spells.spaced blanks_nil h blanks_nil
  rwa [List.nil_append, List.append_nil] at hs

/-- What the printer writes of a part. -/
def Part.compact : Part → String
  | .value j => j.compact
  | .spaced j => j.compact
  | .items js => ",".intercalate (compactItems js)
  | .member m => compactMember m
  | .members ms => ",".intercalate (compactMembers ms)

theorem compactItems_ne_nil (h : Spells (.items js) cs) : compactItems js ≠ [] := by
  cases h <;> simp [compactItems]

theorem compactMembers_ne_nil (h : Spells (.members ms) cs) : compactMembers ms ≠ [] := by
  cases h <;> simp [compactMembers]

/-- The printer's text spells what some text spells. -/
theorem Spells.compact {p : Part} (h : Spells p cs) : Spells p p.compact.toList := by
  induction h with
  | null => exact .null
  | yes => exact .yes
  | no => exact .no
  | number h => simpa [Part.compact, Json.compact] using Spells.number h
  | string h => simpa [Part.compact, Json.compact, quoted] using Spells.string h
  | emptyArray h => exact .emptyArray blanks_nil
  | array h ih => simpa [Part.compact, Json.compact] using Spells.array ih
  | emptyObject h => exact .emptyObject blanks_nil
  | object h ih => simpa [Part.compact, Json.compact] using Spells.object ih
  | spaced ha h hb ih => exact spells_spaced ih
  | lastItem h ih => simpa [Part.compact, compactItems] using Spells.lastItem ih
  | item h hs ih ihs =>
    have hitem := Spells.item ih ihs
    rw [Part.compact, compactItems, String.intercalate_cons_of_ne_nil (compactItems_ne_nil hs)]
    simpa [Part.compact] using hitem
  | colon ha hkey hb h ih =>
    simpa [Part.compact, compactMember, quoted] using Spells.colon blanks_nil hkey blanks_nil ih
  | lastMember h ih => simpa [Part.compact, compactMembers] using Spells.lastMember ih
  | member h hs ih ihs =>
    have hmember := Spells.member ih ihs
    rw [Part.compact, compactMembers, String.intercalate_cons_of_ne_nil (compactMembers_ne_nil hs)]
    simpa [Part.compact] using hmember

theorem Spellable.spelled_compact (h : Spellable j) : Spelled j.compact j := by
  obtain ⟨cs, h⟩ := h
  exact spells_spaced h.compact

/-! ### Trees that the printer can write -/

theorem spellable_ofNat (n : Nat) : Spellable (ofNat n) := ⟨_, .number (isNumber_toDigits n)⟩

/-- A character that a string holds without an escape. -/
def isPlain (c : Char) : Bool := ' '.toNat ≤ c.toNat && c != '"' && c != '\\'

theorem isLiteral_of_plain (h : cs.all isPlain = true) : IsLiteral cs := by
  induction cs with
  | nil => exact .nil
  | cons c cs ih =>
    rw [List.all_cons, Bool.and_eq_true, isPlain, Bool.and_eq_true, Bool.and_eq_true, decide_eq_true_eq, bne_iff_ne,
      bne_iff_ne] at h
    obtain ⟨⟨⟨hc, hquote⟩, hslash⟩, hcs⟩ := h
    exact .plain hc hquote hslash (ih hcs)

theorem spellable_string {s : String} (h : IsLiteral s.toList) : Spellable (string s) := by
  have hs := Spells.string h
  rw [String.ofList_toList] at hs
  exact ⟨_, hs⟩

theorem spellable_array (h : ∀ j ∈ js, Spellable j) : Spellable (array js) := by
  cases js with
  | nil => exact ⟨_, .emptyArray blanks_nil⟩
  | cons j js =>
    suffices hitems : ∃ cs, Spells (.items (j :: js)) cs by
      obtain ⟨cs, hcs⟩ := hitems
      exact ⟨_, .array hcs⟩
    induction js generalizing j with
    | nil =>
      obtain ⟨cs, hcs⟩ := h j (by simp)
      exact ⟨cs, .lastItem (spells_spaced hcs)⟩
    | cons k js ih =>
      obtain ⟨hj, hjs⟩ := List.forall_mem_cons.1 h
      obtain ⟨cs, hcs⟩ := hj
      obtain ⟨ds, hds⟩ := ih k hjs
      exact ⟨_, .item (spells_spaced hcs) hds⟩

theorem spells_member (hkey : IsLiteral m.1.toList) (h : Spells (.value m.2) cs) : ∃ cs, Spells (.member m) cs := by
  have hm := Spells.colon blanks_nil hkey blanks_nil (spells_spaced h)
  rw [String.ofList_toList] at hm
  exact ⟨_, hm⟩

theorem spellable_object (h : ∀ m ∈ ms, IsLiteral m.1.toList ∧ Spellable m.2) : Spellable (object ms) := by
  cases ms with
  | nil => exact ⟨_, .emptyObject blanks_nil⟩
  | cons m ms =>
    suffices hmembers : ∃ cs, Spells (.members (m :: ms)) cs by
      obtain ⟨cs, hcs⟩ := hmembers
      exact ⟨_, .object hcs⟩
    induction ms generalizing m with
    | nil =>
      obtain ⟨hkey, _, hv⟩ := h m (by simp)
      obtain ⟨cs, hcs⟩ := spells_member hkey hv
      exact ⟨cs, .lastMember hcs⟩
    | cons n ms ih =>
      obtain ⟨⟨hkey, _, hv⟩, hms⟩ := List.forall_mem_cons.1 h
      obtain ⟨cs, hcs⟩ := spells_member hkey hv
      obtain ⟨ds, hds⟩ := ih n hms
      exact ⟨_, .member hcs hds⟩

end Json
end OpcodeDispatch
