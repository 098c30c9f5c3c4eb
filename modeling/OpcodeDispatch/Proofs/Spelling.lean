import OpcodeDispatch.AddressingMode
import OpcodeDispatch.Proofs.Words

/-!
The spellings of operands. A text names a mode exactly if, without the white space around it, it is
one of the mode's spellings: cutting a text into tokens loses nothing of it.
-/

namespace OpcodeDispatch
namespace AddressingMode

/-! ### Tokens -/

namespace Token

/-- The characters of a token. -/
def chars : Token → List Char
  | opening => ['(']
  | closing => [')']
  | plus => ['+']
  | minus => ['-']
  | word w => w

theorem chars_extend (c : Char) (ts : List Token) : (extend c ts).flatMap chars = c :: ts.flatMap chars := by
  unfold extend
  split <;> rfl

/-- Cutting a text into tokens loses nothing of it. -/
theorem chars_scan? {cs : List Char} {ts : List Token} (h : scan? cs = some ts) : ts.flatMap chars = cs := by
  induction cs generalizing ts with
  | nil =>
    cases h
    rfl
  | cons c cs ih =>
    rw [scan?] at h
    obtain ⟨rest, hrest, h⟩ := Option.bind_eq_some_iff.1 h
    have hmark : ∀ t : Token, t.chars = [c] → some (t :: rest) = some ts → ts.flatMap chars = c :: cs := by
      intro t ht hts
      cases hts
      rw [List.flatMap_cons, ht, ih hrest]
      rfl
    split at h
    · next hc => exact hmark _ (by rw [hc]; rfl) h
    split at h
    · next hc => exact hmark _ (by rw [hc]; rfl) h
    split at h
    · next hc => exact hmark _ (by rw [hc]; rfl) h
    split at h
    · next hc => exact hmark _ (by rw [hc]; rfl) h
    split at h
    · cases h
      rw [chars_extend, ih hrest]
    · cases h

end Token

/-! ### The names in a text -/

variable {w : String} {m : AddressingMode}

theorem mem_spellings_of_ofWord? (h : ofWord? w = some m) : w ∈ m.spellings := by
  unfold ofWord? at h
  split at h
  · next hw =>
    cases h
    simp [spellings, hw]
  split at h
  · next hw =>
    cases h
    simpa [spellings] using hw
  split at h
  · next hw =>
    cases h
    simp [spellings, hw]
  · obtain ⟨r, hr, rfl⟩ := Option.map_eq_some_iff.1 h
    simp [spellings, Register.ofName?_eq_some.1 hr]

theorem name_of_pair? {p : RegisterPair} (h : pair? w = some p) : w = p.name := by
  unfold pair? at h
  split at h
  · next hr =>
    cases h
    exact Register.ofName?_eq_some.1 hr
  · cases h

theorem mem_spellings_of_addressOf? {a : Address} (h : addressOf? w = some a) :
    "(" ++ w ++ ")" ∈ (indirect a).spellings := by
  unfold addressOf? at h
  split at h
  · next hw =>
    cases h
    simp [spellings, hw]
  split at h
  · next hw =>
    cases h
    simp [spellings, hw]
  split at h
  · next hw =>
    cases h
    simp [spellings, hw]
  · obtain ⟨p, hp, rfl⟩ := Option.map_eq_some_iff.1 h
    simp [spellings, name_of_pair? hp]

theorem ofList_opening (w : List Char) (ts : List Token) :
    String.ofList ((.opening :: .word w :: ts).flatMap Token.chars) =
      "(" ++ String.ofList w ++ String.ofList (ts.flatMap Token.chars) := by
  simp [String.ext_iff, Token.chars]

theorem mem_spellings_of_ofTokens? {ts : List Token} (h : ofTokens? ts = some m) :
    String.ofList (ts.flatMap Token.chars) ∈ m.spellings := by
  unfold ofTokens? at h
  split at h
  · next w => simpa [Token.chars] using mem_spellings_of_ofWord? h
  · next sp offset =>
    split at h
    · next hw =>
      cases h
      have htext : String.ofList ([.word sp, .plus, .word offset].flatMap Token.chars) =
          String.ofList sp ++ "+" ++ String.ofList offset := by
        simp [String.ext_iff, Token.chars]
      rw [htext, hw.1, hw.2]
      decide
    · cases h
  · next w =>
    obtain ⟨a, ha, rfl⟩ := Option.map_eq_some_iff.1 h
    rw [ofList_opening]
    exact mem_spellings_of_addressOf? ha
  · next w =>
    obtain ⟨p, hp, rfl⟩ := Option.map_eq_some_iff.1 h
    rw [ofList_opening, name_of_pair? hp]
    exact List.mem_singleton_self _
  · next w =>
    obtain ⟨p, hp, rfl⟩ := Option.map_eq_some_iff.1 h
    rw [ofList_opening, name_of_pair? hp]
    exact List.mem_singleton_self _
  · cases h

/-- A text names a mode exactly if it is spelled so. -/
theorem parse?_eq_some {t : String} : parse? t = some m ↔ Text.trim t ∈ m.spellings := by
  constructor
  · intro h
    rw [parse?] at h
    obtain ⟨ts, hts, h⟩ := Option.bind_eq_some_iff.1 h
    have hmem := mem_spellings_of_ofTokens? h
    rwa [Token.chars_scan? hts, String.ofList_toList] at hmem
  · intro h
    have hparse := parse?_spelling h
    rwa [parse?, Text.trimmed_trim] at hparse

theorem parse?_trimmed {t : String} (ht : Text.Trimmed t) : parse? t = some m ↔ t ∈ m.spellings := by
  rw [parse?_eq_some, ht]

/-! ### Texts of modes with a property -/

def all : List AddressingMode :=
  Register.all.map register ++ [immediateByte, immediateWord, relativeByte, stackOffset] ++
    (RegisterPair.all.map (indirect ∘ .pair) ++ RegisterPair.all.map (indirect ∘ .increment) ++
      RegisterPair.all.map (indirect ∘ .decrement) ++
      [indirect .absolute, indirect .highByte, indirect .highRegister])

theorem mem_all (m : AddressingMode) : m ∈ all := by
  cases m with
  | register r =>
    rcases r with r | p
    · cases r <;> decide
    · cases p <;> decide
  | indirect a =>
    cases a with
    | pair p | increment p | decrement p => cases p <;> decide
    | absolute | highByte | highRegister => decide
  | immediateByte | immediateWord | relativeByte | stackOffset => decide

instance (P : AddressingMode → Prop) [DecidablePred P] : Decidable (∀ m, P m) :=
  decidable_of_iff (∀ m ∈ all, P m) ⟨fun h m => h m (mem_all m), fun h m _ => h m⟩

/-- The texts are the spellings of the modes with the property. -/
def Spells (texts : List String) (p : AddressingMode → Bool) : Prop :=
  (∀ t ∈ texts, (parse? t).any p = true) ∧ ∀ m, p m = true → ∀ t ∈ m.spellings, t ∈ texts

instance (texts : List String) (p : AddressingMode → Bool) : Decidable (Spells texts p) :=
  inferInstanceAs (Decidable (_ ∧ _))

variable {texts : List String} {p : AddressingMode → Bool} {t : String}

theorem Spells.mem_iff (h : Spells texts p) (ht : Text.Trimmed t) (hm : parse? t = some m) :
    t ∈ texts ↔ p m = true := by
  refine ⟨fun hmem => ?_, fun hp => h.2 m hp t ((parse?_trimmed ht).1 hm)⟩
  have hany := h.1 t hmem
  rwa [hm] at hany

/-- The spellings of one mode, where the property is to be given something. -/
theorem Spells.only (h : Spells texts (· = m)) (a : α) :
    Spells texts fun m' => (if m' = m then some a else none).isSome := by
  have hp : (fun m' => (if m' = m then some a else none).isSome) = fun m' => decide (m' = m) := by
    funext m'
    split
    · next heq => simp [heq]
    · next hne => simp [hne]
  rw [hp]
  exact h

theorem Spells.isSome (h : Spells texts p) (hmem : t ∈ texts) : (parse? t).isSome = true := by
  have hany := h.1 t hmem
  cases hm : parse? t with
  | none =>
    rw [hm] at hany
    cases hany
  | some m => rfl

end AddressingMode
end OpcodeDispatch
