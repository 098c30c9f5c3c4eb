import OpcodeDispatch.Proofs.CycleTokens
import OpcodeDispatch.Proofs.OperandLanguage
import OpcodeDispatch.Proofs.Primitives

/-!
Restart addresses. A token is two hexadecimal digits in either case, and perhaps an `H`. In the place
of the first digit a plus sign is taken too, and the other digit is the address then. Every other
token is at fault, and the fault carries it.
-/

namespace OpcodeDispatch
namespace Numeral

/-- The character is the hexadecimal digit of a value, in either case. -/
def IsHexDigit (c : Char) (x : Nat) : Prop := x < 16 ∧ c.toLower = x.digitChar

variable {c d e : Char} {n x y : Nat}

theorem IsHexDigit.ascii (h : IsHexDigit c x) : c.toNat < 128 := by
  have hdigits : ∀ x < 16, x.digitChar.toNat < 128 := by decide
  cases hcase : c.isUpper with
  | true => exact Text.ascii_of_isUpper hcase
  | false =>
    rw [← Text.toLower_of_not_isUpper hcase, h.2]
    exact hdigits x h.1

theorem ascii_of_hexValue? (h : hexValue? c = some x) : c.toNat < 128 ∧ x < 16 := by
  simp only [hexValue?, Char.isDigit_iff_toNat, Char.le_def, UInt32.le_iff_toNat_le, Char.toNat_val,
    Char.reduceToNat] at h
  split at h
  · cases h
    omega
  · split at h
    · cases h
      omega
    · split at h
      · cases h
        omega
      · cases h

theorem hexValue?_eq_some : hexValue? c = some x ↔ IsHexDigit c x := by
  -- no digit is outside ASCII, by either side, and inside it all are compared
  have hascii (hc : c.toNat < 128) : ∀ x < 16, hexValue? c = some x ↔ c.toLower = x.digitChar :=
    Text.forall_ascii (P := fun c => ∀ x < 16, hexValue? c = some x ↔ c.toLower = x.digitChar) (by decide +kernel) hc
  constructor
  · intro h
    obtain ⟨hc, hx⟩ := ascii_of_hexValue? h
    exact ⟨hx, (hascii hc x hx).1 h⟩
  · intro h
    exact (hascii h.ascii x h.1).2 h.2

theorem hexNumber?_two : hexNumber? [d, e] = some n ↔ ∃ x y, IsHexDigit d x ∧ IsHexDigit e y ∧ n = 16 * x + y := by
  simp only [← hexValue?_eq_some]
  constructor
  · intro h
    obtain ⟨x', hx, h⟩ := Option.bind_eq_some_iff.1 h
    obtain ⟨x, hd, rfl⟩ := Option.map_eq_some_iff.1 hx
    obtain ⟨n', hy, h⟩ := Option.bind_eq_some_iff.1 h
    obtain ⟨y, he, rfl⟩ := Option.map_eq_some_iff.1 hy
    cases h
    exact ⟨x, y, hd, he, by omega⟩
  · rintro ⟨x, y, hd, he, rfl⟩
    simp [hexNumber?, hd, he]

/-- A small number in four digits has zeros before its last two. -/
theorem hex_four (hn : n < 256) : hex 4 n = "0x00" ++ String.ofList (hexDigits 2 n) := by
  have hhigh : n / 16 / 16 = 0 := by omega
  have hdigits : hexDigits 4 n = ['0', '0'] ++ hexDigits 2 n := by
    simp [hexDigits, hhigh]
  rw [hex, hdigits, String.ofList_append, ← String.append_assoc]
  rfl

end Numeral

open Numeral (IsHexDigit)

/-! ### Tokens -/

/-- The token is the characters, alone or before an `H` in either case. -/
def IsMarked (token : String) (ds : List Char) : Prop := ∃ mark ∈ [[], ['H'], ['h']], token.toList = ds ++ mark

/-- The token has the two hexadecimal digits of an address. -/
def IsRestart (token : String) (n : Nat) : Prop :=
  ∃ d e x y, IsMarked token [d, e] ∧ IsHexDigit d x ∧ IsHexDigit e y ∧ n = 16 * x + y

/-- The token has a plus sign in the place of the first digit. -/
def IsSignedRestart (token : String) (n : Nat) : Prop := ∃ e, IsMarked token ['+', e] ∧ IsHexDigit e n

namespace Operation

variable {token : String} {d e : Char} {n : Nat}

theorem ne_mark (h : IsHexDigit e n) : e ≠ 'H' ∧ e ≠ 'h' := by
  rw [← Numeral.hexValue?_eq_some] at h
  constructor
  · rintro rfl
    cases h
  · rintro rfl
    cases h

theorem restartTarget?_of_marked (h : IsMarked token [d, e]) (he : e ≠ 'H' ∧ e ≠ 'h') : restartTarget? token =
    (if d = '+' then Numeral.hexValue? e else Numeral.hexNumber? [d, e]).map UInt8.ofNat := by
  obtain ⟨mark, hmark, htoken⟩ := h
  simp only [List.mem_cons, List.not_mem_nil, or_false] at hmark
  by_cases hd : d = '+' <;> rcases hmark with rfl | rfl | rfl <;> simp [restartTarget?, htoken, he, hd]

theorem marked_of_restartTarget? {target : UInt8} (h : restartTarget? token = some target) :
    ∃ d e, IsMarked token [d, e] ∧
      (if d = '+' then Numeral.hexValue? e else Numeral.hexNumber? [d, e]).map UInt8.ofNat = some target := by
  unfold restartTarget? at h
  extract_lets digits at h
  have hmarked : IsMarked token digits := by
    unfold digits
    split
    · next r hr => exact ⟨['H'], by simp, by rw [← List.reverse_reverse token.toList, hr, List.reverse_cons]⟩
    · next r hr => exact ⟨['h'], by simp, by rw [← List.reverse_reverse token.toList, hr, List.reverse_cons]⟩
    · exact ⟨[], by simp, (List.append_nil _).symm⟩
  clear_value digits
  split at h
  · exact ⟨_, _, hmarked, h⟩
  · next d e hd =>
    refine ⟨d, e, hmarked, ?_⟩
    rw [if_neg fun hplus => hd hplus]
    exact h
  · cases h

/-- The addresses of tokens: a sign counts for nothing. -/
theorem restartTarget?_eq_some {target : UInt8} : restartTarget? token = some target ↔
    ∃ n, (IsRestart token n ∨ IsSignedRestart token n) ∧ target = UInt8.ofNat n := by
  constructor
  · intro h
    obtain ⟨d, e, hmarked, h⟩ := marked_of_restartTarget? h
    obtain ⟨n, hn, rfl⟩ := Option.map_eq_some_iff.1 h
    refine ⟨n, ?_, rfl⟩
    split at hn
    · next hd =>
      subst hd
      exact .inr ⟨e, hmarked, Numeral.hexValue?_eq_some.1 hn⟩
    · obtain ⟨x, y, hd, he, rfl⟩ := Numeral.hexNumber?_two.1 hn
      exact .inl ⟨d, e, x, y, hmarked, hd, he, rfl⟩
  · rintro ⟨n, ⟨d, e, x, y, hmarked, hd, he, rfl⟩ | ⟨e, hmarked, he⟩, rfl⟩
    · have hsign : d ≠ '+' := by
        rintro rfl
        cases Numeral.hexValue?_eq_some.2 hd
      rw [restartTarget?_of_marked hmarked (ne_mark he), if_neg hsign, Numeral.hexNumber?_two.2 ⟨x, y, hd, he, rfl⟩]
      rfl
    · rw [restartTarget?_of_marked hmarked (ne_mark he), if_pos rfl, Numeral.hexValue?_eq_some.2 he]
      rfl

end Operation

theorem IsRestart.lt {token : String} {n : Nat} (h : IsRestart token n) : n < 256 := by
  obtain ⟨d, e, x, y, -, hd, he, rfl⟩ := h
  have hx := hd.1
  have hy := he.1
  omega

theorem IsSignedRestart.lt {token : String} {n : Nat} (h : IsSignedRestart token n) : n < 256 := by
  obtain ⟨e, -, he⟩ := h
  have hn := he.1
  omega

/-! ### Records -/

namespace Arm

open CycleCost (Denotes)

variable {s : Settings} {r : Record} {token : String} {n : Nat}

/-- The record has an arm, and all of it is the call of the restart at an address. -/
def CallsRestart (s : Settings) (r : Record) (n : Nat) : Prop :=
  ∃ a, ofRecord s r = .ok a ∧ a.branch = none ∧
    a.statements = ["self.rst(0x00" ++ String.ofList (Numeral.hexDigits 2 n) ++ ");"]

/-- What a token makes of the record that has no other operand. -/
structure Restarts (s : Settings) (r : Record) (token : String) : Prop where
  digits : ∀ n, IsRestart token n → CallsRestart s r n
  signed : ∀ n, IsSignedRestart token n → CallsRestart s r n
  other : (∀ n, ¬ IsRestart token n ∧ ¬ IsSignedRestart token n) → ofRecord s r = .error (.badRestart r.opcode token)

theorem ofRecord_of_target (hfamily : Family.ofMnemonic r.mnemonic = .restart) (htoken : r.operandList = [token])
    {target : UInt8} (h : Operation.restartTarget? token = some target) :
    Operation.ofRecord r = .ok (.restart target) := by
  rw [Operation.ofRecord, hfamily]
  simp only [Operation.ofRestart, htoken, h]

theorem ofRecord_of_no_target (hfamily : Family.ofMnemonic r.mnemonic = .restart) (htoken : r.operandList = [token])
    (h : Operation.restartTarget? token = none) : Operation.ofRecord r = .error (.badRestart r.opcode token) := by
  rw [Operation.ofRecord, hfamily]
  simp only [Operation.ofRestart, htoken, h]

theorem callsRestart_of_target {c : CycleCost} (h : Operation.ofRecord r = .ok (.restart (UInt8.ofNat n)))
    (hc : CycleCost.parse? r.cycleToken = some c) (hn : n < 256) : CallsRestart s r n := by
  obtain ⟨a, ha⟩ := ofRecord_of_cost (s := s) h hc
  obtain ⟨o, cost, ho, -, rfl⟩ := ofRecord_eq_ok ha
  obtain rfl : .restart (UInt8.ofNat n) = o := Except.ok.inj (h.symm.trans ho)
  refine ⟨_, ha, rfl, ?_⟩
  have hstatements : ((Operation.restart (UInt8.ofNat n)).code s.highMemoryBase).statements =
      ["self.rst(" ++ Numeral.hex 4 (UInt8.ofNat n).toNat ++ ");"] := rfl
  rw [hstatements, UInt8.toNat_ofNat_of_lt' hn, Numeral.hex_four hn, ← String.append_assoc]
  rfl

/-- A restart is called at the address of its token, whatever the settings. -/
theorem restarts_ofRecord (hm : Text.upper r.mnemonic = "RST") (hc : ∃ c, Denotes r.cycleToken c)
    (htoken : r.operandList = [token]) : Restarts s r token := by
  have hfamily : Family.ofMnemonic r.mnemonic = .restart := by
    rw [@Family.ofMnemonic_eq r.mnemonic .restart nofun, hm]
    decide
  obtain ⟨c, hc⟩ := hc
  have hcalls : ∀ n, IsRestart token n ∨ IsSignedRestart token n → n < 256 → CallsRestart s r n := by
    intro n hread hn
    have htarget := Operation.restartTarget?_eq_some.2 ⟨n, hread, rfl⟩
    exact callsRestart_of_target (ofRecord_of_target hfamily htoken htarget) hc.parse? hn
  constructor
  case digits => exact fun n h => hcalls n (.inl h) h.lt
  case signed => exact fun n h => hcalls n (.inr h) h.lt
  case other =>
    intro hnone
    cases htarget : Operation.restartTarget? token with
    | none => exact ofRecord_of_error (ofRecord_of_no_target hfamily htoken htarget)
    | some target =>
      obtain ⟨n, hread, -⟩ := Operation.restartTarget?_eq_some.1 htarget
      exact absurd hread (not_or.2 (hnone n))

/-- A plus sign and a digit are an address. -/
theorem restarts_at_sign :
    let r : Record := ⟨0xc7, 1, "RST", "+8", "1", "16", "- - - -"⟩
    Text.upper r.mnemonic = "RST" ∧ Denotes r.cycleToken (.fixed 16) ∧ r.operandList = ["+8"] ∧
      IsSignedRestart "+8" 8 ∧ (∀ n, ¬ IsRestart "+8" n) ∧
      ∃ a, ofRecord {} r = .ok a ∧ a.statements = ["self.rst(0x0008);"] := by
  intro r
  have hc : Denotes r.cycleToken (.fixed 16) := CycleCost.denotes_of_parse? (by decide +kernel)
  have htoken : r.operandList = ["+8"] := by decide +kernel
  have hsigned : IsSignedRestart "+8" 8 := ⟨'8', ⟨[], by simp, by decide⟩, by decide, by decide⟩
  have hm : Text.upper r.mnemonic = "RST" := by decide +kernel
  refine ⟨hm, hc, htoken, hsigned, ?_, ?_⟩
  · rintro n ⟨d, e, x, y, ⟨mark, hmark, hchars⟩, hd, he, rfl⟩
    obtain rfl : '+' = d := (List.cons.inj hchars).1
    cases Numeral.hexValue?_eq_some.2 hd
  · obtain ⟨a, ha, -, hstatements⟩ := (restarts_ofRecord (s := {}) hm ⟨_, hc⟩ htoken).signed 8 hsigned
    exact ⟨a, ha, hstatements⟩

end Arm
end OpcodeDispatch
