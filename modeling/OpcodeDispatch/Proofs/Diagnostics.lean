import OpcodeDispatch.Proofs.OneLine
import OpcodeDispatch.Proofs.OperandLanguage

/-!
Diagnostics. What stands between the quotes of a quoted text reads back as the text. It shows on one
line, and no quote in it is left bare. So a diagnostic quotes the message of its fault without loss,
and a message quotes the token that is at fault.
-/

namespace OpcodeDispatch

/-! ### Numbered escapes -/

namespace Numeral

theorem hexNumber?_append (cs ds : List Char) :
    hexNumber? (cs ++ ds) = (hexNumber? cs).bind fun n => ds.foldlM (fun n c => (hexValue? c).map (16 * n + ·)) n := by
  rw [hexNumber?, List.foldlM_append]
  rfl

theorem hexNumber?_toDigits (n : Nat) : hexNumber? (Nat.toDigits 16 n) = some n := by
  have hdigit : ∀ x < 16, hexValue? x.digitChar = some x := by decide
  induction n using Nat.strongRecOn with
  | ind n ih =>
    rcases Nat.lt_or_ge n 16 with hn | hn
    · rw [Nat.toDigits_of_lt_base hn]
      simp [hexNumber?, hdigit n hn]
    · rw [Nat.toDigits_of_base_le (by decide) hn, hexNumber?_append, ih (n / 16) (by omega)]
      simp [hdigit (n % 16) (Nat.mod_lt n (by decide)), Nat.div_add_mod]

theorem not_mem_toDigits {n : Nat} {c : Char} (hc : ∀ x < 16, x.digitChar ≠ c) : c ∉ Nat.toDigits 16 n := by
  intro h
  obtain ⟨x, hlt, hx⟩ := digit_of_mem_toDigits h
  exact hc x hlt hx

end Numeral

/-! ### Quoted text -/

namespace Quoted

/-- How many backslashes the text ends in. -/
def slashes (cs : List Char) : Nat := (cs.reverse.takeWhile (· = '\\')).length

/-- What can stand between two quotes for a text. -/
structure IsLiteral (inner : List Char) (text : String) : Prop where
  read : unescape? inner = some text.toList
  printable : ∀ c ∈ inner, ¬ Text.isUnprintable c
  one_line : '\n' ∉ inner
  /-- an odd number of backslashes leaves one that belongs to the quote -/
  escaped : ∀ before after, inner = before ++ '"' :: after → slashes before % 2 = 1

variable {c : Char} {r ds es cs before after : List Char}

theorem ofHex?_toDigits (c : Char) : ofHex? (Nat.toDigits 16 c.toNat) = some c := by
  have hvalid : c.toNat.isValidChar := c.valid
  have hlt : c.toNat < 16 ^ 6 := by
    rcases hvalid with h | h <;> omega
  have hlength : (Nat.toDigits 16 c.toNat).length ≤ 6 := (Nat.length_toDigits_le_iff (by decide) (by decide)).2 hlt
  have hne : Nat.toDigits 16 c.toNat ≠ [] := Nat.toDigits_ne_nil
  have hguard : (guard (Nat.toDigits 16 c.toNat ≠ [] ∧ (Nat.toDigits 16 c.toNat).length ≤ 6) :
      Option Unit) = some () := if_pos ⟨hne, hlength⟩
  rw [ofHex?, hguard]
  simp [Numeral.hexNumber?_toDigits, hvalid]

/-- The digits of a numbered escape are kept until it closes. -/
theorem unescapeFrom_pending (h : '\x7d' ∉ es) :
    unescapeFrom (some ds) (es ++ '\x7d' :: r) = do return (← ofHex? (ds ++ es)) :: (← unescapeFrom none r) := by
  induction es generalizing ds with
  | nil => simp [unescapeFrom]
  | cons c es ih =>
    rw [List.mem_cons, not_or] at h
    rw [List.cons_append, unescapeFrom, if_neg (Ne.symm h.1), ih h.2]
    simp

theorem ne_of_letter?_eq_none (h : letter? c = none) : c ≠ '"' ∧ c ≠ '\\' := by
  constructor <;> rintro rfl <;> exact absurd h (by decide)

theorem unescapeFrom_plain (hquote : c ≠ '"') (hslash : c ≠ '\\') :
    unescapeFrom none (c :: r) = (unescapeFrom none r).map (c :: ·) := by
  rw [unescapeFrom]
  · simp [hquote, hslash]
  · exact fun _ hc => absurd hc hslash
  · exact fun _ _ hc => absurd hc hslash

theorem unescapeFrom_letter {l : Char} (h : letter? c = some l) :
    unescapeFrom none ('\\' :: l :: r) = (unescapeFrom none r).map (c :: ·) := by
  have hof := ofLetter?_of_letter? h
  have hl : l ≠ 'u' := by
    rintro rfl
    simp [ofLetter?] at hof
  rw [unescapeFrom]
  · rw [hof]
    cases unescapeFrom none r <;> rfl
  · exact fun _ hlu _ => hl hlu

theorem unescapeFrom_number (c : Char) :
    unescapeFrom none (['\\', 'u', '\x7b'] ++ Nat.toDigits 16 c.toNat ++ ['\x7d'] ++ r) =
      (unescapeFrom none r).map (c :: ·) := by
  have hdigits : '\x7d' ∉ Nat.toDigits 16 c.toNat := Numeral.not_mem_toDigits (by decide)
  have hchars : ['\\', 'u', '\x7b'] ++ Nat.toDigits 16 c.toNat ++ ['\x7d'] ++ r =
      '\\' :: 'u' :: '\x7b' :: (Nat.toDigits 16 c.toNat ++ '\x7d' :: r) := by simp
  rw [hchars, unescapeFrom, unescapeFrom_pending hdigits, List.nil_append, ofHex?_toDigits]
  cases unescapeFrom none r <;> rfl

theorem unescapeFrom_escapeChar (c : Char) (r : List Char) :
    unescapeFrom none (escapeChar c ++ r) = (unescapeFrom none r).map (c :: ·) := by
  unfold escapeChar
  split
  · next l hl => exact unescapeFrom_letter hl
  · next hl =>
    split
    · exact unescapeFrom_number c
    · obtain ⟨hquote, hslash⟩ := ne_of_letter?_eq_none hl
      exact unescapeFrom_plain hquote hslash

theorem unescapeFrom_escape (cs r : List Char) :
    unescapeFrom none (escape cs ++ r) = (unescapeFrom none r).map (cs ++ ·) := by
  induction cs with
  | nil => simp [escape]
  | cons c cs ih =>
    rw [escape, List.flatMap_cons, ← escape, List.append_assoc, unescapeFrom_escapeChar, ih, Option.map_map]
    rfl

theorem unescape?_escape (cs : List Char) : unescape? (escape cs) = some cs := by
  have h := unescapeFrom_escape cs []
  rwa [List.append_nil, unescapeFrom, Option.map_some, List.append_nil] at h

/-- Backslashes that come in pairs before a text change nothing at its end. -/
theorem slashes_append (h : slashes ds % 2 = 0) : slashes (ds ++ es) % 2 = slashes es % 2 := by
  rw [slashes, List.reverse_append, List.takeWhile_append]
  split
  · next hall =>
    rw [List.length_append, ← slashes, Nat.add_mod, h, slashes, hall]
    simp
  · rfl

theorem slashes_append_of_ne (h : c ≠ '\\') : slashes (ds ++ [c]) = 0 := by
  simp [slashes, h]

theorem slashes_escapeChar (c : Char) : slashes (escapeChar c) % 2 = 0 := by
  unfold escapeChar
  split
  · next l hl =>
    by_cases hslash : l = '\\'
    · rw [hslash]
      decide
    · rw [← List.singleton_append (l := [l]), slashes_append_of_ne hslash]
  · next hl =>
    split
    · rw [slashes_append_of_ne (by decide)]
    · rw [← List.nil_append [c], slashes_append_of_ne (ne_of_letter?_eq_none hl).2]

theorem eq_quote_of_mem (h : '"' ∈ escapeChar c) : c = '"' := by
  unfold escapeChar at h
  split at h
  · next l hl =>
    rw [List.mem_cons, List.mem_singleton] at h
    rcases h with h | rfl
    · cases h
    · have hof : ofLetter? '"' = some '"' := by decide
      exact Option.some.inj ((ofLetter?_of_letter? hl).symm.trans hof)
  · split at h
    · simp only [List.mem_append] at h
      rcases h with (h | h) | h
      · exact absurd h (by decide)
      · exact absurd h (Numeral.not_mem_toDigits (by decide))
      · exact absurd h (by decide)
    · exact (List.mem_singleton.1 h).symm

/-- The one escape with a quote is that of the quote. -/
theorem slashes_of_escapeChar (h : escapeChar c = before ++ '"' :: after) : slashes before % 2 = 1 := by
  obtain rfl := eq_quote_of_mem (c := c) (by simp [h])
  have hquote : escapeChar '"' = ['\\', '"'] := by decide
  rw [hquote] at h
  match before with
  | [] => cases h
  | [d] =>
    cases h
    decide
  | d :: e :: before => simp at h

theorem slashes_of_escape (h : escape cs = before ++ '"' :: after) : slashes before % 2 = 1 := by
  induction cs generalizing before with
  | nil => simp [escape] at h
  | cons c cs ih =>
    rw [escape, List.flatMap_cons, ← escape] at h
    rcases List.append_eq_append_iff.1 h with ⟨mid, hbefore, hmid⟩ | ⟨mid, hc, hmid⟩
    · rw [hbefore, slashes_append (slashes_escapeChar c)]
      exact ih hmid
    · cases mid with
      | nil =>
        -- the quote would open the escape of what follows
        rw [List.append_nil] at hc
        rw [List.nil_append] at hmid
        rw [← hc, ← List.append_nil (escapeChar c), slashes_append (slashes_escapeChar c)]
        exact ih hmid.symm
      | cons d mid =>
        obtain ⟨rfl, -⟩ := List.cons.inj hmid
        exact slashes_of_escapeChar hc

theorem isLiteral_escape (text : String) : IsLiteral (escape text.toList) text where
  read := unescape?_escape text.toList
  printable := printable_escape text.toList
  one_line h := printable_escape text.toList '\n' h (by decide)
  escaped before after := slashes_of_escape

/-- A quoted text is its escapes between two quotes. -/
theorem quote_eq (text : String) : quote text = "\"" ++ String.ofList (escape text.toList) ++ "\"" := by
  rw [String.ext_iff]
  simp [quote]

end Quoted

/-! ### Messages that end in a token -/

namespace Fault

/-- The token that a message quotes at its end. -/
def token? : Fault → Option String
  | badCycles _ token | badRestart _ token => some token
  | _ => none

/-- The fault is about this token of the record. -/
inductive IsAbout (r : Record) : Fault → String → Prop
  | cycles : IsAbout r (badCycles r.opcode r.cycleToken) r.cycleToken
  | restart {token : String} (h : r.operandList = [token]) : IsAbout r (badRestart r.opcode token) token

variable {f : Fault} {token : String} {r : Record} {s : Settings}

theorem message_token (h : f.token? = some token) :
    ∃ opening, '"' ∉ opening.toList ∧ f.message = opening ++ Quoted.quote token := by
  have hopcode : ∀ op : Opcode, ∀ text : String, '"' ∉ text.toList → '"' ∉ (op.render ++ text).toList := by
    intro op text htext
    rw [String.toList_append, List.mem_append, not_or]
    exact ⟨Numeral.not_mem_hex (by decide) (by decide), htext⟩
  cases f with
  | badCycles op t =>
    cases h
    exact ⟨_, hopcode op ": invalid cycle token " (by decide), rfl⟩
  | badRestart op t =>
    cases h
    exact ⟨_, hopcode op ": invalid restart target " (by decide), rfl⟩
  | _ => cases h

theorem isAbout_of_error (htoken : f.token? = some token) (h : Arm.ofRecord s r = .error f) : IsAbout r f token := by
  have hjudged := Operation.judged_ofRecord (r := r)
  cases ho : Operation.ofRecord r with
  | error g =>
    rw [Arm.ofRecord_of_error ho] at h
    obtain rfl := Except.error.inj h
    rw [ho] at hjudged
    cases hjudged with | misfits _ hblames =>
    cases hblames with
    | restart hshape hops =>
      cases htoken
      exact .restart hops
    | _ => cases htoken
  | ok o =>
    cases hc : CycleCost.parse? r.cycleToken with
    | some c =>
      obtain ⟨a, ha⟩ := Arm.ofRecord_of_cost (s := s) ho hc
      rw [ha] at h
      cases h
    | none =>
      rw [Arm.ofRecord_of_badCycles ho hc] at h
      cases h
      cases htoken
      exact .cycles

end Fault

/-! ### Diagnostics -/

namespace Arm

/-- What a diagnostic shows of a fault. -/
structure Quotes (op : Opcode) (f : Fault) (cost : Option String) : Prop where
  literal : ∃ inner, Quoted.IsLiteral inner f.message ∧
    (diagnostic op f cost).render = "0x" ++ String.ofList (Numeral.hexDigits 2 op.val) ++
      " => \x7b compile_error!(\"" ++ String.ofList inner ++ "\"); " ++ cost.getD "0" ++ " \x7d,"
  one_line : Text.IsLine (cost.getD "0") → Text.IsLine (diagnostic op f cost).render
  /-- the first quote of the message opens the token, and the last one closes it -/
  token : ∀ token, f.token? = some token → ∃ opening inner, '"' ∉ opening.toList ∧ Quoted.IsLiteral inner token ∧
    f.message = opening ++ "\"" ++ String.ofList inner ++ "\""
  about : ∀ s r token, f.token? = some token → ofRecord s r = .error f → Fault.IsAbout r f token

/-- A diagnostic quotes its fault without loss. -/
theorem quotes (op : Opcode) (f : Fault) (cost : Option String) : Quotes op f cost where
  literal := by
    refine ⟨_, Quoted.isLiteral_escape f.message, ?_⟩
    simp [diagnostic, render, renderBranch, Opcode.render, Numeral.hex, Quoted.quote_eq, String.ext_iff]
  one_line := isLine_diagnostic
  token token h := by
    obtain ⟨opening, hopening, hmessage⟩ := Fault.message_token h
    refine ⟨opening, _, hopening, Quoted.isLiteral_escape token, ?_⟩
    rw [hmessage, Quoted.quote_eq, ← String.append_assoc, ← String.append_assoc]
  about s r token := Fault.isAbout_of_error

example : (diagnostic 0xc7 (.badRestart 0xc7 "0\"") none).render =
    "0xc7 => \x7b compile_error!(\"0xc7: invalid restart target \\\"0\\\\\\\"\\\"\"); 0 \x7d," := by
  decide +kernel

end Arm
end OpcodeDispatch
