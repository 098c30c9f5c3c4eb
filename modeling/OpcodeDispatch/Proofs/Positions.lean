import Mathlib.Control.Monad.Basic
import OpcodeDispatch.Proofs.Primitives
import OpcodeDispatch.Proofs.Relayout

/-!
Where records and faults are said to be. Four lines are passed for each record and each placeholder,
but for the last separator, which a table need not have. From this the line of every record and of
every fault follows, whatever the table, the reserved opcodes and the leniency.
-/

namespace OpcodeDispatch
namespace Cursor

variable {lines ls : List Line} {c c' : Cursor} {op : Opcode} {f : Fault} {m k : Nat}

/-! ### Cursors over the lines of a table -/

theorem Passes.line (h : c.Passes ls c') (k : Nat) : c.rest[ls.length + k]? = c'.rest[k]? := by
  rw [h.1, List.getElem?_append_right (Nat.le_add_right _ _), Nat.add_sub_cancel_left]

/-- The cursor is somewhere in the lines, and counts those before it. -/
def IsIn (lines : List Line) (c : Cursor) : Prop := ∃ ls, Passes ⟨lines, 0⟩ ls c

theorem IsIn.passes (h : c.IsIn lines) (hc : c.Passes ls c') : c'.IsIn lines := by
  obtain ⟨before, hbefore⟩ := h
  exact ⟨before ++ ls, hbefore.trans hc⟩

theorem IsIn.line (h : c.IsIn lines) (k : Nat) : lines[c.passed + k]? = c.rest[k]? := by
  obtain ⟨before, hbefore⟩ := h
  have hpassed : c.passed = before.length := hbefore.2.trans (Nat.zero_add _)
  rw [hpassed]
  exact hbefore.line k

theorem IsIn.length (h : c.IsIn lines) : lines.length = c.passed + c.rest.length := by
  obtain ⟨before, hrest, hpassed⟩ := h
  have hlines : lines = before ++ c.rest := hrest
  have hlength : c.passed = before.length := hpassed.trans (Nat.zero_add _)
  rw [hlines, List.length_append, hlength]

/-- The lines that are skipped are blank. -/
theorem IsIn.blank (h : c.IsIn lines) (hk : c.passed ≤ k) (hk' : k < c.skipBlanks.passed) :
    ∃ l, lines[k]? = some l ∧ l.isBlank = true := by
  obtain ⟨j, rfl⟩ := Nat.exists_eq_add_of_le hk
  have hj : j < (c.rest.takeWhile Line.isBlank).length := Nat.lt_of_add_lt_add_left hk'
  have hlt : j < c.rest.length := Nat.lt_of_lt_of_le hj (List.takeWhile_prefix _).length_le
  refine ⟨c.rest[j], ?_, ?_⟩
  · rw [h.line, List.getElem?_eq_getElem hlt]
  · rw [← (List.takeWhile_prefix Line.isBlank).getElem hj]
    exact List.all_eq_true.1 List.all_takeWhile _ (List.getElem_mem hj)

theorem nonBlank?_eq_found {found : String} (h : c.nonBlank? = .ok (some found, c')) :
    c' = c.skipBlanks ∧ (∃ rest, c'.rest = .text found :: rest) ∧ Text.isBlank found = false := by
  obtain rfl := nonBlank?_eq_ok h
  have hblank := List.head?_dropWhile_not Line.isBlank c.rest
  dsimp only [nonBlank?] at h
  split at h
  · cases h
  · next s rest hrest =>
    cases h
    rw [show c.rest.dropWhile Line.isBlank = .text found :: rest from hrest] at hblank
    exact ⟨rfl, ⟨rest, hrest⟩, hblank⟩
  · cases h

theorem nonBlank?_eq_fault (h : c.nonBlank? = .error f) : ∃ cause, f = .unreadable cause := by
  dsimp only [nonBlank?] at h
  split at h
  · cases h
  · cases h
  · next cause _ _ =>
    cases h
    exact ⟨cause, rfl⟩

theorem part_eq_fault {missing : String} (h : c.part op missing = .error f) :
    (∃ cause, f = .unreadable cause) ∨ c.rest = [] ∧ f = .truncated op (c.passed + 1) missing := by
  unfold part at h
  split at h
  · next hrest =>
    cases h
    exact .inr ⟨hrest, rfl⟩
  · cases h
  · next cause _ _ =>
    cases h
    exact .inl ⟨cause, rfl⟩

theorem rest_of_nonBlank?_none (h : c.nonBlank? = .ok (none, c')) : c'.rest = [] := by
  obtain rfl := nonBlank?_eq_ok h
  dsimp only [nonBlank?] at h
  split at h
  · assumption
  · cases h
  · cases h

/-! ### Records -/

/-- What can be wrong where a record should be, by the lines that are there. -/
inductive Misread (c : Cursor) (op : Opcode) : Fault → Prop
  | unreadable (cause : FileError) : Misread c op (.unreadable cause)
  | cycles {head : String} (h : c.rest = [.text head]) : Misread c op (.truncated op (c.passed + 2) "cycle line")
  | flags {head cycles : String} (h : c.rest = [.text head, .text cycles]) :
      Misread c op (.truncated op (c.passed + 3) "flags line")
  | misaligned {k : Nat} {found : String} (h : c.rest[k]? = some (.text found)) (hfound : Text.isBlank found = false) :
      Misread c op (.misaligned (c.passed + k + 1) found)

theorem misread_of_separator {l l' l'' : Line} (hc : c.Passes [l, l', l''] c') (h : c'.separator = .error f) :
    Misread c op f := by
  unfold separator at h
  split at h
  · cases h
  · next s rest hrest =>
    split at h
    · cases h
    · next hblank =>
      cases h
      have hline := hc.line 0
      rw [hrest] at hline
      rw [hc.2]
      exact .misaligned hline (by simpa using hblank)
  · cases h
    exact .unreadable _

theorem separator_eq_ok (h : c.separator = .ok c') :
    c'.passed = c.passed + 1 ∨ c'.rest = [] ∧ c'.passed = c.passed := by
  unfold separator at h
  split at h
  · next hrest =>
    cases h
    exact .inr ⟨hrest, rfl⟩
  · split at h
    · cases h
      exact .inl rfl
    · cases h
  · cases h

theorem misread_of_record? (h : c.record? op = .error f) : Misread c op f := by
  rw [record?_eq] at h
  split at h
  · cases h
  · cases h
    exact .unreadable _
  · next head rest hrest =>
    split at h
    · rcases bind_eq_error h with h | ⟨⟨found, c₁⟩, h₁, h⟩
      · obtain ⟨cause, rfl⟩ := nonBlank?_eq_fault h
        exact .unreadable cause
      · cases found with
        | none => cases h
        | some s =>
          cases h
          obtain ⟨rfl, ⟨rest', hrest'⟩, hs⟩ := nonBlank?_eq_found h₁
          have hskip := passes_skipBlanks c
          have hline := hskip.line 0
          rw [hrest'] at hline
          rw [hskip.2]
          exact .misaligned hline hs
    · rcases bind_eq_error h with h | ⟨⟨cycles, c₁⟩, h₁, h⟩
      · rcases part_eq_fault h with ⟨cause, rfl⟩ | ⟨hnil, rfl⟩
        · exact .unreadable cause
        · have hnil : rest = [] := hnil
          exact .cycles (hnil ▸ hrest)
      have hhead : c.Passes [.text head] ⟨rest, c.passed + 1⟩ := ⟨hrest, rfl⟩
      have hcycles := hhead.trans (passes_part h₁)
      rcases bind_eq_error h with h | ⟨⟨flags, c₂⟩, h₂, h⟩
      · rcases part_eq_fault h with ⟨cause, rfl⟩ | ⟨hnil, rfl⟩
        · exact .unreadable cause
        · rw [hcycles.2]
          exact .flags (by rw [hcycles.1, hnil]; rfl)
      rcases bind_eq_error h with h | ⟨c₃, -, h⟩
      · exact misread_of_separator (hcycles.trans (passes_part h₂)) h
      · cases h

/-- A record takes four lines, or the last three. -/
theorem passed_of_record? {r : Record} (h : c.record? op = .ok (some r, c')) :
    c'.passed = c.passed + 4 ∨ c'.rest = [] ∧ c'.passed = c.passed + 3 := by
  obtain ⟨head, cycles, flags, rest, hrest, hhead, -⟩ := record?_eq_some h
  have hc : c = ⟨.text head :: .text cycles :: .text flags :: rest, c.passed⟩ := by rw [← hrest]
  rw [hc, record?_three hhead] at h
  cases hsep : separator ⟨rest, c.passed + 3⟩ with
  | error f =>
    rw [hsep] at h
    cases h
  | ok c₁ =>
    rw [hsep] at h
    cases h
    rcases separator_eq_ok hsep with hpassed | ⟨hnil, hpassed⟩
    · exact .inl hpassed
    · exact .inr ⟨hnil, hpassed⟩

theorem rest_of_record?_none (h : c.record? op = .ok (none, c')) : c'.rest = [] := by
  rw [record?_eq] at h
  split at h
  · next hrest =>
    cases h
    exact hrest
  · cases h
  · split at h
    · obtain ⟨⟨found, c₁⟩, h₁, h⟩ := bind_eq_ok h
      cases found with
      | none =>
        cases h
        exact rest_of_nonBlank?_none h₁
      | some s => cases h
    · obtain ⟨⟨cycles, c₁⟩, h₁, h⟩ := bind_eq_ok h
      obtain ⟨⟨flags, c₂⟩, h₂, h⟩ := bind_eq_ok h
      obtain ⟨c₃, h₃, h⟩ := bind_eq_ok h
      cases h

/-! ### Chunks -/

/-- The cursor is in the lines, after some chunks of four. The last of them may lack its separator. -/
structure Stands (lines : List Line) (m : Nat) (c : Cursor) : Prop where
  isIn : c.IsIn lines
  passed : c.passed = 4 * m ∨ c.rest = [] ∧ c.passed + 1 = 4 * m

theorem Stands.passed_of_rest (h : Stands lines m c) (hrest : c.rest ≠ []) : c.passed = 4 * m := by
  rcases h.passed with hpassed | ⟨hnil, -⟩
  · exact hpassed
  · exact absurd hnil hrest

theorem Stands.record? {r : Record} (h : Stands lines m c) (hr : c.record? op = .ok (some r, c')) :
    Stands lines (m + 1) c' := by
  obtain ⟨ls, hls⟩ := passes_record? hr
  refine ⟨h.isIn.passes hls, ?_⟩
  -- a separator that was missing left no line, so the record begins after whole chunks
  obtain ⟨head, cycles, flags, rest, hrest, -, -⟩ := record?_eq_some hr
  have hpassed := h.passed_of_rest (by simp [hrest])
  rcases passed_of_record? hr with hfour | ⟨hnil, hthree⟩
  · exact .inl (by omega)
  · exact .inr ⟨hnil, by omega⟩

theorem IsIn.ended (h : c.IsIn lines) (hrest : c.rest = []) : c.passed = lines.length := by
  have hlength := h.length
  rw [hrest] at hlength
  exact hlength.symm

end Cursor

/-- Whether an entry takes a chunk of the table: a record does, and a placeholder in the place of one. -/
def Slot.takesChunk (c : Cursor) : Slot → Bool
  | .record _ => true
  | .reserved => c.atPlaceholder

namespace TableReader

/-- How many records and placeholders are consumed by some calls. -/
def chunks : (n : Nat) → TableReader → Nat
  | 0, _ => 0
  | n + 1, r =>
    match r.next with
    | (some (.ok e), r') => (e.slot.takesChunk r.cursor).toNat + chunks n r'
    | (_, r') => chunks n r'

variable {lines : List Line} {r r' : TableReader} {c : Cursor} {op : Opcode} {slot : Slot} {f : Fault} {m n : Nat}

open Cursor (Stands Misread)
open Layout (atPlaceholder_blank)

/-- All that a slot can be, by what is read at the cursor. -/
inductive SlotFrom (r : TableReader) (op : Opcode) : Except Fault (Option Slot × Cursor) → Prop
  | absent (hp : r.cursor.atPlaceholder = false) : SlotFrom r op (.ok (some .reserved, r.cursor))
  | placeholder {rec : Record} {c : Cursor} (hp : r.cursor.atPlaceholder = true)
      (hr : r.cursor.record? op = .ok (some rec, c)) : SlotFrom r op (.ok (some .reserved, c))
  | record {rec : Record} {c : Cursor} (hr : r.cursor.record? op = .ok (some rec, c)) :
      SlotFrom r op (.ok (some (.record rec), c))
  | ended {c : Cursor} (hr : r.cursor.record? op = .ok (none, c)) : SlotFrom r op (.ok (none, c))
  | broken {f : Fault} (hr : r.cursor.record? op = .error f) : SlotFrom r op (.error f)

theorem slot?_from (r : TableReader) (op : Opcode) : SlotFrom r op (r.slot? op) := by
  by_cases hop : op ∈ r.reserved
  · cases hp : r.cursor.atPlaceholder with
    | false =>
      rw [slot?_absent hop hp]
      exact .absent hp
    | true =>
      rw [slot?_placeholder hop hp]
      rcases hr : r.cursor.record? op with f | ⟨_ | rec, c⟩
      · exact .broken hr
      · have hblank : r.cursor.atPlaceholder = false := atPlaceholder_blank (Cursor.record?_eq_none hr)
        exact absurd hp (by simp [hblank])
      · exact .placeholder hp hr
  · rw [slot?_record hop]
    rcases hr : r.cursor.record? op with f | ⟨_ | rec, c⟩
    · exact .broken hr
    · exact .ended hr
    · exact .record hr

/-- A slot that is read takes a chunk, or nothing at all. -/
theorem stands_slot? (h : Stands lines m r.cursor) (hs : r.slot? op = .ok (some slot, c)) :
    Stands lines (m + (slot.takesChunk r.cursor).toNat) c := by
  have hfrom := slot?_from r op
  rw [hs] at hfrom
  cases hfrom with
  | absent hp =>
    rw [Slot.takesChunk, hp]
    exact h
  | placeholder hp hr =>
    rw [Slot.takesChunk, hp]
    exact h.record? hr
  | record hr => exact h.record? hr

theorem misread_of_slot? (hs : r.slot? op = .error f) : Misread r.cursor op f := by
  have hfrom := slot?_from r op
  rw [hs] at hfrom
  cases hfrom with
  | broken hr => exact Cursor.misread_of_record? hr

theorem rest_of_slot?_none (hs : r.slot? op = .ok (none, c)) : c.rest = [] := by
  have hfrom := slot?_from r op
  rw [hs] at hfrom
  cases hfrom with
  | ended hr => exact Cursor.rest_of_record?_none hr

end TableReader

/-! ### Places -/

theorem Text.upper_cutAtSpace (s : String) : ∃ tail, upper s = upper (cutAtSpace s).1 ++ tail := by
  refine ⟨upper (String.ofList (s.toList.dropWhile (!isSpace ·))), ?_⟩
  rw [← upper_append, cutAtSpace, ← String.ofList_append, List.takeWhile_append_dropWhile, String.ofList_toList]

/-- The record is that of the chunk after `m` others, and its mnemonic begins the chunk, in any case and after
white space. -/
structure Record.IsAt (lines : List Line) (m : Nat) (r : Record) : Prop where
  line : r.line = 4 * m + 1
  word : Text.IsWord r.mnemonic
  head : ∃ head tail, lines[4 * m]? = some (.text head) ∧ Text.upper (Text.trim head) = r.mnemonic ++ tail

/-- An answer that is given after `m` chunks of the lines is where it says, one case for each answer that
there can be. Lines are counted from one. -/
inductive Placed (lines : List Line) (m : Nat) : Except Fault Entry → Prop
  | reserved (op : Opcode) : Placed lines m (.ok ⟨op, .reserved⟩)
  | record {op : Opcode} {r : Record} (h : r.IsAt lines m) : Placed lines m (.ok ⟨op, .record r⟩)
  | unreadable (cause : FileError) : Placed lines m (.error (.unreadable cause))
  /-- the line that is found, and not blank -/
  | misaligned {i : Nat} {found : String} (hline : lines[i]? = some (.text found))
      (hfound : Text.isBlank found = false) : Placed lines m (.error (.misaligned (i + 1) found))
  /-- the first line after the chunks that is not blank -/
  | trailing {i : Nat} {found : String} (hi : 4 * m ≤ i) (hline : lines[i]? = some (.text found))
      (hfound : Text.isBlank found = false)
      (hblank : ∀ k, 4 * m ≤ k → k < i → ∃ l, lines[k]? = some l ∧ l.isBlank = true) :
      Placed lines m (.error (.trailing (i + 1)))
  /-- the line after the last one, where the lines end after the head of a chunk -/
  | truncated {op : Opcode} {missing : String} (hhead : 4 * m < lines.length)
      (hcycles : missing = "cycle line" ↔ lines.length % 4 = 1)
      (hflags : missing = "flags line" ↔ lines.length % 4 = 2)
      (hmissing : missing = "cycle line" ∨ missing = "flags line") :
      Placed lines m (.error (.truncated op (lines.length + 1) missing))
  | early (op : Opcode) : Placed lines m (.error (.endsEarly op (lines.length + 1)))

section

variable {lines : List Line} {r r' : TableReader} {c : Cursor} {op : Opcode} {slot : Slot} {f : Fault} {m n : Nat}

open Cursor (Stands Misread)

theorem Record.isAt_of_slot? {rec : Record} (h : Stands lines m r.cursor)
    (hs : r.slot? op = .ok (some (.record rec), c)) : rec.IsAt lines m := by
  obtain ⟨head, cycles, flags, rest, hrest, hhead, rfl⟩ := TableReader.record_of_slot? hs
  have hpassed := h.passed_of_rest (by simp [hrest])
  constructor
  case line => exact congrArg (· + 1) hpassed
  case word => exact (Text.isWord_cutAtSpace hhead).upper
  case head =>
    have hline := h.isIn.line 0
    rw [hrest, hpassed] at hline
    obtain ⟨tail, htail⟩ := Text.upper_cutAtSpace (Text.trim head)
    exact ⟨head, tail, hline, htail⟩

theorem placed_of_misread (h : Stands lines m c) (hf : Misread c op f) : Placed lines m (.error f) := by
  have hlength := h.isIn.length
  cases hf with
  | unreadable cause => exact .unreadable cause
  | cycles hrest =>
    have hpassed := h.passed_of_rest (by simp [hrest])
    rw [hrest, List.length_singleton] at hlength
    rw [show c.passed + 2 = lines.length + 1 by omega]
    exact .truncated (by omega) (iff_of_true rfl (by omega)) (iff_of_false (by decide) (by omega)) (.inl rfl)
  | flags hrest =>
    have hpassed := h.passed_of_rest (by simp [hrest])
    rw [hrest, List.length_cons, List.length_singleton] at hlength
    rw [show c.passed + 3 = lines.length + 1 by omega]
    exact .truncated (by omega) (iff_of_false (by decide) (by omega)) (iff_of_true rfl (by omega)) (.inr rfl)
  | misaligned hline hfound => exact .misaligned ((h.isIn.line _).trans hline) hfound

theorem placed_trailing {found : String} (h : Stands lines m c) {c' : Cursor}
    (hc : c.nonBlank? = .ok (some found, c')) : Placed lines m (.error (.trailing (c'.passed + 1))) := by
  obtain ⟨rfl, ⟨rest, hrest⟩, hfound⟩ := Cursor.nonBlank?_eq_found hc
  have hskip := Cursor.passes_skipBlanks c
  have hpassed := h.passed_of_rest fun hnil => by
    rw [hskip.1, hrest] at hnil
    simp at hnil
  have hline := (h.isIn.passes hskip).line 0
  rw [hrest] at hline
  have hblank := fun k => h.isIn.blank (k := k)
  rw [hpassed] at hblank
  exact .trailing (hpassed ▸ hskip.2 ▸ Nat.le_add_right _ _) hline hfound hblank

theorem placed_fault (h : Stands lines m r.cursor) (hstep : r.step = .error f) : Placed lines m (.error f) := by
  cases hp : r.phase with
  | entry op =>
    rw [TableReader.step_entry hp] at hstep
    rcases hs : r.slot? op with g | ⟨_ | slot, c⟩
    · rw [hs] at hstep
      cases hstep
      exact placed_of_misread h (TableReader.misread_of_slot? hs)
    · rw [hs] at hstep
      obtain ⟨ls, hls⟩ := TableReader.passes_slot? hs
      have hended := (h.isIn.passes hls).ended (TableReader.rest_of_slot?_none hs)
      simp only at hstep
      split at hstep
      · cases hstep
      · cases hstep
        rw [hended]
        exact .early op
    · rw [hs] at hstep
      cases hstep
  | full =>
    rw [TableReader.step_full hp] at hstep
    rcases hc : r.cursor.nonBlank? with g | ⟨_ | found, c⟩
    · rw [hc] at hstep
      cases hstep
      obtain ⟨cause, rfl⟩ := Cursor.nonBlank?_eq_fault hc
      exact .unreadable cause
    · rw [hc] at hstep
      cases hstep
    · rw [hc] at hstep
      simp only at hstep
      split at hstep
      · cases hstep
      · cases hstep
        exact placed_trailing h hc
  | done =>
    rw [TableReader.step_done hp] at hstep
    cases hstep

/-- One call: its answer is in its place, and after an entry the reader is after the chunk of it. -/
theorem placed_next {answer : Except Fault Entry} (h : Stands lines m r.cursor) (hnext : r.next = (some answer, r')) :
    Placed lines m answer ∧
      ∀ e, answer = .ok e → Stands lines (m + (e.slot.takesChunk r.cursor).toNat) r'.cursor := by
  rw [TableReader.next] at hnext
  rcases hstep : r.step with f | _ | ⟨e, r₁⟩
  · rw [hstep] at hnext
    cases hnext
    refine ⟨placed_fault h hstep, fun e he => ?_⟩
    cases he
  · rw [hstep] at hnext
    cases hnext
  · rw [hstep] at hnext
    cases hnext
    obtain ⟨op, slot, c, -, hs, rfl, rfl⟩ := TableReader.step_eq_entry hstep
    refine ⟨?_, ?_⟩
    · cases slot with
      | reserved => exact .reserved op
      | record rec => exact .record (Record.isAt_of_slot? h hs)
    · rintro e he
      cases he
      exact TableReader.stands_slot? h hs

/-- All calls, from a reader that is after some chunks on. -/
theorem placed_call {answer : Except Fault Entry} (h : Stands lines m r.cursor) (hcall : r.call n = some answer) :
    Placed lines (m + r.chunks n) answer := by
  induction n generalizing r m with
  | zero => exact (placed_next h (Prod.ext hcall rfl)).1
  | succ n ih =>
    rw [TableReader.call_succ] at hcall
    -- nothing is answered after a call without an entry, and after one with an entry `Stands` goes on
    rcases hstep : r.step with f | _ | ⟨e, r₁⟩
    · rw [TableReader.next, hstep, TableReader.call_stop] at hcall
      cases hcall
    · rw [TableReader.next, hstep, TableReader.call_stop] at hcall
      cases hcall
    · have hnext := TableReader.next_of_entry hstep
      rw [hnext] at hcall
      rw [TableReader.chunks, hnext, ← Nat.add_assoc]
      exact ih ((placed_next h hnext).2 e rfl) hcall

end

/-- Whatever a call of a table's reader answers, it is where the answer says. -/
theorem placed_table {table : List UInt8} {R : OpcodeSet} {lenient : Bool} {n : Nat} {answer : Except Fault Entry}
    (h : (TableReader.ofTable table R lenient).call n = some answer) :
    Placed (Line.ofTable table) ((TableReader.ofTable table R lenient).chunks n) answer := by
  have hstart : Cursor.Stands (Line.ofTable table) 0 (TableReader.ofTable table R lenient).cursor :=
    ⟨⟨[], .refl _⟩, .inl rfl⟩
  have hplaced := placed_call hstart h
  rwa [Nat.zero_add] at hplaced

/-- A record, a placeholder in the place of one, and a record that has no flags. -/
def cutTable : List UInt8 := bytesOfText "NOP\n1  4\n- - - -\n\n-\n\n\n\nHALT\n1  4\n"

theorem placed_in_cutTable :
    let r := TableReader.ofTable cutTable (.ofList [1]) false
    r.call 2 = some (.error (.truncated 2 11 "flags line")) ∧ r.chunks 2 = 2 ∧
      Placed (Line.ofTable cutTable) 2 (.error (.truncated 2 11 "flags line")) := by
  intro r
  have hcall : r.call 2 = some (.error (.truncated 2 11 "flags line")) := by decide +kernel
  have hchunks : r.chunks 2 = 2 := by decide +kernel
  have hplaced := placed_table hcall
  rw [hchunks] at hplaced
  exact ⟨hcall, hchunks, hplaced⟩

end OpcodeDispatch
