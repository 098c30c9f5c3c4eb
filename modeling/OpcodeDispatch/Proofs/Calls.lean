import OpcodeDispatch.Proofs.Reading

/-!
The calls of a reader, one after the other: entries in the order of the opcodes, then at most one
fault, then nothing for ever. `Gives` is the stretch of the calls that give entries, and `History`
says of every call what it gives.
-/

namespace OpcodeDispatch
namespace Cursor

variable {c c' c'' : Cursor} {op : Opcode} {ls ls' : List Line}

/-- From `c` to `c'` the lines `ls` are passed. -/
def Passes (c : Cursor) (ls : List Line) (c' : Cursor) : Prop :=
  c.rest = ls ++ c'.rest ∧ c'.passed = c.passed + ls.length

theorem Passes.refl (c : Cursor) : c.Passes [] c := ⟨rfl, rfl⟩

theorem Passes.trans (h : c.Passes ls c') (h' : c'.Passes ls' c'') : c.Passes (ls ++ ls') c'' := by
  refine ⟨?_, ?_⟩
  · rw [h.1, h'.1, List.append_assoc]
  · rw [h'.2, h.2, List.length_append, Nat.add_assoc]

theorem passes_skipBlanks (c : Cursor) : c.Passes (c.rest.takeWhile Line.isBlank) c.skipBlanks :=
  ⟨List.takeWhile_append_dropWhile.symm, rfl⟩

theorem nonBlank?_eq_ok {found : Option String} (h : c.nonBlank? = .ok (found, c')) : c' = c.skipBlanks := by
  dsimp only [nonBlank?] at h
  split at h
  · cases h
    rfl
  · cases h
    rfl
  · cases h

theorem nonBlank?_eq_none (h : c.nonBlank? = .ok (none, c')) : ∀ l ∈ c.rest, l.isBlank = true := by
  dsimp only [nonBlank?] at h
  split at h
  · next hrest =>
    have htake := (passes_skipBlanks c).1
    rw [hrest, List.append_nil] at htake
    rw [htake]
    exact List.all_eq_true.1 List.all_takeWhile
  · cases h
  · cases h

theorem passes_part {missing s : String} (h : c.part op missing = .ok (s, c')) :
    c.Passes [.text s] c' := part_eq_ok h

theorem passes_separator (h : c.separator = .ok c') : ∃ ls, c.Passes ls c' := by
  unfold separator at h
  split at h
  · cases h
    exact ⟨[], .refl c⟩
  · next s rest hrest =>
    split at h
    · cases h
      exact ⟨[.text s], hrest, rfl⟩
    · cases h
  · cases h

theorem passes_record? {found : Option Record} (h : c.record? op = .ok (found, c')) :
    ∃ ls, c.Passes ls c' := by
  rw [record?_eq] at h
  split at h
  · cases h
    exact ⟨[], .refl c⟩
  · cases h
  · next head rest hrest =>
    split at h
    · obtain ⟨⟨found, c₁⟩, h₁, h⟩ := bind_eq_ok h
      obtain rfl := nonBlank?_eq_ok h₁
      cases found with
      | none =>
        cases h
        exact ⟨_, passes_skipBlanks c⟩
      | some s => cases h
    · obtain ⟨⟨cycles, c₁⟩, h₁, h⟩ := bind_eq_ok h
      obtain ⟨⟨flags, c₂⟩, h₂, h⟩ := bind_eq_ok h
      obtain ⟨c₃, h₃, h⟩ := bind_eq_ok h
      cases h
      have hhead : c.Passes [.text head] ⟨rest, c.passed + 1⟩ := ⟨hrest, rfl⟩
      obtain ⟨ls, hsep⟩ := passes_separator h₃
      exact ⟨_, hhead.trans ((passes_part h₁).trans ((passes_part h₂).trans hsep))⟩

theorem record?_eq_none (h : c.record? op = .ok (none, c')) : ∀ l ∈ c.rest, l.isBlank = true := by
  rw [record?_eq] at h
  split at h
  · next hrest => simp [hrest]
  · cases h
  · split at h
    · obtain ⟨⟨found, c₁⟩, h₁, h⟩ := bind_eq_ok h
      cases found with
      | none => exact nonBlank?_eq_none h₁
      | some s => cases h
    · obtain ⟨⟨cycles, c₁⟩, h₁, h⟩ := bind_eq_ok h
      obtain ⟨⟨flags, c₂⟩, h₂, h⟩ := bind_eq_ok h
      obtain ⟨c₃, h₃, h⟩ := bind_eq_ok h
      cases h

end Cursor

namespace TableReader

variable {r r' last : TableReader} {op : Opcode} {e : Entry} {es : List Entry}

theorem passes_slot? {slot? : Option Slot} {c : Cursor} (h : r.slot? op = .ok (slot?, c)) :
    ∃ ls, r.cursor.Passes ls c := by
  unfold TableReader.slot? at h
  split at h
  · split at h
    · obtain ⟨⟨found, c₁⟩, hfound, h⟩ := bind_eq_ok h
      cases h
      exact Cursor.passes_record? hfound
    · cases h
      exact ⟨[], .refl _⟩
  · obtain ⟨⟨found, c₁⟩, hfound, h⟩ := bind_eq_ok h
    cases h
    exact Cursor.passes_record? hfound

/-- The record of a slot is that of the lines at the cursor, the first of them not blank. -/
theorem record_of_slot? {rec : Record} {c : Cursor} (h : r.slot? op = .ok (some (.record rec), c)) :
    ∃ head cycles flags rest, r.cursor.rest = .text head :: .text cycles :: .text flags :: rest ∧
      Text.isBlank head = false ∧ rec = Record.ofLines op (r.cursor.passed + 1) head cycles flags := by
  rw [slot?_record (slot?_eq_some h).not_mem] at h
  rcases hfound : r.cursor.record? op with f | ⟨_ | found, c'⟩
  · simp [hfound, Except.map] at h
  · simp [hfound, Except.map] at h
  · obtain ⟨rfl, -⟩ : found = rec ∧ c' = c := by simpa [hfound, Except.map] using h
    exact Cursor.record?_eq_some hfound

/-- An entry is read by a reader that has passed some of the lines. -/
theorem slot_of_answers {n : Nat} {slot : Slot} (he : .ok ⟨op, slot⟩ ∈ r.answers n) :
    ∃ (r' : TableReader) (c : Cursor) (ls : List Line), r.cursor.Passes ls r'.cursor ∧
      r'.slot? op = .ok (some slot, c) := by
  induction n generalizing r with
  | zero => cases he
  | succ n ih =>
    rw [answers_succ] at he
    rcases hstep : r.step with f | _ | ⟨e, r₁⟩ <;> simp only [hstep] at he
    · simp [answers_stop] at he
    · cases he
    · obtain ⟨op', slot', c, -, hslot, rfl, rfl⟩ := step_eq_entry hstep
      rcases List.mem_cons.1 he with he | he
      · cases he
        exact ⟨r, c, [], .refl _, hslot⟩
      · obtain ⟨ls, hls⟩ := passes_slot? hslot
        obtain ⟨r', c', ls', hls', hslot'⟩ := ih he
        exact ⟨r', c', ls ++ ls', hls.trans hls', hslot'⟩

/-- An opcode finds the table at its end only if no line is left but blank ones. -/
theorem blank_of_slot?_none {c : Cursor} (h : r.slot? op = .ok (none, c)) :
    ∀ l ∈ r.cursor.rest, l.isBlank = true := by
  rw [slot?_record (slot?_eq_none h)] at h
  cases hfound : r.cursor.record? op with
  | error f =>
    rw [hfound] at h
    cases h
  | ok x =>
    rcases x with ⟨rec | rec, c₁⟩
    · exact Cursor.record?_eq_none hfound
    · rw [hfound] at h
      cases h

/-! ### One call -/

/-- How a reader comes to its end without a fault. -/
theorem step_eq_none (h : r.step = .ok none) : r.phase = .done ∨ r.phase = .full ∨
    r.lenient = true ∧ ∃ op c, r.phase = .entry op ∧ r.slot? op = .ok (none, c) := by
  have hstep := step_read r
  rw [h] at hstep
  generalize hx : (.ok none : Except Fault (Option (Entry × TableReader))) = x at hstep
  cases hstep with
  | entry hp hs => cases hx
  | broken hf => cases hx
  | early hp hs =>
    split at hx
    · next hl => exact .inr (.inr ⟨hl, _, _, hp, hs⟩)
    · cases hx
  | late hp hc => exact .inr (.inl hp)
  | complete hp => exact .inr (.inl hp)
  | done hp => exact .inl hp

/-! ### The calls that give entries -/

/-- What call number `n` gives, counted from zero. -/
def call (r : TableReader) (n : Nat) : Option (Except Fault Entry) := (r.advance n).next.1

/-- The reader `r` gives the entries `es`, one a call, and is `last` after them. -/
inductive Gives : TableReader → List Entry → TableReader → Prop
  | nil {r : TableReader} : Gives r [] r
  | cons {r r' last : TableReader} {e : Entry} {es : List Entry} (h : r.step = .ok (some (e, r')))
      (hs : Gives r' es last) : Gives r (e :: es) last

theorem call_succ (r : TableReader) (n : Nat) : r.call (n + 1) = r.next.2.call n := rfl

theorem next_of_entry (h : r.step = .ok (some (e, r'))) : r.next = (some (.ok e), r') := by
  rw [next, h]

theorem call_stop (r : TableReader) (n : Nat) : r.stop.call n = none := by
  induction n with
  | zero => rfl
  | succ n ih => rw [call_succ, next_stop, ih]

/-- A reader that is not at its end gives entries up to the call that gives no more. -/
theorem exists_gives (hd : r.phase ≠ .done) :
    ∃ es last, Gives r es last ∧ last.phase ≠ .done ∧ ∀ e r', last.step ≠ .ok (some (e, r')) := by
  -- each entry leaves fewer answers
  generalize hn : r.phase.left = n
  induction n generalizing r with
  | zero => exact absurd hn (Nat.ne_of_gt (Phase.left_pos hd))
  | succ n ih =>
    by_cases hmore : ∃ e r', r.step = .ok (some (e, r'))
    · obtain ⟨e, r', hstep⟩ := hmore
      obtain ⟨op, slot, c, hp, -, -, rfl⟩ := step_eq_entry hstep
      rw [hp] at hn
      have hleft : (Phase.after op).left = n := by
        rw [Phase.left_after]
        simp only [Phase.left] at hn
        omega
      have hd' := Phase.after_ne_done op
      obtain ⟨es, last, hes, hlast, hend⟩ := ih (r := { r with cursor := c, phase := .after op }) hd' hleft
      exact ⟨e :: es, last, .cons hstep hes, hlast, hend⟩
    · exact ⟨[], r, .nil, hd, fun e r' h => hmore ⟨e, r', h⟩⟩

section

variable (h : Gives r es last)

include h

theorem Gives.call_entry {n : Nat} (hn : n < es.length) : r.call n = some (.ok es[n]) := by
  induction h generalizing n with
  | nil => cases hn
  | cons hstep hs ih =>
    cases n with
    | zero =>
      rw [call, advance, next_of_entry hstep]
      rfl
    | succ n =>
      rw [call_succ, next_of_entry hstep, ih (Nat.lt_of_succ_lt_succ hn)]
      rfl

theorem Gives.call_after (n : Nat) : r.call (es.length + n) = last.call n := by
  induction h with
  | nil => rw [List.length_nil, Nat.zero_add]
  | cons hstep hs ih =>
    rw [List.length_cons, Nat.add_right_comm, call_succ, next_of_entry hstep]
    exact ih

theorem Gives.advance : r.advance es.length = last := by
  induction h with
  | nil => rfl
  | cons hstep hs ih =>
    rw [List.length_cons, TableReader.advance, next_of_entry hstep]
    exact ih

theorem Gives.reserved : last.reserved = r.reserved := by
  induction h with
  | nil => rfl
  | cons hstep hs ih =>
    obtain ⟨op, slot, c, -, -, -, rfl⟩ := step_eq_entry hstep
    exact ih

theorem Gives.lenient : last.lenient = r.lenient := by
  induction h with
  | nil => rfl
  | cons hstep hs ih => rw [ih, lenient_of_step hstep]

theorem Gives.index : last.phase.index = r.phase.index + es.length := by
  induction h with
  | nil => rfl
  | cons hstep hs ih =>
    obtain ⟨op, slot, c, hp, -, -, rfl⟩ := step_eq_entry hstep
    rw [ih, hp, Phase.index_after, List.length_cons, Phase.index]
    omega

/-- The entries are those of the opcodes from the phase on. -/
theorem Gives.opcode {n : Nat} (hn : n < es.length) : es[n].opcode.val = r.phase.index + n := by
  induction h generalizing n with
  | nil => cases hn
  | cons hstep hs ih =>
    obtain ⟨op, slot, c, hp, -, rfl, rfl⟩ := step_eq_entry hstep
    rw [hp, Phase.index]
    cases n with
    | zero => rfl
    | succ n =>
      rw [List.getElem_cons_succ, ih (Nat.lt_of_succ_lt_succ hn), Phase.index_after]
      omega

theorem Gives.slotRead : ∀ e ∈ es, SlotRead r.reserved e.opcode e.slot := by
  induction h with
  | nil => simp
  | cons hstep hs ih =>
    obtain ⟨op, slot, c, -, hslot, rfl, rfl⟩ := step_eq_entry hstep
    intro e he
    rcases List.mem_cons.1 he with rfl | he
    · exact slot?_eq_some hslot
    · exact ih e he

theorem Gives.passes : ∃ ls, r.cursor.Passes ls last.cursor := by
  induction h with
  | nil => exact ⟨[], .refl _⟩
  | cons hstep hs ih =>
    obtain ⟨op, slot, c, -, hslot, rfl, rfl⟩ := step_eq_entry hstep
    obtain ⟨ls, hls⟩ := passes_slot? hslot
    obtain ⟨ls', hls'⟩ := ih
    exact ⟨ls ++ ls', hls.trans hls'⟩

end

end TableReader

theorem Phase.index_le (ph : Phase) : ph.index ≤ 256 := by
  cases ph with
  | entry op => exact Nat.le_of_lt op.isLt
  | full | done => exact Nat.le_refl _

namespace TableReader

/-- What the calls of a table's reader give: the entries, the fault if there is one, and from then on
nothing. Without a fault the reader has come to the last opcode, or, if it is lenient, to an opcode
for which the table holds no record any more. -/
structure History (table : List UInt8) (R : OpcodeSet) (lenient : Bool) (entries : List Entry)
    (fault? : Option Fault) : Prop where
  length_le : entries.length ≤ 256
  call : ∀ n, (ofTable table R lenient).call n =
    (entries.map .ok ++ (fault?.map .error).toList)[n]?
  opcode : ∀ i (h : i < entries.length), entries[i].opcode.val = i
  reserved : ∀ e ∈ entries, e.slot = .reserved ↔ e.opcode ∈ R
  record : ∀ e ∈ entries, ∀ rec, e.slot = .record rec → rec.opcode = e.opcode
  strict : fault? = none → lenient = false → entries.length = 256
  short : fault? = none → lenient = true → entries.length = 256 ∨ ∃ op : Opcode,
    op.val = entries.length ∧ op ∉ R ∧
    ∃ passed left, Line.ofTable table = passed ++ left ∧
      ((ofTable table R lenient).advance entries.length).cursor = ⟨left, passed.length⟩ ∧
      ∀ l ∈ left, l.isBlank = true

variable {r last : TableReader} {es : List Entry}

theorem SlotRead.reserved_iff {R : OpcodeSet} {op : Opcode} {slot : Slot} (h : SlotRead R op slot) :
    slot = .reserved ↔ op ∈ R := by
  cases h with
  | reserved hop => exact ⟨fun _ => hop, fun _ => rfl⟩
  | record hop line head cycles flags => exact ⟨(nomatch ·), fun h => absurd h hop⟩

theorem SlotRead.opcode {R : OpcodeSet} {op : Opcode} {rec : Record} (h : SlotRead R op (.record rec)) :
    rec.opcode = op := by
  cases h
  rfl

/-- The reader that gives no more entries gives a fault or nothing, and from then on nothing. -/
theorem call_last (hend : ∀ e r', last.step ≠ .ok (some (e, r'))) :
    ∃ fault?, (∀ n, last.call n = (fault?.map .error).toList[n]?) ∧
      (fault? = none → last.step = .ok none) := by
  cases hstep : last.step with
  | error f =>
    have hnext : last.next = (some (.error f), last.stop) := by rw [next, hstep]
    refine ⟨some f, fun n => ?_, fun h => ?_⟩
    · cases n with
      | zero => rw [call, advance, hnext]; rfl
      | succ n => rw [call_succ, hnext, call_stop]; rfl
    · cases h
  | ok found =>
    rcases found with _ | ⟨e, r'⟩
    · have hnext : last.next = (none, last.stop) := by rw [next, hstep]
      refine ⟨none, fun n => ?_, fun _ => rfl⟩
      cases n with
      | zero => rw [call, advance, hnext]; rfl
      | succ n => rw [call_succ, hnext, call_stop]; rfl
    · exact absurd hstep (hend e r')

/-- A reader that ends without a fault has come to the last opcode, or it is lenient and only blank
lines are left. -/
theorem end_of_step (h : last.step = .ok none) (hd : last.phase ≠ .done) : last.phase.index = 256 ∨
    last.lenient = true ∧ ∃ op, last.phase = .entry op ∧ op ∉ last.reserved ∧
      ∀ l ∈ last.cursor.rest, l.isBlank = true := by
  rcases step_eq_none h with hp | hp | ⟨hl, op, c, hp, hslot⟩
  · exact absurd hp hd
  · rw [hp]
    exact .inl rfl
  · exact .inr ⟨hl, op, hp, slot?_eq_none hslot, blank_of_slot?_none hslot⟩

/-- The calls of every table's reader, however many there are. -/
theorem exists_history (table : List UInt8) (R : OpcodeSet) (lenient : Bool) :
    ∃ entries fault?, History table R lenient entries fault? := by
  have hstart : (ofTable table R lenient).phase ≠ .done := nofun
  obtain ⟨es, last, hes, hlast, hend⟩ := exists_gives hstart
  obtain ⟨fault?, hcall, hstop⟩ := call_last hend
  have hindex : last.phase.index = es.length := hes.index.trans (Nat.zero_add _)
  have hread : ∀ e ∈ es, SlotRead R e.opcode e.slot := hes.slotRead
  refine ⟨es, fault?, ?_⟩
  constructor
  case length_le =>
    rw [← hindex]
    exact last.phase.index_le
  case call =>
    intro n
    rcases Nat.lt_or_ge n es.length with hn | hn
    · rw [hes.call_entry hn, List.getElem?_append_left (by simpa using hn)]
      simp [hn]
    · obtain ⟨m, rfl⟩ := Nat.exists_eq_add_of_le hn
      rw [hes.call_after, hcall, List.getElem?_append_right (by simp)]
      simp
  case opcode =>
    intro i hi
    rw [hes.opcode hi]
    exact Nat.zero_add i
  case reserved => exact fun e he => (hread e he).reserved_iff
  case record =>
    intro e he rec hrec
    have h := hread e he
    rw [hrec] at h
    exact h.opcode
  case strict =>
    intro hf hl
    rcases end_of_step (hstop hf) hlast with h | ⟨hl', -⟩
    · rw [← hindex, h]
    · rw [hes.lenient] at hl'
      exact absurd (hl.symm.trans hl') Bool.false_ne_true
  case short =>
    intro hf hl
    rcases end_of_step (hstop hf) hlast with h | ⟨-, op, hp, hop, hblank⟩
    · rw [← hindex, h]
      exact .inl rfl
    · rw [hp] at hindex
      rw [hes.reserved] at hop
      obtain ⟨ls, hrest, hpassed⟩ := hes.passes
      refine .inr ⟨op, hindex, hop, ls, last.cursor.rest, hrest, ?_, hblank⟩
      rw [hes.advance, ← Nat.zero_add ls.length]
      exact congrArg (Cursor.mk last.cursor.rest) hpassed

end TableReader
end OpcodeDispatch
