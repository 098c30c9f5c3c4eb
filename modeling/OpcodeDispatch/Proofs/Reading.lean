import OpcodeDispatch.Proofs.Decoding
import OpcodeDispatch.Table.Reader

/-!
What the reader of a table gives, said once: in what the reading of a record ends, in what one
call ends, and from these `Answers`, the shape of everything a reader gives from a phase on.
-/

namespace OpcodeDispatch
namespace Cursor

variable {c c' : Cursor} {op : Opcode} {f : Fault}

theorem nonBlank?_eq_error (h : c.nonBlank? = .error f) : f.breaksReading = true := by
  dsimp only [nonBlank?] at h
  split at h
  · cases h
  · cases h
  · cases h
    rfl

theorem nonBlank?_blanks (h : ∀ l ∈ c.rest, l.isBlank = true) : c.nonBlank? = .ok (none, c.skipBlanks) := by
  have hrest : c.skipBlanks.rest = [] := by
    rw [skipBlanks, ← List.append_nil c.rest, List.dropWhile_append_of_pos h]
    rfl
  dsimp only [nonBlank?]
  split
  · rfl
  · next hr => simp [hrest] at hr
  · next hr => simp [hrest] at hr

theorem part_eq_error {missing : String} (h : c.part op missing = .error f) :
    f.breaksReading = true := by
  unfold part at h
  split at h
  · cases h
    rfl
  · cases h
  · cases h
    rfl

theorem part_eq_ok {missing s : String} (h : c.part op missing = .ok (s, c')) :
    c.rest = .text s :: c'.rest ∧ c'.passed = c.passed + 1 := by
  unfold part at h
  split at h
  · cases h
  · next hr =>
    cases h
    exact ⟨hr, rfl⟩
  · cases h

theorem separator_eq_error (h : c.separator = .error f) : f.breaksReading = true := by
  unfold separator at h
  split at h
  · cases h
  · split at h
    · cases h
    · cases h
      rfl
  · cases h
    rfl

/-- The line of the head has been looked at before it is read, so it is there. -/
theorem record?_eq (c : Cursor) (op : Opcode) : c.record? op =
    match c.rest with
    | [] => .ok (none, c)
    | .unreadable cause :: _ => .error (.unreadable cause)
    | .text head :: rest =>
      if Text.isBlank head then do
        match ← c.nonBlank? with
        | (none, c) => return (none, c)
        | (some found, c) => .error (.misaligned (c.passed + 1) found)
      else do
        let (cycles, c') ← part op "cycle line" ⟨rest, c.passed + 1⟩
        let (flags, c') ← part op "flags line" c'
        let c' ← c'.separator
        return (some (Record.ofLines op (c.passed + 1) head cycles flags), c') := by
  obtain ⟨lines, n⟩ := c
  rcases lines with _ | ⟨head | cause, rest⟩ <;> rfl

theorem record?_eq_error (h : c.record? op = .error f) : f.breaksReading = true := by
  rw [record?_eq] at h
  split at h
  · cases h
  · cases h
    rfl
  · split at h
    · rcases bind_eq_error h with h | ⟨⟨found, c'⟩, -, h⟩
      · exact nonBlank?_eq_error h
      · cases found with
        | none => cases h
        | some s =>
          cases h
          rfl
    · rcases bind_eq_error h with h | ⟨⟨cycles, c₁⟩, -, h⟩
      · exact part_eq_error h
      rcases bind_eq_error h with h | ⟨⟨flags, c₂⟩, -, h⟩
      · exact part_eq_error h
      rcases bind_eq_error h with h | ⟨c₃, -, h⟩
      · exact separator_eq_error h
      · cases h

/-- A record that is read is made of three lines, the first of them not blank. -/
theorem record?_eq_some {r : Record} (h : c.record? op = .ok (some r, c')) :
    ∃ head cycles flags rest, c.rest = .text head :: .text cycles :: .text flags :: rest ∧
      Text.isBlank head = false ∧ r = Record.ofLines op (c.passed + 1) head cycles flags := by
  rw [record?_eq] at h
  split at h
  · cases h
  · cases h
  · next head rest hrest =>
    split at h
    · obtain ⟨⟨found, c₁⟩, -, h⟩ := bind_eq_ok h
      cases found <;> cases h
    · next hhead =>
      obtain ⟨⟨cycles, c₁⟩, h₁, h⟩ := bind_eq_ok h
      obtain ⟨⟨flags, c₂⟩, h₂, h⟩ := bind_eq_ok h
      obtain ⟨c₃, -, h⟩ := bind_eq_ok h
      cases h
      obtain ⟨hcycles, -⟩ := part_eq_ok h₁
      obtain ⟨hflags, -⟩ := part_eq_ok h₂
      refine ⟨head, cycles, flags, c₂.rest, ?_, by simpa using hhead, rfl⟩
      rw [hrest, ← hflags, ← hcycles]

section

variable {n : Nat} {head cycles flags : String} {rest : List Line}

theorem atPlaceholder_text : atPlaceholder ⟨.text head :: rest, n⟩ =
    (Text.words head).head?.any fun w => Line.placeholders.contains (Text.upper w) := rfl

theorem record?_three (h : Text.isBlank head = false) :
    record? op ⟨.text head :: .text cycles :: .text flags :: rest, n⟩ =
      (separator ⟨rest, n + 3⟩).map fun c => (some (Record.ofLines op (n + 1) head cycles flags), c) := by
  simp only [record?_eq, h, Bool.false_eq_true, if_false]
  cases hs : separator ⟨rest, n + 3⟩ <;> simp [part, bind, Except.bind, hs, Except.map, pure, Except.pure]

theorem record?_last (h : Text.isBlank head = false) :
    record? op ⟨[.text head, .text cycles, .text flags], n⟩ =
      .ok (some (Record.ofLines op (n + 1) head cycles flags), ⟨[], n + 3⟩) := by
  rw [record?_three h]
  rfl

theorem separator_text (s : String) : separator ⟨.text s :: rest, n⟩ =
    if Text.isBlank s then .ok ⟨rest, n + 1⟩ else .error (.misaligned (n + 1) s) := rfl

theorem record?_separated {blank : String} (h : Text.isBlank head = false) (hb : Text.isBlank blank = true) :
    record? op ⟨.text head :: .text cycles :: .text flags :: .text blank :: rest, n⟩ =
      .ok (some (Record.ofLines op (n + 1) head cycles flags), ⟨rest, n + 4⟩) := by
  rw [record?_three h, separator_text, if_pos hb]
  rfl

end

end Cursor

namespace Phase

/-- The opcode whose entry comes next. -/
def opcode? : Phase → Option Opcode
  | entry op => some op
  | full | done => none

/-- How many opcodes come before the phase. -/
def index : Phase → Nat
  | entry op => op.val
  | full | done => 256

theorem opcode?_after (op : Opcode) : (after op).opcode? = op.next? := by
  unfold after
  split
  · next h => rw [h]; rfl
  · next h => rw [h]; rfl

theorem index_after (op : Opcode) : (after op).index = op.val + 1 := by
  unfold after
  split
  · next h => exact Opcode.next?_eq_some.1 h
  · next h =>
    rw [Opcode.next?_eq_none.1 h]
    rfl

theorem left_after (op : Opcode) : (after op).left = 256 - op.val := by
  unfold after
  split
  · next h =>
    have := Opcode.next?_eq_some.1 h
    simp only [left]
    omega
  · next h =>
    rw [Opcode.next?_eq_none.1 h]
    rfl

theorem left_after_le {op : Opcode} {n : Nat} (h : (entry op).left ≤ n + 1) : (after op).left ≤ n := by
  rw [left_after]
  simp only [left] at h
  omega

theorem left_pos {ph : Phase} (h : ph ≠ .done) : 0 < ph.left := by
  cases ph with
  | entry op =>
    have := op.isLt
    simp only [left]
    omega
  | full => exact Nat.one_pos
  | done => exact absurd rfl h

theorem after_ne_done (op : Opcode) : after op ≠ .done := by
  unfold after
  split <;> simp

/-- The opcodes that have no entry yet. -/
def opcodes : Phase → List Opcode
  | entry op => Opcode.all.drop op.val
  | full | done => []

theorem opcodes_entry (op : Opcode) : (entry op).opcodes = op :: (after op).opcodes := by
  have hall : ∀ n (h : n < 256), Opcode.all.drop n = ⟨n, h⟩ :: Opcode.all.drop (n + 1) := by
    intro n h
    rw [List.drop_eq_getElem_cons (by simpa [Opcode.all] using h)]
    simp [Opcode.all]
  rw [opcodes, hall op.val op.isLt]
  unfold after
  split
  · next next h => rw [opcodes, Opcode.next?_eq_some.1 h]
  · next h =>
    rw [Opcode.next?_eq_none.1 h]
    rfl

end Phase

namespace TableReader

variable {r r' : TableReader} {op : Opcode}

/-- A slot that is read: a reserved opcode has no record, any other the record of three lines. -/
inductive SlotRead (R : OpcodeSet) (op : Opcode) : Slot → Prop
  | reserved (h : op ∈ R) : SlotRead R op .reserved
  | record (h : op ∉ R) (line : Nat) (head cycles flags : String) :
      SlotRead R op (.record (Record.ofLines op line head cycles flags))

theorem SlotRead.not_mem {R : OpcodeSet} {rec : Record} (h : SlotRead R op (.record rec)) : op ∉ R := by
  cases h
  assumption

theorem slot?_record (h : op ∉ r.reserved) :
    r.slot? op = (r.cursor.record? op).map fun x => (x.1.map .record, x.2) := by
  rw [slot?, if_neg h]
  rcases r.cursor.record? op with f | x <;> rfl

theorem slot?_placeholder (h : op ∈ r.reserved) (hp : r.cursor.atPlaceholder = true) :
    r.slot? op = (r.cursor.record? op).map fun x => (some .reserved, x.2) := by
  rw [slot?, if_pos h, if_pos hp]
  rcases r.cursor.record? op with f | x <;> rfl

theorem slot?_absent (h : op ∈ r.reserved) (hp : r.cursor.atPlaceholder = false) :
    r.slot? op = .ok (some .reserved, r.cursor) := by
  rw [slot?, if_pos h, hp, if_neg Bool.false_ne_true]
  rfl

theorem slot?_eq_error {f : Fault} (h : r.slot? op = .error f) : f.breaksReading = true := by
  unfold slot? at h
  split at h
  · split at h
    · rcases bind_eq_error h with h | ⟨⟨found, c⟩, -, h⟩
      · exact Cursor.record?_eq_error h
      · cases h
    · cases h
  · rcases bind_eq_error h with h | ⟨⟨found, c⟩, -, h⟩
    · exact Cursor.record?_eq_error h
    · cases h

theorem slot?_eq_some {slot : Slot} {c : Cursor} (h : r.slot? op = .ok (some slot, c)) :
    SlotRead r.reserved op slot := by
  unfold slot? at h
  split at h
  · next hop =>
    split at h
    · obtain ⟨⟨found, c₁⟩, -, h⟩ := bind_eq_ok h
      cases h
      exact .reserved hop
    · cases h
      exact .reserved hop
  · next hop =>
    obtain ⟨⟨found, c₁⟩, hfound, h⟩ := bind_eq_ok h
    cases found with
    | none => cases h
    | some rec =>
      cases h
      obtain ⟨head, cycles, flags, rest, -, -, rfl⟩ := Cursor.record?_eq_some hfound
      exact .record hop _ head cycles flags

theorem slot?_eq_none {c : Cursor} (h : r.slot? op = .ok (none, c)) : op ∉ r.reserved := by
  unfold slot? at h
  split at h
  · split at h
    · obtain ⟨⟨found, c₁⟩, -, h⟩ := bind_eq_ok h
      cases h
    · cases h
  · assumption

theorem step_entry (hp : r.phase = .entry op) :
    r.step =
      match r.slot? op with
      | .error f => .error f
      | .ok (some slot, c) => .ok (some (⟨op, slot⟩, { r with cursor := c, phase := .after op }))
      | .ok (none, c) => if r.lenient then .ok none else .error (.endsEarly op (c.passed + 1)) := by
  rw [step, hp]
  rcases h : r.slot? op with f | ⟨slot | slot, c⟩ <;> simp only [h] <;> rfl

theorem step_full (hp : r.phase = .full) :
    r.step =
      match r.cursor.nonBlank? with
      | .error f => .error f
      | .ok (some _, c) => if r.lenient then .ok none else .error (.trailing (c.passed + 1))
      | .ok (none, _) => .ok none := by
  rw [step, hp]
  rcases r.cursor.nonBlank? with f | ⟨s | s, c⟩ <;> rfl

theorem step_done (hp : r.phase = .done) : r.step = .ok none := by
  rw [step, hp]

/-- All that one call of a reader can do. -/
inductive StepRead (r : TableReader) : Except Fault (Option (Entry × TableReader)) → Prop
  | entry {op : Opcode} {slot : Slot} {c : Cursor} (hp : r.phase = .entry op)
      (hs : r.slot? op = .ok (some slot, c)) :
      StepRead r (.ok (some (⟨op, slot⟩, { r with cursor := c, phase := .after op })))
  | broken {f : Fault} (hf : f.breaksReading = true) : StepRead r (.error f)
  | early {op : Opcode} {c : Cursor} (hp : r.phase = .entry op) (hs : r.slot? op = .ok (none, c)) :
      StepRead r (if r.lenient then .ok none else .error (.endsEarly op (c.passed + 1)))
  | late {s : String} {c : Cursor} (hp : r.phase = .full) (hc : r.cursor.nonBlank? = .ok (some s, c)) :
      StepRead r (if r.lenient then .ok none else .error (.trailing (c.passed + 1)))
  | complete (hp : r.phase = .full) : StepRead r (.ok none)
  | done (hp : r.phase = .done) : StepRead r (.ok none)

theorem step_read (r : TableReader) : r.StepRead r.step := by
  cases hp : r.phase with
  | entry op =>
    rw [step_entry hp]
    rcases hs : r.slot? op with f | ⟨slot | slot, c⟩
    · exact .broken (slot?_eq_error hs)
    · exact .early hp hs
    · exact .entry hp hs
  | full =>
    rw [step_full hp]
    rcases hc : r.cursor.nonBlank? with f | ⟨s | s, c⟩
    · exact .broken (Cursor.nonBlank?_eq_error hc)
    · exact .complete hp
    · exact .late hp hc
  | done =>
    rw [step_done hp]
    exact .done hp

end TableReader

/-- What a reader gives from a phase on: entries in the order of the opcodes, up to the end of the
table or a fault. -/
inductive Answers (R : OpcodeSet) (lenient : Bool) : Phase → List (Except Fault Entry) → Prop
  | entry {op : Opcode} {slot : Slot} {rest : List (Except Fault Entry)}
      (hs : TableReader.SlotRead R op slot) (h : Answers R lenient (.after op) rest) :
      Answers R lenient (.entry op) (.ok ⟨op, slot⟩ :: rest)
  | broken {p : Phase} {f : Fault} (hf : f.breaksReading = true) : Answers R lenient p [.error f]
  | early {op : Opcode} (hop : op ∉ R) (line : Nat) :
      Answers R lenient (.entry op) (if lenient then [] else [.error (.endsEarly op line)])
  | late (line : Nat) : Answers R lenient .full (if lenient then [] else [.error (.trailing line)])
  | complete : Answers R lenient .full []

/-- An answer's place is the opcode of its entry. -/
theorem Answers.opcode {R : OpcodeSet} {lenient : Bool} {ph : Phase} {as : List (Except Fault Entry)}
    (h : Answers R lenient ph as) {i : Nat} {e : Entry} (he : as[i]? = some (.ok e)) :
    e.opcode.val = ph.index + i := by
  induction h generalizing i with
  | entry hs h ih =>
    cases i with
    | zero =>
      cases he
      rfl
    | succ i =>
      rw [ih he, Phase.index_after, Phase.index]
      omega
  | broken hf => cases i <;> cases he
  | early hop line => cases lenient <;> cases i <;> cases he
  | late line => cases lenient <;> cases i <;> cases he
  | complete => cases he

namespace TableReader

theorem answers_succ (r : TableReader) (n : Nat) :
    r.answers (n + 1) =
      match r.step with
      | .ok (some (e, r')) => .ok e :: r'.answers n
      | .ok none => []
      | .error f => .error f :: r.stop.answers n := by
  rw [answers, next]
  split
  · next h => split at h <;> cases h; simp [*]
  · next h => split at h <;> cases h <;> simp [*]

theorem answers_stop (r : TableReader) (n : Nat) : r.stop.answers n = [] := by
  cases n with
  | zero => rfl
  | succ n => rw [answers, next_stop]

theorem answers_read (r : TableReader) (hd : r.phase ≠ .done) (n : Nat) (hn : r.phase.left ≤ n) :
    Answers r.reserved r.lenient r.phase (r.answers n) := by
  induction n generalizing r with
  | zero => exact absurd (Phase.left_pos hd) (Nat.not_lt_of_le hn)
  | succ n ih =>
    rw [answers_succ]
    have hstep := step_read r
    generalize r.step = x at hstep
    cases hstep with
    | entry hp hs =>
      rename_i op slot c
      rw [hp]
      refine .entry (slot?_eq_some hs)
        (ih { r with cursor := c, phase := .after op } (Phase.after_ne_done op) ?_)
      rw [hp] at hn
      exact Phase.left_after_le hn
    | broken hf =>
      rw [answers_stop]
      exact .broken hf
    | early hp hs =>
      rename_i op c
      rw [hp]
      have h : Answers r.reserved r.lenient (.entry op) _ := .early (slot?_eq_none hs) (c.passed + 1)
      cases hl : r.lenient with
      | true => simpa [hl] using h
      | false => simpa [hl, answers_stop] using h
    | late hp hc =>
      rename_i s c
      rw [hp]
      have h : Answers r.reserved r.lenient .full _ := .late (c.passed + 1)
      cases hl : r.lenient with
      | true => simpa [hl] using h
      | false => simpa [hl, answers_stop] using h
    | complete hp =>
      rw [hp]
      exact .complete
    | done hp => exact absurd hp hd

/-- Everything that is read from a table, whatever the table is. -/
theorem all_read (lines : List Line) (R : OpcodeSet) (lenient : Bool) :
    Answers R lenient (.entry .first) (ofLines lines R lenient).all := by
  refine answers_read (ofLines lines R lenient) ?_ _ (Nat.le_refl _)
  intro h
  cases h

theorem step_lenient {r : TableReader} (hr : r.lenient = false) :
    step { r with lenient := true } =
      match r.step with
      | .ok (some (e, r')) => .ok (some (e, { r' with lenient := true }))
      | .ok none => .ok none
      | .error f => if f.isLength then .ok none else .error f := by
  obtain ⟨c, p, R, lenient⟩ := r
  subst hr
  cases p with
  | entry op =>
    rw [step_entry rfl, step_entry rfl]
    have hslot : slot? ⟨c, .entry op, R, true⟩ op = slot? ⟨c, .entry op, R, false⟩ op := rfl
    rw [hslot]
    rcases hs : slot? ⟨c, .entry op, R, false⟩ op with f | ⟨slot | slot, c'⟩
    · simp [Fault.isLength_of_breaksReading (slot?_eq_error hs)]
    · rfl
    · rfl
  | full =>
    rw [step_full rfl, step_full rfl]
    rcases hc : c.nonBlank? with f | ⟨s | s, c'⟩
    · simp [Fault.isLength_of_breaksReading (Cursor.nonBlank?_eq_error hc)]
    · rfl
    · rfl
  | done => rfl

/-- Only an entry is followed by more. -/
theorem step_eq_entry {r r' : TableReader} {e : Entry} (h : r.step = .ok (some (e, r'))) :
    ∃ op slot c, r.phase = .entry op ∧ r.slot? op = .ok (some slot, c) ∧ e = ⟨op, slot⟩ ∧
      r' = { r with cursor := c, phase := .after op } := by
  have hstep := step_read r
  rw [h] at hstep
  generalize hx : (.ok (some (e, r')) : Except Fault (Option (Entry × TableReader))) = x at hstep
  cases hstep with
  | entry hp hs =>
    cases hx
    exact ⟨_, _, _, hp, hs, rfl, rfl⟩
  | broken hf => cases hx
  | early hp hs => split at hx <;> cases hx
  | late hp hc => split at hx <;> cases hx
  | complete hp => cases hx
  | done hp => cases hx

theorem lenient_of_step {r r' : TableReader} {e : Entry} (h : r.step = .ok (some (e, r'))) :
    r'.lenient = r.lenient := by
  obtain ⟨op, slot, c, -, -, -, rfl⟩ := step_eq_entry h
  rfl

/-- Whether an answer is more than the fault of a table of the wrong length. -/
def counts : Except Fault Entry → Bool
  | .error f => !f.isLength
  | .ok _ => true

theorem answers_lenient (r : TableReader) (hr : r.lenient = false) (n : Nat) :
    answers n { r with lenient := true } = (r.answers n).takeWhile counts := by
  induction n generalizing r with
  | zero => rfl
  | succ n ih =>
    rw [answers_succ, answers_succ, step_lenient hr]
    cases hstep : r.step with
    | error f =>
      rw [answers_stop]
      cases hf : f.isLength with
      | true => simp [counts, hf]
      | false => simp [counts, hf, answers_stop]
    | ok found =>
      rcases found with _ | ⟨e, r'⟩
      · rfl
      · have hr' : r'.lenient = false := (lenient_of_step hstep).trans hr
        rw [List.takeWhile_cons_of_pos rfl]
        simp only [ih r' hr']

end TableReader
end OpcodeDispatch
