import Mathlib.Data.List.Forall2
import OpcodeDispatch.Proofs.Calls
import OpcodeDispatch.Proofs.Slip
import OpcodeDispatch.Proofs.Written

/-!
A table is read as it comes in. What a reader has given does not depend on the lines that follow, and
what it goes on to give depends on the lines it has passed by their number alone, which shows in the
line numbers of records and faults.
-/

namespace OpcodeDispatch

/-! ### Line numbers moved -/

def Record.moved (n : Nat) (r : Record) : Record := { r with line := n + r.line }

def Slot.moved (n : Nat) : Slot → Slot
  | reserved => reserved
  | record r => record (r.moved n)

def Entry.moved (n : Nat) (e : Entry) : Entry := ⟨e.opcode, e.slot.moved n⟩

/-- The fault as it is when `n` more lines come before. -/
def Fault.moved (n : Nat) : Fault → Fault
  | truncated op line missing => truncated op (n + line) missing
  | endsEarly op line => endsEarly op (n + line)
  | trailing line => trailing (n + line)
  | misaligned line found => misaligned (n + line) found
  | f => f

namespace Cursor

def moved (n : Nat) (c : Cursor) : Cursor := ⟨c.rest, n + c.passed⟩

variable (n : Nat) (c : Cursor) (op : Opcode)

theorem skipBlanks_moved : (c.moved n).skipBlanks = c.skipBlanks.moved n := by
  simp [skipBlanks, moved, Nat.add_assoc]

/-- What is read at a cursor, in two runs of which one has passed `n` more lines. -/
def readMoved (move : α → α) : Except Fault (α × Cursor) → Except Fault (α × Cursor)
  | .ok (a, c) => .ok (move a, c.moved n)
  | .error f => .error (f.moved n)

theorem nonBlank?_moved : (c.moved n).nonBlank? = readMoved n id c.nonBlank? := by
  simp only [nonBlank?, skipBlanks_moved]
  rcases h : c.skipBlanks with ⟨_ | ⟨_ | _, rest⟩, passed⟩ <;> rfl

theorem part_moved (missing : String) :
    (c.moved n).part op missing = readMoved n id (c.part op missing) := by
  rcases c with ⟨_ | ⟨_ | _, rest⟩, passed⟩ <;> rfl

/-- The end of a record that is read. -/
theorem separator_moved (r : Record) :
    ((c.moved n).separator >>= fun c => .ok (some (r.moved n), c)) =
      readMoved n (Option.map (Record.moved n)) (c.separator >>= fun c => .ok (some r, c)) := by
  rcases c with ⟨_ | ⟨s | cause, rest⟩, passed⟩
  · rfl
  · cases hs : Text.isBlank s <;> simp [separator, moved, hs, bind, Except.bind, readMoved, Fault.moved] <;> rfl
  · rfl

variable {n c}

theorem bind_readMoved {x : Except Fault (α × Cursor)} {f g : α × Cursor → Except Fault (β × Cursor)}
    {move : β → β} (h : ∀ a c, g (a, c.moved n) = readMoved n move (f (a, c))) :
    readMoved n id x >>= g = readMoved n move (x >>= f) := by
  cases x with
  | error e => rfl
  | ok a => exact h a.1 a.2

variable (n c)

theorem record?_moved : (c.moved n).record? op = readMoved n (Option.map (Record.moved n)) (c.record? op) := by
  rcases c with ⟨_ | ⟨head | cause, rest⟩, passed⟩
  · rfl
  · cases hb : Text.isBlank head with
    | true =>
      have hblank := nonBlank?_moved n ⟨.text head :: rest, passed⟩
      simp only [record?_eq, moved, hb, if_true] at hblank ⊢
      rw [hblank]
      refine bind_readMoved fun found c => ?_
      cases found <;> rfl
    | false =>
      have hcycles := part_moved n ⟨rest, passed + 1⟩ op "cycle line"
      simp only [record?_eq, moved, hb, Bool.false_eq_true, if_false] at hcycles ⊢
      rw [Nat.add_assoc, hcycles]
      refine bind_readMoved fun cycles c => ?_
      simp only
      rw [part_moved]
      refine bind_readMoved fun flags c => ?_
      exact separator_moved n c (Record.ofLines op (passed + 1) head cycles flags)
  · rfl

end Cursor

namespace TableReader

def moved (n : Nat) (r : TableReader) : TableReader := { r with cursor := r.cursor.moved n }

/-- An answer as it is when `n` more lines come before. -/
def movedAnswer (n : Nat) : Except Fault Entry → Except Fault Entry
  | .ok e => .ok (e.moved n)
  | .error f => .error (f.moved n)

variable (n : Nat) (r : TableReader) (op : Opcode)

theorem slot?_moved : (r.moved n).slot? op = Cursor.readMoved n (Option.map (Slot.moved n)) (r.slot? op) := by
  by_cases hop : op ∈ r.reserved
  · cases hp : r.cursor.atPlaceholder with
    | true =>
      rw [slot?_placeholder (r := r.moved n) hop hp, slot?_placeholder hop hp]
      simp only [moved, Cursor.record?_moved]
      rcases r.cursor.record? op with f | ⟨found, c⟩ <;> rfl
    | false =>
      rw [slot?_absent (r := r.moved n) hop hp, slot?_absent hop hp]
      rfl
  · rw [slot?_record (r := r.moved n) hop, slot?_record hop]
    simp only [moved, Cursor.record?_moved]
    rcases r.cursor.record? op with f | ⟨_ | rec, c⟩ <;> rfl

theorem step_moved : (r.moved n).step =
    match r.step with
    | .ok (some (e, r')) => .ok (some (e.moved n, r'.moved n))
    | .ok none => .ok none
    | .error f => .error (f.moved n) := by
  cases hp : r.phase with
  | entry op =>
    rw [step_entry (r := r.moved n) hp, step_entry hp, slot?_moved]
    rcases r.slot? op with f | ⟨_ | slot, c⟩
    · rfl
    · by_cases hl : r.lenient <;> simp [moved, hl, Cursor.readMoved, Cursor.moved, Fault.moved, Nat.add_assoc]
    · rfl
  | full =>
    rw [step_full (r := r.moved n) hp, step_full hp]
    simp only [moved, Cursor.nonBlank?_moved]
    rcases r.cursor.nonBlank? with f | ⟨_ | s, c⟩
    · rfl
    · rfl
    · by_cases hl : r.lenient <;> simp [hl, Cursor.readMoved, Cursor.moved, Fault.moved, Nat.add_assoc]
  | done =>
    rw [step_done (r := r.moved n) hp, step_done hp]

theorem next_moved : (r.moved n).next = (r.next.1.map (movedAnswer n), r.next.2.moved n) := by
  rw [next, next, step_moved]
  rcases r.step with f | _ | ⟨e, r'⟩ <;> rfl

/-- A reader that has passed more lines gives the same, at line numbers that are greater by as much. -/
theorem call_moved (i : Nat) : (r.moved n).call i = (r.call i).map (movedAnswer n) := by
  induction i generalizing r with
  | zero => exact congrArg Prod.fst (next_moved n r)
  | succ i ih => rw [call_succ, call_succ, next_moved, ih]

end TableReader

/-! ### Openings -/

/-- Lines in chunks of four, of which the first is not blank and the last is. -/
inductive WholeChunks : List Line → Prop
  | nil : WholeChunks []
  | cons {head cycles flags blank : String} {ls : List Line} (hh : Text.isBlank head = false)
      (hb : Text.isBlank blank = true) (h : WholeChunks ls) :
      WholeChunks (.text head :: .text cycles :: .text flags :: .text blank :: ls)

/-- The first part of a table, whole chunks of ended lines: it holds the entries `es` of the opcodes up
to `k`, and its last chunk is the record of `k`. -/
structure Opening (R : OpcodeSet) (k : Opcode) (es : List Entry) (part : List UInt8) : Prop where
  ended : part.getLast? = some 10
  chunks : WholeChunks (Line.ofTable part)
  length : es.length = k.val + 1
  read : (TableReader.ofTable part R false).answers (k.val + 1) = es.map .ok
  last : ∃ r, es.getLast? = some ⟨k, .record r⟩ ∧ r.line + 3 = (Line.ofTable part).length

namespace TableReader

variable {R : OpcodeSet} {r last : TableReader} {e : Entry} {es : List Entry}

/-- The entry that is read does not depend on the leniency. -/
theorem step_of_slot {op : Opcode} {slot : Slot} {c c' : Cursor}
    (h : slot? ⟨c, .entry op, R, false⟩ op = .ok (some slot, c')) (lenient : Bool) :
    step ⟨c, .entry op, R, lenient⟩ = .ok (some (⟨op, slot⟩, ⟨c', .after op, R, lenient⟩)) := by
  have h' : slot? ⟨c, .entry op, R, lenient⟩ op = .ok (some slot, c') := h
  rw [step_entry rfl, h']

/-- A record begins at the first line that is not passed. -/
theorem line_of_step {r' : TableReader} {rec : Record} (h : r.step = .ok (some (e, r')))
    (he : e.slot = .record rec) : rec.line = r.cursor.passed + 1 := by
  obtain ⟨op, slot, c, -, hslot, rfl, -⟩ := step_eq_entry h
  subst he
  obtain ⟨head, cycles, flags, rest, -, -, hrec⟩ := record_of_slot? hslot
  rw [hrec]
  rfl

section

variable (h : Gives r es last)

include h

theorem Gives.line : ∀ e ∈ es, ∀ rec, e.slot = .record rec → r.cursor.passed < rec.line := by
  induction h with
  | nil => simp
  | cons hstep hs ih =>
    intro e he rec hrec
    rcases List.mem_cons.1 he with rfl | he
    · rw [line_of_step hstep hrec]
      exact Nat.lt_succ_self _
    · obtain ⟨op, slot, c, -, hslot, -, rfl⟩ := step_eq_entry hstep
      obtain ⟨ls, hls⟩ := passes_slot? hslot
      have hlt := ih e he rec hrec
      have hle := hls.2
      simp only at hlt
      omega

theorem Gives.answers (n : Nat) : r.answers (es.length + n) = es.map .ok ++ last.answers n := by
  induction h with
  | nil => simp
  | cons hstep hs ih =>
    rw [List.length_cons, Nat.add_right_comm, answers_succ, hstep]
    simp [ih]

end

theorem gives_of_answers (h : r.answers es.length = es.map .ok) : Gives r es (r.advance es.length) := by
  induction es generalizing r with
  | nil => exact .nil
  | cons e es ih =>
    rw [List.length_cons, answers_succ] at h
    rcases hstep : r.step with f | _ | ⟨e', r'⟩ <;> simp only [hstep] at h
    · simp at h
    · simp at h
    · simp only [List.map_cons, List.cons.injEq, Except.ok.injEq] at h
      obtain ⟨rfl, h⟩ := h
      rw [List.length_cons, TableReader.advance, next_of_entry hstep]
      exact .cons hstep (ih h)

end TableReader

open TableReader in
/-- Up to the record of the last chunk, a reader does not look behind the chunks. -/
theorem WholeChunks.gives {R : OpcodeSet} {ls : List Line} (hls : WholeChunks ls) {n : Nat} {ph : Phase}
    {es : List Entry} {last : TableReader} (h : Gives ⟨⟨ls, n⟩, ph, R, false⟩ es last) {k : Opcode} {rec : Record}
    (hlast : es.getLast? = some ⟨k, .record rec⟩) (hline : rec.line + 3 = n + ls.length)
    (tail : List Line) (lenient : Bool) :
    Gives ⟨⟨ls ++ tail, n⟩, ph, R, lenient⟩ es ⟨⟨tail, n + ls.length⟩, .after k, R, lenient⟩ := by
  induction es generalizing ls n ph with
  | nil => simp at hlast
  | cons e es ih =>
    have hpassed := h.line ⟨k, .record rec⟩ (List.mem_of_getLast? hlast) rec rfl
    cases h with
    | cons hstep hs =>
      have hfirst : ∀ {rec}, e.slot = .record rec → rec.line = n + 1 := line_of_step hstep
      obtain ⟨op, slot, c, rfl, hslot, rfl, rfl⟩ := step_eq_entry hstep
      cases hls with
      | nil =>
        simp only [List.length_nil] at hline hpassed
        omega
      | cons hh hb hrest =>
        rename_i head cycles flags blank ls
        rcases slot?_chunk hh cycles flags R op n with hstays | ⟨slot', htaken⟩
        · -- a reserved opcode leaves the chunk to the opcodes after it
          obtain ⟨rfl, rfl⟩ : slot = .reserved ∧ c = _ := by simpa using hslot.symm.trans (hstays blank ls hb)
          refine .cons (step_of_slot (hstays blank (ls ++ tail) hb) lenient) ?_
          rcases es with _ | ⟨e', es⟩
          · simp at hlast
          · exact ih (.cons hh hb hrest) hs hlast hline
        · obtain ⟨rfl, rfl⟩ : slot = slot' ∧ c = ⟨ls, n + 4⟩ := by simpa using hslot.symm.trans (htaken blank ls hb)
          have hlength : n + (ls.length + 4) = n + 4 + ls.length := by omega
          refine .cons (step_of_slot (htaken blank (ls ++ tail) hb) lenient) ?_
          simp only [List.length_cons, hlength] at hline ⊢
          rcases es with _ | ⟨e', es⟩
          · obtain ⟨rfl, rfl⟩ : op = k ∧ slot = .record rec := by simpa using hlast
            have hfirst := hfirst rfl
            obtain rfl : ls = [] := List.eq_nil_of_length_eq_zero (by omega)
            exact .nil
          · exact ih hrest hs hlast hline

namespace TableReader

/-- The reader from the first line of `tail` on, when the opcodes up to `k` have their entries. -/
def onward (k : Opcode) (tail : List UInt8) (R : OpcodeSet) (lenient : Bool) : TableReader :=
  ⟨⟨Line.ofTable tail, 0⟩, .after k, R, lenient⟩

end TableReader

namespace Opening

open TableReader

variable {R : OpcodeSet} {k : Opcode} {es : List Entry} {part : List UInt8} (h : Opening R k es part)
  (tail : List UInt8)

include h

theorem gives (lenient : Bool) :
    Gives (ofTable (part ++ tail) R lenient) es
      ((onward k tail R lenient).moved (Line.ofTable part).length) := by
  obtain ⟨rec, hlast, hline⟩ := h.last
  obtain ⟨init, rfl⟩ := List.getLast?_eq_some_iff.1 h.ended
  have hread := gives_of_answers (h.length ▸ h.read)
  rw [ofTable, List.append_assoc, List.singleton_append, Line.ofTable_append]
  have hgives := h.chunks.gives hread hlast (by rw [hline, Nat.zero_add]) (Line.ofTable tail) lenient
  rw [Nat.zero_add] at hgives
  exact hgives

theorem call_opened (lenient : Bool) (i : Nat) (hi : i < es.length) :
    (ofTable (part ++ tail) R lenient).call i = some (.ok es[i]) :=
  (h.gives tail lenient).call_entry hi

theorem call_resumed (lenient : Bool) (i : Nat) :
    (ofTable (part ++ tail) R lenient).call (k.val + 1 + i) =
      ((onward k tail R lenient).call i).map (movedAnswer (Line.ofTable part).length) := by
  rw [← h.length, (h.gives tail lenient).call_after, call_moved]

theorem answers_opened {s : Settings} (hs : s.reservedSet = R) :
    ∃ later, Run.answers s (part ++ tail) = es.map .ok ++ later := by
  have hk := k.isLt
  have hlength := h.length
  have hleft : (Phase.entry .first).left = es.length + (256 - k.val) := by
    simp only [Phase.left, show (Opcode.first : Opcode).val = 0 from rfl]
    omega
  have hgives := (h.gives tail s.isLenient).answers (256 - k.val)
  rw [← hleft, ← hs] at hgives
  exact ⟨_, hgives⟩

end Opening

/-! ### What a run writes of an opening -/

/-- The arms of a run over entries, if every one of them has its arm. -/
def Run.Arms (s : Settings) (es : List Entry) (as : List Arm) : Prop :=
  s.validate = .ok () ∧ List.Forall₂ (fun e a => Arm.orDiagnostic s e = .ok a) es as

namespace Run

variable {s : Settings} {es : List Entry} {as : List Arm}

theorem arms_append (h : List.Forall₂ (fun e a => Arm.orDiagnostic s e = .ok a) es as)
    (later : List (Except Fault Entry)) : arms s (es.map .ok ++ later) = as ++ arms s later := by
  induction h with
  | nil => rfl
  | cons ha has ih => rw [List.map_cons, List.cons_append, arms_ok _ ha, ih, List.cons_append]

/-- An entry without an arm ends the run in a fault, whatever comes later. -/
theorem stops_of_no_arms (h : ∀ as, ¬ List.Forall₂ (fun e a => Arm.orDiagnostic s e = .ok a) es as) :
    ∃ f, ∀ later, arms s (es.map .ok ++ later) = arms s (es.map .ok) ∧
      fault? s (es.map .ok ++ later) = some f := by
  induction es with
  | nil => exact absurd .nil (h [])
  | cons e es ih =>
    cases ha : Arm.orDiagnostic s e with
    | error f =>
      refine ⟨f, fun later => ?_⟩
      simp [arms_error _ ha, fault?_error _ ha]
    | ok a =>
      obtain ⟨f, hf⟩ := ih fun as has => h (a :: as) (.cons ha has)
      refine ⟨f, fun later => ?_⟩
      simp [arms_ok _ ha, fault?_ok _ ha, hf later]

end Run

/-- Reading goes on behind an opening as it goes on behind another one, and stays as it is before. -/
structure Resumes (R : OpcodeSet) (k : Opcode) (es : List Entry) (part part' : List UInt8) : Prop where
  opened (tail : List UInt8) (lenient : Bool) (i : Nat) (hi : i < es.length) :
    (TableReader.ofTable (part ++ tail) R lenient).call i = some (.ok es[i])
  /-- the calls that follow differ in line numbers alone -/
  resumed (tail : List UInt8) (lenient : Bool) (i : Nat) : ∃ answer,
    (TableReader.ofTable (part ++ tail) R lenient).call (k.val + 1 + i) =
      Option.map (TableReader.movedAnswer (Line.ofTable part).length) answer ∧
    (TableReader.ofTable (part' ++ tail) R lenient).call (k.val + 1 + i) =
      Option.map (TableReader.movedAnswer (Line.ofTable part').length) answer
  /-- when the entries of the opening have their arms, these are written first, also before a fault -/
  written (s : Settings) (hs : s.reservedSet = R) (as : List Arm) (has : Run.Arms s es as) (tail : List UInt8) :
    ∃ more, (compile s (part ++ tail)).output = String.join (as.map fun a => a.render ++ "\n") ++ more
  /-- when they have not, the run ends in the opening, with a fault -/
  stopped (s : Settings) (hs : s.reservedSet = R) (hno : ∀ as, ¬ Run.Arms s es as) :
    ∃ run f, run.result = .error f ∧ ∀ tail, compile s (part ++ tail) = run

namespace Opening

variable {R : OpcodeSet} {k : Opcode} {es es' : List Entry} {part part' : List UInt8} {s : Settings}

theorem written (h : Opening R k es part) (hs : s.reservedSet = R) {as : List Arm} (has : Run.Arms s es as)
    (tail : List UInt8) :
    ∃ more, (compile s (part ++ tail)).output = String.join (as.map fun a => a.render ++ "\n") ++ more := by
  obtain ⟨hv, harms⟩ := has
  obtain ⟨later, hlater⟩ := h.answers_opened tail hs
  rw [compile_eq, Run.output_ofArms, writtenArms_valid hv, hlater, Run.arms_append harms, List.map_append,
    String.join_append]
  exact ⟨_, rfl⟩

theorem stopped (h : Opening R k es part) (hs : s.reservedSet = R) (hno : ∀ as, ¬ Run.Arms s es as) :
    ∃ run f, run.result = .error f ∧ ∀ tail, compile s (part ++ tail) = run := by
  cases hv : s.validate with
  | error f =>
    refine ⟨.ofArms [] (some .zeroTicks), _, rfl, fun tail => ?_⟩
    rw [compile_eq, writtenArms_invalid hv, endingFault?_invalid hv]
  | ok u =>
    obtain ⟨f, hf⟩ := Run.stops_of_no_arms fun as has => hno as ⟨hv, has⟩
    refine ⟨.ofArms (Run.arms s (es.map .ok)) (some f), f, rfl, fun tail => ?_⟩
    obtain ⟨later, hlater⟩ := h.answers_opened tail hs
    rw [compile_eq, writtenArms_valid hv, endingFault?_valid hv, hlater, (hf later).1, (hf later).2]

theorem resumes (h : Opening R k es part) (h' : Opening R k es' part') : Resumes R k es part part' where
  opened := h.call_opened
  resumed tail lenient i := ⟨_, h.call_resumed tail lenient i, h'.call_resumed tail lenient i⟩
  written _ hs _ has := h.written hs has
  stopped _ hs hno := h.stopped hs hno

/-- Behind a placeholder and an instruction reading goes on as it does behind the instruction alone. -/
theorem resumes_without_placeholder :
    let nop (line : Nat) : Entry := ⟨1, .record ⟨1, line, "NOP", "", "1", "4", "- - - -"⟩⟩
    let part := bytesOfText "XX\n-\n-\n\nNOP\n1 4\n- - - -\n\n"
    let part' := bytesOfText "NOP\n1 4\n- - - -\n\n"
    Opening (.ofList [0]) 1 [⟨0, .reserved⟩, nop 5] part ∧ Opening (.ofList [0]) 1 [⟨0, .reserved⟩, nop 1] part' ∧
      Resumes (.ofList [0]) 1 [⟨0, .reserved⟩, nop 5] part part' := by
  intro nop part part'
  have hpart : Line.ofTable part = [.text "XX", .text "-", .text "-", .text "", .text "NOP", .text "1 4",
      .text "- - - -", .text ""] := by decide
  have hpart' : Line.ofTable part' = [.text "NOP", .text "1 4", .text "- - - -", .text ""] := by decide
  have h : Opening (.ofList [0]) 1 [⟨0, .reserved⟩, nop 5] part :=
    { ended := by decide
      chunks := by
        rw [hpart]
        exact .cons (by decide) (by decide) (.cons (by decide) (by decide) .nil)
      length := rfl
      read := by
        rw [TableReader.ofTable, hpart]
        rfl
      last := ⟨_, rfl, by rw [hpart]; rfl⟩ }
  have h' : Opening (.ofList [0]) 1 [⟨0, .reserved⟩, nop 1] part' :=
    { ended := by decide
      chunks := by
        rw [hpart']
        exact .cons (by decide) (by decide) .nil
      length := rfl
      read := by
        rw [TableReader.ofTable, hpart']
        rfl
      last := ⟨_, rfl, by rw [hpart']; rfl⟩ }
  exact ⟨h, h', h.resumes h'⟩

end Opening

end OpcodeDispatch
