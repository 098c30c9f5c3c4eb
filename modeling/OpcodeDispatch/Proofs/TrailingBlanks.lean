import Mathlib.Data.List.TakeWhile
import OpcodeDispatch.Proofs.Relayout
import OpcodeDispatch.Proofs.Slip

/-!
Blank lines at the end of a table. They change nothing about a run that ends well. They can save a
run that does not in one way only: a table that ends inside its last record takes them for the
lines the record lacks. A placeholder needs no more than that, and another record, whose flags are
not looked at, only has to lack no more than those.
-/

namespace OpcodeDispatch

open Layout

/-- How many lines a record lacks, at the least, that ends before the line of this name. -/
def lacked (missing : String) : Nat := if missing = "flags line" then 1 else 2

namespace Cursor

variable {op : Opcode} {B X : List Line} {n : Nat}

/-! ### One record -/

theorem nonBlank?_text_or_error {l : Line} {rest : List Line} (h : X.dropWhile Line.isBlank = l :: rest) (n : Nat) :
    (∃ s, l = .text s ∧ ∃ c, nonBlank? ⟨X, n⟩ = .ok (some s, c)) ∨
      ∃ cause, l = .unreadable cause ∧ nonBlank? ⟨X, n⟩ = .error (.unreadable cause) := by
  cases l with
  | text s => exact .inl ⟨s, rfl, _, by simp only [nonBlank?, skipBlanks, h]; rfl⟩
  | unreadable cause => exact .inr ⟨cause, rfl, by simp only [nonBlank?, skipBlanks, h]⟩

/-- What is found before the end of a table is found whatever follows. -/
inductive Found : Except Fault (Option String × Cursor) → Except Fault (Option String × Cursor) → Prop
  | text {s : String} {c c' : Cursor} : Found (.ok (some s, c)) (.ok (some s, c'))
  | unreadable {cause : FileError} : Found (.error (.unreadable cause)) (.error (.unreadable cause))
  | none {c c' : Cursor} : Found (.ok (none, c)) (.ok (none, c'))

theorem nonBlank?_followed (hB : ∀ l ∈ B, l.isBlank = true) (X : List Line) (n : Nat) :
    Found (nonBlank? ⟨X, n⟩) (nonBlank? ⟨X ++ B, n⟩) := by
  cases hX : X.dropWhile Line.isBlank with
  | nil =>
    have hblank : ∀ l ∈ X, l.isBlank = true := List.dropWhile_eq_nil_iff.1 hX
    rw [nonBlank?_blanks hblank, nonBlank?_blanks]
    · exact .none
    · intro l hl
      exact (List.mem_append.1 hl).elim (hblank l) (hB l)
  | cons l rest =>
    have happend : (X ++ B).dropWhile Line.isBlank = l :: (rest ++ B) := by
      rw [List.dropWhile_append, hX]
      rfl
    rcases nonBlank?_text_or_error hX n with ⟨s, rfl, c, h⟩ | ⟨cause, rfl, h⟩ <;>
      rcases nonBlank?_text_or_error happend n with ⟨s', hs, c', h'⟩ | ⟨cause', hs, h'⟩ <;> cases hs <;>
      rw [h, h']
    · exact .text
    · exact .unreadable

theorem record?_blanks (h : ∀ l ∈ X, l.isBlank = true) (op : Opcode) (n : Nat) :
    ∃ c, record? op ⟨X, n⟩ = .ok (none, c) := by
  obtain ⟨ts, rfl, hts⟩ := exists_text h
  cases ts with
  | nil => exact ⟨_, rfl⟩
  | cons t ts =>
    refine ⟨skipBlanks ⟨(t :: ts).map .text, n⟩, ?_⟩
    simp only [List.map_cons] at h ⊢
    rw [record?_eq]
    simp only [hts t List.mem_cons_self, if_true]
    rw [nonBlank?_blanks h]
    rfl

section

variable {head cycles flags : String} {cause : FileError} {rest : List Line} (h : Text.isBlank head = false)

include h

theorem record?_one : record? op ⟨[.text head], n⟩ = .error (.truncated op (n + 2) "cycle line") := by
  simp [record?_eq, h, part, bind, Except.bind]

theorem record?_two : record? op ⟨[.text head, .text cycles], n⟩ = .error (.truncated op (n + 3) "flags line") := by
  simp [record?_eq, h, part, bind, Except.bind]

theorem record?_unreadable_cycles :
    record? op ⟨.text head :: .unreadable cause :: rest, n⟩ = .error (.unreadable cause) := by
  simp [record?_eq, h, part, bind, Except.bind]

theorem record?_unreadable_flags :
    record? op ⟨.text head :: .text cycles :: .unreadable cause :: rest, n⟩ = .error (.unreadable cause) := by
  simp [record?_eq, h, part, bind, Except.bind]

end

/-- The reading of one record from `X`, and from `X` with the blank lines `B` after it. -/
inductive RecordBeside (op : Opcode) (B X : List Line) (n : Nat) :
    Except Fault (Option Record × Cursor) → Except Fault (Option Record × Cursor) → Prop
  | same {rec : Record} {X₁ : List Line} {n₁ : Nat} :
      RecordBeside op B X n (.ok (some rec, ⟨X₁, n₁⟩)) (.ok (some rec, ⟨X₁ ++ B, n₁⟩))
  /-- a blank line is the separator that the last record does without -/
  | last {rec : Record} {n₁ : Nat} {c : Cursor} (hc : c.rest <:+ B) :
      RecordBeside op B X n (.ok (some rec, ⟨[], n₁⟩)) (.ok (some rec, c))
  | ended {c c' : Cursor} : RecordBeside op B X n (.ok (none, c)) (.ok (none, c'))
  | failed {f f' : Fault} (hf : ∀ op line missing, f = .truncated op line missing → B.length < lacked missing) :
      RecordBeside op B X n (.error f) (.error f')
  /-- blank lines are the lines of the cycles and the flags -/
  | cycles {line : Nat} {rec : Record} {c : Cursor} (hB : 2 ≤ B.length) (hrec : rec.cycleToken = "")
      (hc : c.rest <:+ B) : RecordBeside op B X n (.error (.truncated op line "cycle line")) (.ok (some rec, c))
  /-- a blank line is that of the flags -/
  | flags {line : Nat} {head cycles : String} {c : Cursor} (hB : 1 ≤ B.length)
      (hX : X = [.text head, .text cycles]) (hc : c.rest <:+ B) :
      RecordBeside op B X n (.error (.truncated op line "flags line"))
        (.ok (some (Record.ofLines op (n + 1) head cycles ""), c))

theorem RecordBeside.unreadable (cause : FileError) (f' : Fault) :
    RecordBeside op B X n (.error (.unreadable cause)) (.error f') :=
  .failed fun _ _ _ hf => by cases hf

theorem RecordBeside.misaligned (line : Nat) (found : String) (f' : Fault) :
    RecordBeside op B X n (.error (.misaligned line found)) (.error f') :=
  .failed fun _ _ _ hf => by cases hf

theorem RecordBeside.truncated {missing : String} (h : B.length < lacked missing) (op' : Opcode) (line : Nat)
    (f' : Fault) : RecordBeside op B X n (.error (.truncated op' line missing)) (.error f') :=
  .failed fun _ _ _ hf => by cases hf; exact h

theorem separator_blanks {bs : List String} (h : ∀ b ∈ bs, Text.isBlank b = true) (n : Nat) :
    ∃ c, separator ⟨bs.map .text, n⟩ = .ok c ∧ c.rest <:+ bs.map .text := by
  cases bs with
  | nil => exact ⟨_, rfl, List.nil_suffix⟩
  | cons b bs =>
    rw [List.map_cons, separator_text, if_pos (h b List.mem_cons_self)]
    exact ⟨_, rfl, List.suffix_cons _ _⟩

theorem ofLines_blank {flags : String} (h : Text.isBlank flags = true) (op : Opcode) (line : Nat)
    (head cycles : String) : Record.ofLines op line head cycles flags = Record.ofLines op line head cycles "" := by
  rw [Record.ofLines, Record.ofLines, Text.trim_eq_empty.2 h]
  rfl

theorem cycleToken_blank {cycles : String} (h : Text.isBlank cycles = true) (op : Opcode) (line : Nat)
    (head flags : String) : (Record.ofLines op line head cycles flags).cycleToken = "" := by
  rw [Record.ofLines, Text.words_of_isBlank h]
  rfl

section

variable {bs : List String} (hbs : ∀ b ∈ bs, Text.isBlank b = true) {head cycles flags : String}
  (hhead : Text.isBlank head = false) (op : Opcode) (n : Nat)

include hbs hhead

/-- What follows the three lines of a record, if anything does, is its separator. -/
theorem record?_three_beside (rest : List Line) :
    RecordBeside op (bs.map .text) (.text head :: .text cycles :: .text flags :: rest) n
      (record? op ⟨.text head :: .text cycles :: .text flags :: rest, n⟩)
      (record? op ⟨.text head :: .text cycles :: .text flags :: (rest ++ bs.map .text), n⟩) := by
  rw [record?_three hhead, record?_three hhead]
  rcases rest with _ | ⟨blank | cause, rest⟩
  · obtain ⟨c, hc, hrest⟩ := separator_blanks hbs (n + 3)
    rw [List.nil_append, hc]
    exact .last hrest
  · rw [List.cons_append, separator_text, separator_text]
    split
    · exact .same
    · exact .misaligned _ _ _
  · exact .unreadable cause _

theorem record?_two_beside : RecordBeside op (bs.map .text) [.text head, .text cycles] n
    (record? op ⟨[.text head, .text cycles], n⟩) (record? op ⟨.text head :: .text cycles :: bs.map .text, n⟩) := by
  rw [record?_two hhead]
  cases bs with
  | nil =>
    rw [List.map_nil, record?_two hhead]
    refine .truncated ?_ _ _ _
    exact Nat.one_pos
  | cons b bs =>
    simp only [List.forall_mem_cons] at hbs
    obtain ⟨c, hc, hrest⟩ := separator_blanks hbs.2 (n + 3)
    rw [List.map_cons, record?_three hhead, hc, ofLines_blank hbs.1]
    exact .flags (by simp) rfl (hrest.trans (List.suffix_cons _ _))

theorem record?_one_beside : RecordBeside op (bs.map .text) [.text head] n
    (record? op ⟨[.text head], n⟩) (record? op ⟨.text head :: bs.map .text, n⟩) := by
  rw [record?_one hhead]
  rcases bs with _ | ⟨b, _ | ⟨b', bs⟩⟩
  · rw [List.map_nil, record?_one hhead]
    refine .truncated ?_ _ _ _
    exact Nat.two_pos
  · rw [List.map_cons, List.map_nil, record?_two hhead]
    refine .truncated ?_ _ _ _
    exact Nat.one_lt_two
  · simp only [List.forall_mem_cons] at hbs
    obtain ⟨c, hc, hrest⟩ := separator_blanks hbs.2.2 (n + 3)
    rw [List.map_cons, List.map_cons, record?_three hhead, hc]
    refine .cycles (by simp) (cycleToken_blank hbs.1 op (n + 1) head b') ?_
    exact hrest.trans ((List.suffix_cons _ _).trans (List.suffix_cons _ _))

end

theorem record?_beside (hB : ∀ l ∈ B, l.isBlank = true) (op : Opcode) (X : List Line) (n : Nat) :
    RecordBeside op B X n (record? op ⟨X, n⟩) (record? op ⟨X ++ B, n⟩) := by
  obtain ⟨bs, rfl, hbs⟩ := exists_text hB
  rcases X with _ | ⟨head | cause, rest⟩
  · obtain ⟨c, hc⟩ := record?_blanks hB op n
    rw [List.nil_append, hc]
    exact .ended
  · simp only [List.cons_append]
    cases hhead : Text.isBlank head with
    | true =>
      have hfound := nonBlank?_followed hB (.text head :: rest) n
      rw [record?_eq, record?_eq]
      simp only [List.cons_append, hhead, if_true] at hfound ⊢
      generalize nonBlank? ⟨.text head :: rest, n⟩ = x at hfound ⊢
      generalize nonBlank? ⟨.text head :: (rest ++ bs.map Line.text), n⟩ = y at hfound ⊢
      cases hfound with
      | text => exact .misaligned _ _ _
      | unreadable => exact .unreadable _ _
      | none => exact .ended
    | false =>
      rcases rest with _ | ⟨cycles | cause, rest⟩
      · exact record?_one_beside hbs hhead op n
      · rcases rest with _ | ⟨flags | cause, rest⟩
        · exact record?_two_beside hbs hhead op n
        · exact record?_three_beside hbs hhead op n rest
        · rw [List.cons_append, List.cons_append, record?_unreadable_flags hhead, record?_unreadable_flags hhead]
          exact .unreadable cause _
      · rw [List.cons_append, record?_unreadable_cycles hhead, record?_unreadable_cycles hhead]
        exact .unreadable cause _
  · exact .unreadable cause _

end Cursor

/-! ### Where only blank lines are left -/

section

variable {R : OpcodeSet} {B X : List Line} {op : Opcode} {s : Settings}

/-- The answers for some opcodes when the table holds no more records. -/
def closing (R : OpcodeSet) (line : Nat) : List Opcode → List (Except Fault Entry)
  | [] => []
  | op :: ops => if op ∈ R then .ok ⟨op, .reserved⟩ :: closing R line ops else [.error (.endsEarly op line)]

theorem answers_blank (hB : ∀ l ∈ B, l.isBlank = true) {ph : Phase} (hd : ph ≠ .done) (p : Nat) {n : Nat}
    (hn : ph.left ≤ n) : ∃ line, TableReader.answers n ⟨⟨B, p⟩, ph, R, false⟩ = closing R line ph.opcodes := by
  induction n generalizing ph with
  | zero => exact absurd (Phase.left_pos hd) (Nat.not_lt_of_le hn)
  | succ n ih =>
    cases ph with
    | entry op =>
      obtain ⟨line, hline⟩ := ih (Phase.after_ne_done op) (Phase.left_after_le hn)
      simp only [Phase.opcodes_entry, closing]
      by_cases hop : op ∈ R
      · simp only [if_pos hop, TableReader.answers_slot (TableReader.slot?_absent hop (atPlaceholder_blank hB))]
        exact ⟨line, congrArg (_ :: ·) hline⟩
      · obtain ⟨c, hc⟩ := Cursor.record?_blanks hB op p
        simp only [if_neg hop]
        refine ⟨c.passed + 1, ?_⟩
        rw [TableReader.answers_succ, TableReader.step_entry rfl, TableReader.slot?_record hop, hc]
        exact congrArg (_ :: ·) (TableReader.answers_stop _ n)
    | full =>
      rw [TableReader.answers_succ, TableReader.step_full rfl, Cursor.nonBlank?_blanks hB]
      exact ⟨0, rfl⟩
    | done => exact absurd rfl hd

theorem arms_closing (s : Settings) (line line' : Nat) (ops : List Opcode) :
    Run.arms s (closing R line ops) = Run.arms s (closing R line' ops) := by
  induction ops with
  | nil => rfl
  | cons op ops ih =>
    unfold closing
    split
    · rw [Run.arms_ok _ (Arm.orDiagnostic_reserved s op), Run.arms_ok _ (Arm.orDiagnostic_reserved s op), ih]
    · rfl

theorem fault?_closing (s : Settings) (line : Nat) (ops : List Opcode) :
    (Run.fault? s (closing R line ops) = none ↔ ∀ op ∈ ops, op ∈ R) ∧
      ∀ f, Run.fault? s (closing R line ops) = some f → f.isLength = true := by
  induction ops with
  | nil => exact ⟨by simp [closing, Run.fault?], fun f hf => by cases hf⟩
  | cons op ops ih =>
    by_cases hop : op ∈ R
    · rw [closing, if_pos hop, Run.fault?_ok _ (Arm.orDiagnostic_reserved s op)]
      simpa [hop] using ih
    · rw [closing, if_neg hop]
      refine ⟨iff_of_false (fun h => by cases h) fun h => hop (h op List.mem_cons_self), fun f hf => ?_⟩
      cases hf
      rfl

/-! ### Two readings beside each other -/

/-- Some answers of a strict reader before which `X` is left, the first line of it numbered `p + 1`,
beside the answers if `n` blank lines follow. -/
inductive BlanksBeside (s : Settings) (R : OpcodeSet) (X : List Line) (p n : Nat)
    (as as' : List (Except Fault Entry)) : Prop
  /-- blank lines do not help -/
  | alike (hfault : Run.fault? s as' = none ↔ Run.fault? s as = none)
      (harms : Run.fault? s as = none → Run.arms s as' = Run.arms s as)
      (hcut : ∀ op line missing, Run.fault? s as = some (.truncated op line missing) →
        n < lacked missing ∨ op ∉ R ∧ missing = "cycle line")
  /-- a placeholder ends too early -/
  | placeholder {op : Opcode} {line : Nat} {missing : String} (hop : op ∈ R)
      (hfault : Run.fault? s as = some (.truncated op line missing)) (hn : lacked missing ≤ n)
      (hended : Run.fault? s as' = none ↔ ∀ op' ∈ (Phase.after op).opcodes, op' ∈ R)
  /-- another record ends before its flags -/
  | flags {op : Opcode} {line : Nat} {before : List Line} {head cycles : String} (hop : op ∉ R)
      (hX : X = before ++ [.text head, .text cycles])
      (hfault : Run.fault? s as = some (.truncated op line "flags line")) (hn : 1 ≤ n)
      (hended : Run.fault? s as' = none ↔ (∀ op' ∈ (Phase.after op).opcodes, op' ∈ R) ∧
        ∃ a, Arm.ofRecord s (Record.ofLines op (p + before.length + 1) head cycles "") = .ok a)

namespace BlanksBeside

variable {p n : Nat} {as as' : List (Except Fault Entry)} {f f' : Fault}

theorem failed (hcut : ∀ op line missing, f = .truncated op line missing → n < lacked missing) :
    BlanksBeside s R X p n [.error f] [.error f'] := by
  refine .alike (iff_of_false nofun nofun) nofun fun op line missing h => .inl (hcut op line missing ?_)
  cases h
  rfl

theorem closed (s : Settings) (X : List Line) (p n line line' : Nat) (ops : List Opcode) :
    BlanksBeside s R X p n (closing R line ops) (closing R line' ops) := by
  obtain ⟨hnone, hlength⟩ := fault?_closing (R := R) s line ops
  refine .alike ?_ (fun _ => arms_closing s line' line ops) fun op line missing h => ?_
  · rw [hnone, (fault?_closing s line' ops).1]
  · cases hlength _ h

/-- The entries before change nothing. -/
theorem later (ls : List Line) {slot : Slot} (hs : TableReader.SlotRead R op slot)
    (h : BlanksBeside s R X (p + ls.length) n as as') :
    BlanksBeside s R (ls ++ X) p n (.ok ⟨op, slot⟩ :: as) (.ok ⟨op, slot⟩ :: as') := by
  cases ha : Arm.orDiagnostic s ⟨op, slot⟩ with
  | error f =>
    have hf := Arm.orDiagnostic_blamed hs ha
    refine .alike ?_ ?_ fun op line missing hcut => ?_
    · rw [Run.fault?_error as ha, Run.fault?_error as' ha]
    · rw [Run.fault?_error as ha]
      exact nofun
    · rw [Run.fault?_error as ha] at hcut
      cases hcut
      cases hf
  | ok a =>
    cases h with
    | alike hfault harms hcut =>
      refine .alike ?_ ?_ ?_ <;> rw [Run.fault?_ok as ha]
      · rwa [Run.fault?_ok as' ha]
      · rw [Run.arms_ok as ha, Run.arms_ok as' ha]
        exact fun h => congrArg (a :: ·) (harms h)
      · exact hcut
    | placeholder hop hfault hn hended =>
      rw [← Run.fault?_ok as' ha] at hended
      exact .placeholder hop ((Run.fault?_ok as ha).trans hfault) hn hended
    | flags hop hX hfault hn hended =>
      rename_i op' line before head cycles
      rw [← Run.fault?_ok as' ha, Nat.add_assoc p, ← List.length_append] at hended
      refine .flags hop ?_ ((Run.fault?_ok as ha).trans hfault) hn hended
      rw [hX, List.append_assoc]

end BlanksBeside

/-- The slot for which a record is read. -/
def slotOf (R : OpcodeSet) (op : Opcode) (rec : Record) : Slot := if op ∈ R then .reserved else .record rec

/-- The answers of a strict reader when it is `x` that is read of the record of `op`. -/
def answersOf (R : OpcodeSet) (op : Opcode) (n : Nat) (x : Except Fault (Option Record × Cursor)) :
    List (Except Fault Entry) :=
  match x with
  | .error f => [.error f]
  | .ok (some rec, c) => .ok ⟨op, slotOf R op rec⟩ :: TableReader.answers n ⟨c, .after op, R, false⟩
  | .ok (none, c) => [.error (.endsEarly op (c.passed + 1))]

theorem answers_entry {c : Cursor} (h : op ∉ R ∨ c.atPlaceholder = true) (n : Nat) :
    TableReader.answers (n + 1) ⟨c, .entry op, R, false⟩ = answersOf R op n (c.record? op) := by
  rw [TableReader.answers_succ, TableReader.step_entry rfl]
  by_cases hop : op ∈ R
  · have hp := h.resolve_left (absurd hop)
    rw [TableReader.slot?_placeholder hop hp]
    rcases hx : c.record? op with f | ⟨rec | rec, c'⟩
    · exact congrArg (_ :: ·) (TableReader.answers_stop _ n)
    · rw [atPlaceholder_blank (Cursor.record?_eq_none hx)] at hp
      cases hp
    · simp [answersOf, slotOf, hop, Except.map]
  · rw [TableReader.slot?_record hop]
    rcases c.record? op with f | ⟨rec | rec, c'⟩
    · exact congrArg (_ :: ·) (TableReader.answers_stop _ n)
    · exact congrArg (_ :: ·) (TableReader.answers_stop _ n)
    · simp [answersOf, slotOf, hop, Except.map]

theorem atPlaceholder_followed (hB : ∀ l ∈ B, l.isBlank = true) (X : List Line) (p : Nat) :
    Cursor.atPlaceholder ⟨X ++ B, p⟩ = Cursor.atPlaceholder ⟨X, p⟩ := by
  cases X with
  | nil => rw [List.nil_append, atPlaceholder_blank hB]; rfl
  | cons l X => cases l <;> rfl

theorem slotRead_of_record? {c c' : Cursor} {rec : Record} (h : c.record? op = .ok (some rec, c')) :
    TableReader.SlotRead R op (slotOf R op rec) := by
  obtain ⟨head, cycles, flags, rest, -, -, rfl⟩ := Cursor.record?_eq_some h
  unfold slotOf
  split
  · next hop => exact .reserved hop
  · next hop => exact .record hop _ head cycles flags

theorem ofRecord_ne_ok {rec : Record} (h : rec.cycleToken = "") (a : Arm) : Arm.ofRecord s rec ≠ .ok a := by
  intro ha
  obtain ⟨o, cost, -, hcost, -⟩ := Arm.ofRecord_eq_ok ha
  obtain ⟨c, hc, -⟩ := bind_eq_ok hcost
  rw [Record.cost, h] at hc
  cases hc

theorem fault?_blank (s : Settings) (R : OpcodeSet) {op : Opcode} {c : Cursor} (hc : ∀ l ∈ c.rest, l.isBlank = true)
    {n : Nat} (hn : (Phase.after op).left ≤ n) :
    Run.fault? s (TableReader.answers n ⟨c, .after op, R, false⟩) = none ↔
      ∀ op' ∈ (Phase.after op).opcodes, op' ∈ R := by
  obtain ⟨line, hline⟩ := answers_blank (R := R) hc (Phase.after_ne_done op) c.passed hn
  rw [hline]
  exact (fault?_closing s line _).1

theorem fault?_record (hs : s.isLenient = false) (rec : Record) (rest : List (Except Fault Entry)) :
    Run.fault? s (.ok ⟨op, .record rec⟩ :: rest) = none ↔
      Run.fault? s rest = none ∧ ∃ a, Arm.ofRecord s rec = .ok a := by
  have hof : Arm.orDiagnostic s ⟨op, .record rec⟩ = Arm.ofRecord s rec := Arm.orDiagnostic_strict hs _
  cases ha : Arm.ofRecord s rec with
  | error f =>
    rw [Run.fault?_error rest (hof.trans ha)]
    exact iff_of_false nofun fun h => nomatch h.2
  | ok a =>
    rw [Run.fault?_ok rest (hof.trans ha)]
    exact ⟨fun h => ⟨h, a, rfl⟩, And.left⟩

/-- The record of one opcode, and the blank lines after it. -/
theorem beside_answersOf (hs : s.isLenient = false) (hB : ∀ l ∈ B, l.isBlank = true) {n : Nat}
    (hn : (Phase.after op).left ≤ n) {p : Nat}
    (ih : ∀ X p, BlanksBeside s R X p B.length (TableReader.answers n ⟨⟨X, p⟩, .after op, R, false⟩)
      (TableReader.answers n ⟨⟨X ++ B, p⟩, .after op, R, false⟩)) :
    BlanksBeside s R X p B.length (answersOf R op n (Cursor.record? op ⟨X, p⟩))
      (answersOf R op n (Cursor.record? op ⟨X ++ B, p⟩)) := by
  have hbeside := Cursor.record?_beside hB op X p
  have hread := fun rec c' => @slotRead_of_record? R op ⟨X, p⟩ c' rec
  have hpasses := fun found c' => @Cursor.passes_record? ⟨X, p⟩ c' op found
  generalize Cursor.record? op ⟨X, p⟩ = x at hbeside hread hpasses ⊢
  generalize Cursor.record? op ⟨X ++ B, p⟩ = y at hbeside ⊢
  cases hbeside with
  | same =>
    rename_i rec X₁ n₁
    obtain ⟨ls, hX, hn₁⟩ := hpasses _ _ rfl
    dsimp only at hX hn₁
    subst hX hn₁
    exact .later ls (hread _ _ rfl) (ih X₁ _)
  | last hc =>
    -- the one reader is at the end of the table, and the other has only blank lines before it
    rename_i rec n₁ c
    obtain ⟨ls, hX, hn₁⟩ := hpasses _ _ rfl
    dsimp only at hX hn₁
    subst hX hn₁
    refine .later ls (hread _ _ rfl) ?_
    obtain ⟨line, hline⟩ := answers_blank (R := R) (B := []) nofun (Phase.after_ne_done op) (p + ls.length) hn
    obtain ⟨line', hline'⟩ :=
      answers_blank (R := R) (fun l hl => hB l (hc.subset hl)) (Phase.after_ne_done op) c.passed hn
    rw [hline, hline']
    exact .closed s [] _ _ line line' _
  | ended => exact .failed nofun
  | failed hf => exact .failed hf
  | cycles hn' hrec hc =>
    -- a record with blank cycles has no arm, so the blank lines are of use to a placeholder alone
    rename_i line rec c
    have hblank := fault?_blank s R (fun l hl => hB l (hc.subset hl)) hn
    by_cases hop : op ∈ R
    · refine .placeholder hop rfl hn' ?_
      rw [answersOf, slotOf, if_pos hop, Run.fault?_ok _ (Arm.orDiagnostic_reserved s op), hblank]
    · refine .alike (iff_of_false ?_ nofun) nofun fun op' line' missing h => .inr ?_
      · rw [answersOf, slotOf, if_neg hop, fault?_record hs]
        rintro ⟨-, a, ha⟩
        exact ofRecord_ne_ok hrec a ha
      · cases h
        exact ⟨hop, rfl⟩
  | flags hn' hX hc =>
    rename_i line head cycles c
    have hblank := fault?_blank s R (fun l hl => hB l (hc.subset hl)) hn
    by_cases hop : op ∈ R
    · refine .placeholder hop rfl hn' ?_
      rw [answersOf, slotOf, if_pos hop, Run.fault?_ok _ (Arm.orDiagnostic_reserved s op), hblank]
    · refine .flags hop (show X = [] ++ [.text head, .text cycles] from hX) rfl hn' ?_
      rw [answersOf, slotOf, if_neg hop, fault?_record hs, hblank]
      rfl

theorem blanksBeside_answers (hs : s.isLenient = false) (hB : ∀ l ∈ B, l.isBlank = true) {ph : Phase}
    (hd : ph ≠ .done) {n : Nat} (hn : ph.left ≤ n) (X : List Line) (p : Nat) :
    BlanksBeside s R X p B.length (TableReader.answers n ⟨⟨X, p⟩, ph, R, false⟩)
      (TableReader.answers n ⟨⟨X ++ B, p⟩, ph, R, false⟩) := by
  -- by the number of calls; the two readers differ in the blank lines that are left to them alone
  induction n generalizing ph X p with
  | zero => exact absurd (Phase.left_pos hd) (Nat.not_lt_of_le hn)
  | succ n ih =>
    cases ph with
    | entry op =>
      have hn' := Phase.left_after_le hn
      have ih' := ih (Phase.after_ne_done op) hn'
      have hfollowed := atPlaceholder_followed hB X p
      by_cases h : op ∈ R ∧ Cursor.atPlaceholder ⟨X, p⟩ = false
      · rw [TableReader.answers_slot (TableReader.slot?_absent h.1 h.2),
          TableReader.answers_slot (TableReader.slot?_absent h.1 (hfollowed.trans h.2))]
        exact .later [] (.reserved h.1) (ih' X p)
      · have hentry : op ∉ R ∨ Cursor.atPlaceholder ⟨X, p⟩ = true := by
          by_cases hop : op ∈ R
          · exact .inr (by simpa [hop] using h)
          · exact .inl hop
        rw [answers_entry hentry, answers_entry (hfollowed.symm ▸ hentry)]
        exact beside_answersOf hs hB hn' ih'
    | full =>
      have hfound := Cursor.nonBlank?_followed hB X p
      rw [TableReader.answers_succ, TableReader.answers_succ, TableReader.step_full rfl, TableReader.step_full rfl]
      generalize Cursor.nonBlank? ⟨X, p⟩ = x at hfound ⊢
      generalize Cursor.nonBlank? ⟨X ++ B, p⟩ = y at hfound ⊢
      cases hfound with
      | text =>
        simp only [Bool.false_eq_true, if_false, TableReader.answers_stop]
        exact .failed fun _ _ _ hf => nomatch hf
      | unreadable =>
        simp only [TableReader.answers_stop]
        exact .failed fun _ _ _ hf => nomatch hf
      | none => exact .closed s X p _ 0 0 []
    | done => exact absurd rfl hd

end

/-! ### Whole tables -/

section

variable {s : Settings} {table : List UInt8} {blanks : List String}

/-- The table ends inside its last record, no opcode after that has an instruction, and `n` blank
lines are enough for what the record lacks: the lines of a placeholder, or the flags of a record that
compiles without them. -/
def MadeUp (s : Settings) (table : List UInt8) (n : Nat) : Prop :=
  ∃ op line missing, (compile s table).result = .error (.truncated op line missing) ∧
    (∀ op' : Opcode, op < op' → op' ∈ s.reserved) ∧ lacked missing ≤ n ∧
    (op ∈ s.reserved ∨ missing = "flags line" ∧ ∃ before head cycles,
      Line.ofTable table = before ++ [.text head, .text cycles] ∧
        ∃ a, Arm.ofRecord s (Record.ofLines op (before.length + 1) head cycles "") = .ok a)

theorem mem_opcodes {ph : Phase} {op : Opcode} : op ∈ ph.opcodes ↔ ph.index ≤ op.val := by
  cases ph with
  | entry op' =>
    have hop := op.isLt
    rw [Phase.opcodes, List.mem_drop_iff_getElem, Phase.index]
    constructor
    · rintro ⟨i, hi, rfl⟩
      simp [Opcode.all]
    · intro h
      refine ⟨op.val - op'.val, ?_, Fin.ext ?_⟩
      · rw [Opcode.all, List.length_finRange]
        omega
      · simp only [Opcode.all, List.getElem_finRange, Fin.val_cast]
        omega
  | full | done =>
    have hop := op.isLt
    simp only [Phase.opcodes, Phase.index, List.not_mem_nil, false_iff]
    omega

theorem reserved_after {op : Opcode} : (∀ op' ∈ (Phase.after op).opcodes, op' ∈ s.reservedSet) ↔
    ∀ op' : Opcode, op < op' → op' ∈ s.reserved := by
  simp only [mem_opcodes, Phase.index_after, Settings.reservedSet, OpcodeSet.mem_ofList]
  rfl

/-- A run that is beside another one whose table has no blank lines. -/
theorem madeUp_of_beside {n : Nat} {as as' : List (Except Fault Entry)}
    (hv : s.validate = .ok ()) (has : Run.answers s table = as)
    (h : BlanksBeside s s.reservedSet (Line.ofTable table) 0 n as as') :
    (Run.fault? s as' = none ↔ Run.fault? s as = none ∨ MadeUp s table n) ∧
      (Run.fault? s as = none → Run.fault? s as' = none ∧ Run.arms s as' = Run.arms s as) := by
  have hresult : ∀ f, (compile s table).result = .error f ↔ Run.fault? s as = some f := by
    intro f
    rw [compile_eq, Run.result_ofArms_error, endingFault?_valid hv, has]
  have hset : ∀ op, op ∈ s.reservedSet ↔ op ∈ s.reserved := fun op => OpcodeSet.mem_ofList
  cases h with
  | alike hfault harms hcut =>
    refine ⟨?_, fun h => ⟨hfault.2 h, harms h⟩⟩
    rw [hfault]
    refine ⟨.inl, fun h => h.elim id ?_⟩
    rintro ⟨op, line, missing, hf, -, hn, hrecord⟩
    rcases hcut op line missing ((hresult _).1 hf) with hlt | ⟨hop, rfl⟩
    · exact absurd hn (Nat.not_le_of_lt hlt)
    · rcases hrecord with hmem | ⟨hflags, -⟩
      · exact absurd ((hset op).2 hmem) hop
      · exact absurd hflags (by decide)
  | placeholder hop hfault hn hended =>
    rename_i op line missing
    rw [hfault, hended, reserved_after]
    refine ⟨⟨fun h => .inr ?_, fun h => h.elim nofun ?_⟩, nofun⟩
    · exact ⟨op, line, missing, (hresult _).2 hfault, h, hn, .inl ((hset op).1 hop)⟩
    · rintro ⟨op', line', missing', hf, hafter, -⟩
      cases hfault.symm.trans ((hresult _).1 hf)
      exact hafter
  | flags hop hX hfault hn hended =>
    rename_i op line before head cycles
    rw [hfault, hended, reserved_after, Nat.zero_add]
    refine ⟨⟨fun h => .inr ?_, fun h => h.elim nofun ?_⟩, nofun⟩
    · exact ⟨op, line, "flags line", (hresult _).2 hfault, h.1, hn, .inr ⟨rfl, before, head, cycles, hX, h.2⟩⟩
    · rintro ⟨op', line', missing', hf, hafter, -, hrecord⟩
      cases hfault.symm.trans ((hresult _).1 hf)
      rcases hrecord with hmem | ⟨-, before', head', cycles', hX', ha⟩
      · exact absurd ((hset op).2 hmem) hop
      · obtain ⟨rfl, hlast⟩ := List.append_inj' (hX.symm.trans hX') rfl
        cases hlast
        exact ⟨hafter, ha⟩

theorem ofTable_blanks (hended : table.getLast? = some 10) (hblanks : ∀ b ∈ blanks, Text.IsLine b) :
    Line.ofTable (table ++ tableOf blanks) =
      Line.ofTable table ++ (blanks.map Text.dropReturn).map .text := by
  obtain ⟨p, rfl⟩ := List.getLast?_eq_some_iff.1 hended
  rw [List.append_assoc, List.singleton_append, Line.ofTable_append, ofTable_tableOf hblanks]

/-- Blank lines after a table change nothing if it compiles, and help it to only where they make up for
the end of its last record. -/
theorem blanks_compile (hs : s.strictness = .strict) (hended : table.getLast? = some 10)
    (hblanks : ∀ b ∈ blanks, Text.isBlank b = true ∧ Text.IsLine b) :
    ((compile s (table ++ tableOf blanks)).Ok ↔ (compile s table).Ok ∨ MadeUp s table blanks.length) ∧
      ((compile s table).Ok → compile s (table ++ tableOf blanks) = compile s table) := by
  have hlenient := isLenient_of_strict hs
  have hlines := ofTable_blanks hended fun b hb => (hblanks b hb).2
  have hB : ∀ l ∈ (blanks.map Text.dropReturn).map Line.text, l.isBlank = true := by
    refine blank_text fun t ht => ?_
    obtain ⟨b, hb, rfl⟩ := List.mem_map.1 ht
    rw [(padded_dropReturn b).1.isBlank_eq]
    exact (hblanks b hb).1
  cases hv : s.validate with
  | error f =>
    rw [ok_iff, ok_iff, endingFault?_invalid hv, endingFault?_invalid hv]
    refine ⟨⟨nofun, fun h => h.elim nofun ?_⟩, nofun⟩
    rintro ⟨op, line, missing, hf, -⟩
    rw [compile_eq, Run.result_ofArms_error, endingFault?_invalid hv] at hf
    cases hf
  | ok u =>
    have hanswers : ∀ t, Run.answers s t =
        TableReader.answers 257 ⟨⟨Line.ofTable t, 0⟩, .entry .first, s.reservedSet, false⟩ := by
      intro t
      rw [← hlenient]
      rfl
    have hstart : Phase.entry Opcode.first ≠ .done := nofun
    have hbeside :=
      blanksBeside_answers (R := s.reservedSet) hlenient hB hstart (Nat.le_refl 257) (Line.ofTable table) 0
    rw [← hlines, ← hanswers, ← hanswers, List.length_map, List.length_map] at hbeside
    obtain ⟨hok, hsame⟩ := madeUp_of_beside hv rfl hbeside
    rw [ok_iff, ok_iff, endingFault?_valid hv, endingFault?_valid hv]
    refine ⟨hok, fun h => ?_⟩
    obtain ⟨hfault, harms⟩ := hsame h
    rw [compile_eq, compile_eq, writtenArms_valid hv, writtenArms_valid hv, endingFault?_valid hv,
      endingFault?_valid hv, hfault, h, harms]

theorem blanks_after_nop :
    let s : Settings := { reserved := Opcode.all.drop 1 }
    let table := bytesOfText "NOP\n1  4\n- - - -\n"
    s.strictness = .strict ∧ table.getLast? = some 10 ∧ (∀ b ∈ ["", "\t"], Text.isBlank b = true ∧ Text.IsLine b) ∧
      (compile s table).Ok ∧ compile s (table ++ tableOf ["", "\t"]) = compile s table := by
  intro s table
  have hok : (compile s table).Ok := by
    rw [ok_iff]
    decide +kernel
  have hended : table.getLast? = some 10 := by decide
  have hblanks : ∀ b ∈ ["", "\t"], Text.isBlank b = true ∧ Text.IsLine b := by decide
  exact ⟨rfl, hended, hblanks, hok, (blanks_compile rfl hended hblanks).2 hok⟩

/-- A blank line can be the flags that a record lacks. -/
theorem blank_flags_accepted : ¬ ∀ (s : Settings) (table : List UInt8) (n : Nat), s.strictness = .strict →
    table.getLast? = some 10 →
      ((compile s (table ++ tableOf (List.replicate n ""))).Ok ↔ (compile s table).Ok) := by
  intro h
  have hiff := h { reserved := Opcode.all.drop 1 } (bytesOfText "NOP\n1  4\n") 1 rfl (by decide)
  rw [ok_iff, ok_iff] at hiff
  have hpadded : endingFault? { reserved := Opcode.all.drop 1 }
      (bytesOfText "NOP\n1  4\n" ++ tableOf (List.replicate 1 "")) = none := by decide +kernel
  have hcut : endingFault? { reserved := Opcode.all.drop 1 } (bytesOfText "NOP\n1  4\n") =
      some (.truncated 0 3 "flags line") := by decide +kernel
  cases hcut.symm.trans (hiff.1 hpadded)

end

end OpcodeDispatch
