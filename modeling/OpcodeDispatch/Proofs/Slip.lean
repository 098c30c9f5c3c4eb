import OpcodeDispatch.Proofs.Reading

/-!
A line too many or too few does not go unnoticed. Up to the slip the reader goes in step with one
that reads the table as it was; at the slip it can take no record any more, so that only reserved
opcodes get their entries, and then the reader ends in a fault.
-/

namespace OpcodeDispatch

/-- Some number of chunks of four lines, three of them with text and a blank one, which the last
chunk can do without. -/
inductive FourLine : Nat → List Line → Prop
  | nil : FourLine 0 []
  | last {head cycles flags : String} (hh : Text.isBlank head = false) (hc : Text.isBlank cycles = false)
      (hf : Text.isBlank flags = false) : FourLine 1 [.text head, .text cycles, .text flags]
  | cons {m : Nat} {head cycles flags blank : String} {ls : List Line} (hh : Text.isBlank head = false)
      (hc : Text.isBlank cycles = false) (hf : Text.isBlank flags = false)
      (hb : Text.isBlank blank = true) (h : FourLine m ls) :
      FourLine (m + 1) (.text head :: .text cycles :: .text flags :: .text blank :: ls)

/-- Lines with one of them left out, but none of the last chunk, or with one more line of text, blank
or not, before any of them, but not after the last chunk's text. -/
inductive Slip (m : Nat) (ls : List Line) : List Line → Prop
  | deleted (i : Nat) (hi : i + 4 < 4 * m) : Slip m ls (ls.eraseIdx i)
  | inserted (i : Nat) (s : String) (hi : i + 2 ≤ 4 * m) : Slip m ls (ls.insertIdx i (.text s))

/-- The faults in which a slip shows. -/
def Fault.isSlip : Fault → Bool
  | misaligned .. | trailing .. => true
  | _ => false

/-- What a reader gives is its entries, all of them among what another reader gives first, and a
fault in which a slip shows. -/
def Caught (as bs : List (Except Fault Entry)) : Prop :=
  ∃ (entries : List Entry) (f : Fault),
    bs = entries.map .ok ++ [.error f] ∧ f.isSlip = true ∧ entries.map .ok <+: as

theorem Caught.now (as : List (Except Fault Entry)) {f : Fault} (hf : f.isSlip = true) :
    Caught as [.error f] :=
  ⟨[], f, rfl, hf, List.nil_prefix⟩

theorem Caught.later {as bs : List (Except Fault Entry)} (e : Entry) (h : Caught as bs) :
    Caught (.ok e :: as) (.ok e :: bs) := by
  obtain ⟨entries, f, rfl, hf, hprefix⟩ := h
  exact ⟨e :: entries, f, rfl, hf, List.cons_prefix_cons.2 ⟨rfl, hprefix⟩⟩

namespace TableReader

variable {R : OpcodeSet} {op : Opcode} {c c' : Cursor} {n : Nat}

/-- A strict reader's answers from an opcode on. -/
theorem answers_slot {slot : Slot} (h : slot? ⟨c, .entry op, R, false⟩ op = .ok (some slot, c')) :
    answers (n + 1) ⟨c, .entry op, R, false⟩ = .ok ⟨op, slot⟩ :: answers n ⟨c', .after op, R, false⟩ := by
  rw [answers_succ, step_entry rfl, h]

theorem answers_fault {f : Fault} (h : slot? ⟨c, .entry op, R, false⟩ op = .error f) :
    answers (n + 1) ⟨c, .entry op, R, false⟩ = [.error f] := by
  rw [answers_succ, step_entry rfl, h]
  exact congrArg (_ :: ·) (answers_stop _ n)

theorem answers_trailing {s : String} (h : c.nonBlank? = .ok (some s, c')) :
    answers (n + 1) ⟨c, .full, R, false⟩ = [.error (.trailing (c'.passed + 1))] := by
  rw [answers_succ, step_full rfl, h]
  exact congrArg (_ :: ·) (answers_stop _ n)

end TableReader

/-! ### At the slip -/

/-- Lines at which no record can be read, though there is text among them. -/
inductive Stuck : List Line → Prop
  | text {a b c d : String} {ls : List Line} (ha : Text.isBlank a = false) (hd : Text.isBlank d = false) :
      Stuck (.text a :: .text b :: .text c :: .text d :: ls)
  | blank {a b : String} {ls : List Line} (ha : Text.isBlank a = true) (hb : Text.isBlank b = false) :
      Stuck (.text a :: .text b :: ls)

theorem Cursor.nonBlank?_text {s : String} (h : Text.isBlank s = false) (ls : List Line) (n : Nat) :
    nonBlank? ⟨.text s :: ls, n⟩ = .ok (some s, ⟨.text s :: ls, n⟩) := by
  have hl : Line.isBlank (.text s) = false := h
  simp [nonBlank?, skipBlanks, hl]

theorem Cursor.nonBlank?_blank {s t : String} (hs : Text.isBlank s = true) (ht : Text.isBlank t = false)
    (ls : List Line) (n : Nat) :
    nonBlank? ⟨.text s :: .text t :: ls, n⟩ = .ok (some t, ⟨.text t :: ls, n + 1⟩) := by
  have hl : Line.isBlank (.text s) = true := hs
  have hl' : Line.isBlank (.text t) = false := ht
  simp [nonBlank?, skipBlanks, hl, hl']

theorem Cursor.record?_blank {s t : String} (hs : Text.isBlank s = true) (ht : Text.isBlank t = false)
    (ls : List Line) (op : Opcode) (n : Nat) :
    record? op ⟨.text s :: .text t :: ls, n⟩ = .error (.misaligned (n + 2) t) := by
  rw [record?_eq]
  simp only [hs, if_true, nonBlank?_blank hs ht]
  rfl

namespace Stuck

variable {ls : List Line} (h : Stuck ls)

include h

theorem nonBlank? (n : Nat) : ∃ s c, Cursor.nonBlank? ⟨ls, n⟩ = .ok (some s, c) := by
  cases h with
  | text ha hd => exact ⟨_, _, Cursor.nonBlank?_text ha _ n⟩
  | blank ha hb => exact ⟨_, _, Cursor.nonBlank?_blank ha hb _ n⟩

theorem record? (op : Opcode) (n : Nat) : ∃ f, Cursor.record? op ⟨ls, n⟩ = .error f ∧ f.isSlip = true := by
  cases h with
  | text ha hd =>
    rw [Cursor.record?_three ha, Cursor.separator_text, hd]
    exact ⟨_, rfl, rfl⟩
  | blank ha hb =>
    rw [Cursor.record?_blank ha hb]
    exact ⟨_, rfl, rfl⟩

theorem slot? (R : OpcodeSet) (op : Opcode) (n : Nat) :
    (∃ f, TableReader.slot? ⟨⟨ls, n⟩, .entry op, R, false⟩ op = .error f ∧ f.isSlip = true) ∨
      op ∈ R ∧ TableReader.slot? ⟨⟨ls, n⟩, .entry op, R, false⟩ op = .ok (some .reserved, ⟨ls, n⟩) := by
  obtain ⟨f, hf, hslip⟩ := h.record? op n
  by_cases hop : op ∈ R
  · cases hp : Cursor.atPlaceholder ⟨ls, n⟩ with
    | true =>
      refine .inl ⟨f, ?_, hslip⟩
      rw [TableReader.slot?_placeholder hop hp, hf]
      rfl
    | false => exact .inr ⟨hop, TableReader.slot?_absent hop hp⟩
  · refine .inl ⟨f, ?_, hslip⟩
    rw [TableReader.slot?_record hop, hf]
    rfl

end Stuck

/-- Nothing goes wrong at a reserved opcode in a table that is as it should be. -/
theorem FourLine.slot?_reserved {m : Nat} {ls : List Line} (h : FourLine m ls) {R : OpcodeSet} {op : Opcode}
    (hop : op ∈ R) (n : Nat) : ∃ c m', TableReader.slot? ⟨⟨ls, n⟩, .entry op, R, false⟩ op =
      .ok (some .reserved, c) ∧ FourLine m' c.rest := by
  cases hp : Cursor.atPlaceholder ⟨ls, n⟩ with
  | false => exact ⟨_, m, TableReader.slot?_absent hop hp, h⟩
  | true =>
    rw [TableReader.slot?_placeholder hop hp]
    cases h with
    | nil => cases hp
    | last hh hc hf =>
      rw [Cursor.record?_last hh]
      exact ⟨_, 0, rfl, .nil⟩
    | cons hh hc hf hb h =>
      rw [Cursor.record?_separated hh hb]
      exact ⟨_, _, rfl, h⟩

theorem Stuck.caught {as bs : List Line} (hbs : Stuck bs) {m : Nat} (has : FourLine m as) (R : OpcodeSet)
    {n : Nat} {ph : Phase} (hph : ph ≠ .done) (hn : ph.left ≤ n) (na nb : Nat) :
    Caught (TableReader.answers n ⟨⟨as, na⟩, ph, R, false⟩)
      (TableReader.answers n ⟨⟨bs, nb⟩, ph, R, false⟩) := by
  induction n generalizing ph as m na with
  | zero => exact absurd (Phase.left_pos hph) (Nat.not_lt_of_le hn)
  | succ n ih =>
    cases ph with
    | entry op =>
      rcases hbs.slot? R op nb with ⟨f, hf, hslip⟩ | ⟨hop, hslot⟩
      · rw [TableReader.answers_fault hf]
        exact .now _ hslip
      · obtain ⟨c, m', hslot', hrest⟩ := has.slot?_reserved hop na
        rw [TableReader.answers_slot hslot, TableReader.answers_slot hslot']
        exact .later _ (ih hrest (Phase.after_ne_done op) (Phase.left_after_le hn) c.passed)
    | full =>
      obtain ⟨s, c, hc⟩ := hbs.nonBlank? nb
      rw [TableReader.answers_trailing hc]
      exact .now _ rfl
    | done => exact absurd rfl hph

/-! ### Up to the slip -/

/-- Two tables of which the second is found out, from the same opcode and line on. -/
def FoundOut (as bs : List Line) : Prop :=
  ∀ (R : OpcodeSet) (n : Nat) (ph : Phase), ph ≠ .done → ph.left ≤ n → ∀ k : Nat,
    Caught (TableReader.answers n ⟨⟨as, k⟩, ph, R, false⟩) (TableReader.answers n ⟨⟨bs, k⟩, ph, R, false⟩)

/-- Whatever follows a chunk, it is either left where it is or read as a whole. -/
theorem slot?_chunk {head : String} (hh : Text.isBlank head = false) (cycles flags : String) (R : OpcodeSet)
    (op : Opcode) (k : Nat) :
    (∀ b ls, Text.isBlank b = true →
      TableReader.slot? ⟨⟨.text head :: .text cycles :: .text flags :: .text b :: ls, k⟩, .entry op, R, false⟩ op =
        .ok (some .reserved, ⟨.text head :: .text cycles :: .text flags :: .text b :: ls, k⟩)) ∨
    ∃ slot, ∀ b ls, Text.isBlank b = true →
      TableReader.slot? ⟨⟨.text head :: .text cycles :: .text flags :: .text b :: ls, k⟩, .entry op, R, false⟩ op =
        .ok (some slot, ⟨ls, k + 4⟩) := by
  by_cases hop : op ∈ R
  · cases hp : (Text.words head).head?.any fun w => Line.placeholders.contains (Text.upper w) with
    | false => exact .inl fun b ls hb => TableReader.slot?_absent hop hp
    | true =>
      refine .inr ⟨.reserved, fun b ls hb => ?_⟩
      have hp' : ∀ ls, Cursor.atPlaceholder ⟨.text head :: ls, k⟩ = true := fun _ => hp
      refine (TableReader.slot?_placeholder hop (hp' _)).trans ?_
      exact congrArg (Except.map _) (Cursor.record?_separated hh hb)
  · refine .inr ⟨.record (Record.ofLines op (k + 1) head cycles flags), fun b ls hb => ?_⟩
    refine (TableReader.slot?_record hop).trans ?_
    exact congrArg (Except.map _) (Cursor.record?_separated hh hb)

theorem FoundOut.cons {as bs : List Line} (h : FoundOut as bs) {head a b : String}
    (hh : Text.isBlank head = false) (ha : Text.isBlank a = true) (hb : Text.isBlank b = true)
    (cycles flags : String) :
    FoundOut (.text head :: .text cycles :: .text flags :: .text a :: as)
      (.text head :: .text cycles :: .text flags :: .text b :: bs) := by
  intro R n
  induction n with
  | zero =>
    intro ph hph hn
    exact absurd (Phase.left_pos hph) (Nat.not_lt_of_le hn)
  | succ n ih =>
    intro ph hph hn k
    cases ph with
    | entry op =>
      have hleft : (Phase.after op).left ≤ n := Phase.left_after_le hn
      rcases slot?_chunk hh cycles flags R op k with hslot | ⟨slot, hslot⟩
      · rw [TableReader.answers_slot (hslot a as ha), TableReader.answers_slot (hslot b bs hb)]
        exact .later _ (ih (.after op) (Phase.after_ne_done op) hleft k)
      · rw [TableReader.answers_slot (hslot a as ha), TableReader.answers_slot (hslot b bs hb)]
        exact .later _ (h R n (.after op) (Phase.after_ne_done op) hleft (k + 4))
    | full =>
      rw [TableReader.answers_trailing
        (Cursor.nonBlank?_text hh (.text cycles :: .text flags :: .text b :: bs) k)]
      exact .now _ rfl
    | done => exact absurd rfl hph

theorem FourLine.starts {m : Nat} {ls : List Line} (h : FourLine m ls) (hm : 0 < m) :
    ∃ s rest, ls = .text s :: rest ∧ Text.isBlank s = false := by
  cases h with
  | nil => cases hm
  | last hh hc hf => exact ⟨_, _, rfl, hh⟩
  | cons hh hc hf hb h => exact ⟨_, _, rfl, hh⟩

theorem foundOut_deleted {m : Nat} {ls : List Line} (h : FourLine m ls) {i : Nat} (hi : i + 4 < 4 * m) :
    FoundOut ls (ls.eraseIdx i) := by
  induction h generalizing i with
  | nil => omega
  | last hh hc hf => omega
  | cons hh hc hf hb h ih =>
    have hwhole := FourLine.cons hh hc hf hb h
    match i, hi with
    | i + 4, hi => exact (ih (by omega)).cons hh hb hb _ _
    | 0, hi =>
      obtain ⟨s, rest, rfl, hs⟩ := h.starts (by omega)
      exact fun R n ph hph hn k => Stuck.caught (.text hc hs) hwhole R hph hn k k
    | 1, hi | 2, hi | 3, hi =>
      obtain ⟨s, rest, rfl, hs⟩ := h.starts (by omega)
      exact fun R n ph hph hn k => Stuck.caught (.text hh hs) hwhole R hph hn k k

theorem foundOut_inserted {m : Nat} {ls : List Line} (h : FourLine m ls) {i : Nat} (hi : i + 2 ≤ 4 * m)
    (s : String) : FoundOut ls (ls.insertIdx i (.text s)) := by
  have hblank : Text.isBlank s = true ∨ Text.isBlank s = false := by
    cases Text.isBlank s <;> simp
  induction h generalizing i with
  | nil => omega
  | last hh hc hf =>
    have hwhole := FourLine.last hh hc hf
    match i, hi with
    | 0, hi =>
      rcases hblank with hs | hs
      · exact fun R n ph hph hn k => Stuck.caught (.blank hs hh) hwhole R hph hn k k
      · exact fun R n ph hph hn k => Stuck.caught (.text hs hf) hwhole R hph hn k k
    | 1, hi | 2, hi => exact fun R n ph hph hn k => Stuck.caught (.text hh hf) hwhole R hph hn k k
    | i + 3, hi => omega
  | cons hh hc hf hb h ih =>
    have hwhole := FourLine.cons hh hc hf hb h
    match i, hi with
    | i + 4, hi => exact (ih (by omega)).cons hh hb hb _ _
    | 0, hi =>
      rcases hblank with hs | hs
      · exact fun R n ph hph hn k => Stuck.caught (.blank hs hh) hwhole R hph hn k k
      · exact fun R n ph hph hn k => Stuck.caught (.text hs hf) hwhole R hph hn k k
    | 1, hi | 2, hi => exact fun R n ph hph hn k => Stuck.caught (.text hh hf) hwhole R hph hn k k
    | 3, hi =>
      rcases hblank with hs | hs
      · -- the new line separates the chunks, and the old separator is stuck at instead
        obtain ⟨t, rest, rfl, ht⟩ := h.starts (by omega)
        have hrest : FoundOut (.text t :: rest) (.text _ :: .text t :: rest) :=
          fun R n ph hph hn k => Stuck.caught (.blank hb ht) h R hph hn k k
        exact hrest.cons hh hb hs _ _
      · exact fun R n ph hph hn k => Stuck.caught (.text hh hs) hwhole R hph hn k k

/-- A table with one line too many or too few is found out before anything is read amiss. -/
theorem caught_of_slip {table edited : List UInt8} {m : Nat} (h : FourLine m (Line.ofTable table))
    (hslip : Slip m (Line.ofTable table) (Line.ofTable edited)) (R : OpcodeSet) :
    Caught (TableReader.ofTable table R false).all (TableReader.ofTable edited R false).all := by
  have hfound : FoundOut (Line.ofTable table) (Line.ofTable edited) := by
    generalize Line.ofTable edited = ls at hslip
    cases hslip with
    | deleted i hi => exact foundOut_deleted h hi
    | inserted i s hi => exact foundOut_inserted h hi s
  exact hfound R _ (.entry .first) (by simp) (Nat.le_refl _) 0

/-- Two instructions, and the flags of the first one are left out. -/
theorem caught_of_lost_flags :
    let table := bytesOfText "NOP\n1  4\n- - - -\n\nHALT\n1  4\n- - - -\n"
    let edited := bytesOfText "NOP\n1  4\n\nHALT\n1  4\n- - - -\n"
    let R := OpcodeSet.ofList (Opcode.all.drop 2)
    FourLine 2 (Line.ofTable table) ∧ Slip 2 (Line.ofTable table) (Line.ofTable edited) ∧
      Caught (TableReader.ofTable table R false).all (TableReader.ofTable edited R false).all := by
  intro table edited R
  have htable : Line.ofTable table = [.text "NOP", .text "1  4", .text "- - - -", .text "", .text "HALT",
      .text "1  4", .text "- - - -"] := by decide
  have hedited : Line.ofTable edited = [.text "NOP", .text "1  4", .text "", .text "HALT", .text "1  4",
      .text "- - - -"] := by decide
  have hfour : FourLine 2 (Line.ofTable table) := by
    rw [htable]
    exact .cons (by decide) (by decide) (by decide) (by decide) (.last (by decide) (by decide) (by decide))
  have hslip : Slip 2 (Line.ofTable table) (Line.ofTable edited) := by
    rw [htable, hedited]
    exact .deleted 2 (by decide)
  exact ⟨hfour, hslip, caught_of_slip hfour hslip R⟩

end OpcodeDispatch
