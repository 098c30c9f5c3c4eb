import OpcodeDispatch.Proofs.Calls
import OpcodeDispatch.Proofs.Layout
import OpcodeDispatch.Proofs.Verdicts

/-!
The run over a table whose layout is edited. Lines that read alike give records that compile alike, so the
two readers go in step, and a run that ends well is the same run over both tables.
-/

namespace OpcodeDispatch
namespace Layout

/-! ### Records that read alike -/

/-- Two records that compile alike. Their texts may differ, and show in faults alone. -/
structure SameRecord (r r' : Record) : Prop where
  opcode : r.opcode = r'.opcode
  mnemonic : r.mnemonic = r'.mnemonic
  operands : r.operandList = r'.operandList
  cycles : r.cycleToken = r'.cycleToken

theorem sameRecord_ofLines {h h' c c' : String} (hh : SameHead h h') (hc : SameCycles c c') (op : Opcode) (n n' : Nat)
    (f f' : String) : SameRecord (Record.ofLines op n h c f) (Record.ofLines op n' h' c' f') where
  opcode := rfl
  mnemonic := hh.mnemonic
  operands := by rw [Record.operandList_ofLines, Record.operandList_ofLines, hh.operands]
  cycles := congrArg (·.getD "") hc

/-- What `x` gives, if it is no fault, `y` gives too. -/
def Keeps (x y : Except Fault α) : Prop := ∀ a, x = .ok a → y = .ok a

theorem keeps_refl (x : Except Fault α) : Keeps x x := fun _ h => h

theorem keeps_error (f : Fault) (y : Except Fault α) : Keeps (.error f) y := fun _ h => nomatch h

theorem keeps_bind {x y : Except Fault α} {f g : α → Except Fault β} (h : Keeps x y)
    (hf : ∀ a, Keeps (f a) (g a)) : Keeps (x >>= f) (y >>= g) := by
  intro b hb
  obtain ⟨a, ha, hb⟩ := bind_eq_ok hb
  rw [h a ha]
  exact hf a b hb

variable {r r' : Record}

theorem keeps_require (r r' : Record) (operand : String) (o : Option α) :
    Keeps (r.require operand o) (r'.require operand o) := by
  cases o with
  | none => exact keeps_error _ _
  | some a => exact keeps_refl _

theorem keeps_operandAs (r r' : Record) (as? : AddressingMode → Option α) (operand : String) :
    Keeps (r.operandAs as? operand) (r'.operandAs as? operand) :=
  keeps_bind (keeps_require r r' _ _) fun _ => keeps_require r r' _ _

section

open Operation

variable (h : SameRecord r r')

include h

theorem keeps_ofLoad : Keeps (ofLoad r) (ofLoad r') := by
  unfold ofLoad
  rw [← h.operands]
  split
  · refine keeps_bind (keeps_require r r' _ _) fun target => keeps_bind (keeps_require r r' _ _) fun source => ?_
    split
    · exact keeps_bind (keeps_require r r' _ _) fun t => keeps_bind (keeps_require r r' _ _) fun s => keeps_refl _
    · exact keeps_bind (keeps_require r r' _ _) fun s => keeps_bind (keeps_require r r' _ _) fun t => keeps_refl _
  · exact keeps_error _ _

theorem keeps_ofConditioned (as? : AddressingMode → Option α) (make : α → Option Condition → Operation) :
    Keeps (ofConditioned r as? make) (ofConditioned r' as? make) := by
  unfold ofConditioned
  rw [← h.operands]
  split
  · exact keeps_bind (keeps_operandAs r r' _ _) fun a => keeps_refl _
  · refine keeps_bind (keeps_require r r' _ _) fun cc => ?_
    exact keeps_bind (keeps_operandAs r r' _ _) fun a => keeps_refl _
  · exact keeps_error _ _

theorem keeps_ofRet : Keeps (ofRet r) (ofRet r') := by
  unfold ofRet
  rw [← h.operands]
  split
  · exact keeps_refl _
  · exact keeps_bind (keeps_require r r' _ _) fun cc => keeps_refl _
  · exact keeps_error _ _

theorem keeps_ofUnary (as? : AddressingMode → Option α) (make : α → Operation) :
    Keeps (ofUnary r as? make) (ofUnary r' as? make) := by
  unfold ofUnary
  rw [← h.operands]
  split
  · exact keeps_bind (keeps_operandAs r r' _ _) fun a => keeps_refl _
  · exact keeps_error _ _

theorem keeps_ofAdd (carry : Bool) : Keeps (ofAdd r carry) (ofAdd r' carry) := by
  unfold ofAdd
  rw [← h.operands]
  split
  · exact keeps_bind (keeps_operandAs r r' _ _) fun s => keeps_refl _
  · refine keeps_bind (keeps_require r r' _ _) fun target => ?_
    split
    · exact keeps_bind (keeps_operandAs r r' _ _) fun s => keeps_refl _
    · exact keeps_bind (keeps_operandAs r r' _ _) fun p => keeps_refl _
    · exact keeps_operandAs r r' _ _
    · exact keeps_error _ _
  · exact keeps_error _ _

theorem keeps_ofAccumulate (make : ByteSource → Operation) :
    Keeps (ofAccumulate r make) (ofAccumulate r' make) := by
  unfold ofAccumulate
  rw [← h.operands]
  split
  · exact keeps_bind (keeps_operandAs r r' _ _) fun s => keeps_refl _
  · split
    · exact keeps_bind (keeps_operandAs r r' _ _) fun s => keeps_refl _
    · exact keeps_error _ _
  · exact keeps_error _ _

theorem keeps_ofRestart : Keeps (ofRestart r) (ofRestart r') := by
  unfold ofRestart
  rw [← h.operands]
  split
  · split
    · exact keeps_refl _
    · exact keeps_error _ _
  · exact keeps_error _ _

theorem keeps_ofRecord : Keeps (Operation.ofRecord r) (Operation.ofRecord r') := by
  unfold Operation.ofRecord
  rw [← h.mnemonic]
  cases Family.ofMnemonic r.mnemonic with
  | load => exact keeps_ofLoad h
  | relativeJump | call | jump => exact keeps_ofConditioned h _ _
  | ret => exact keeps_ofRet h
  | increment | decrement | push | pop => exact keeps_ofUnary h _ _
  | add carry => exact keeps_ofAdd h carry
  | subtract | logic => exact keeps_ofAccumulate h _
  | restart => exact keeps_ofRestart h
  | extension | nullary => exact keeps_refl _

theorem keeps_cost : Keeps r.cost r'.cost := by
  unfold Record.cost
  rw [← h.cycles]
  split
  · exact keeps_refl _
  · exact keeps_error _ _

theorem keeps_arm (s : Settings) : Keeps (Arm.ofRecord s r) (Arm.ofRecord s r') := by
  unfold Arm.ofRecord
  rw [← h.opcode]
  refine keeps_bind (keeps_ofRecord h) fun o => keeps_bind ?_ fun cost => keeps_refl _
  exact keeps_bind (keeps_cost h) fun c => keeps_refl _

end

/-- Two slots that compile alike. -/
inductive SameSlot : Slot → Slot → Prop
  | reserved : SameSlot .reserved .reserved
  | record {rec rec' : Record} (h : SameRecord rec rec') : SameSlot (.record rec) (.record rec')

theorem keeps_orDiagnostic {s : Settings} (hs : s.isLenient = false) {slot slot' : Slot} (h : SameSlot slot slot')
    (op : Opcode) : Keeps (Arm.orDiagnostic s ⟨op, slot⟩) (Arm.orDiagnostic s ⟨op, slot'⟩) := by
  cases h with
  | reserved => exact keeps_refl _
  | record h =>
    intro a ha
    rw [Arm.orDiagnostic_strict hs] at ha ⊢
    exact keeps_arm h s a ha

/-! ### Readers in step -/

/-- Lines of text of which the same is read. -/
def AlikeLines (ls ls' : List Line) : Prop :=
  ∃ ts ts', ls = ts.map Line.text ∧ ls' = ts'.map Line.text ∧ Alike ts ts'

section

variable {ls ls' : List Line} {op : Opcode}

theorem blank_text {ts : List String} (h : ∀ t ∈ ts, Text.isBlank t = true) :
    ∀ l ∈ ts.map Line.text, l.isBlank = true := by
  intro l hl
  obtain ⟨t, ht, rfl⟩ := List.mem_map.1 hl
  exact h t ht

theorem exists_text (h : ∀ l ∈ ls, l.isBlank = true) :
    ∃ ts : List String, ls = ts.map Line.text ∧ ∀ t ∈ ts, Text.isBlank t = true := by
  induction ls with
  | nil => exact ⟨[], rfl, by simp⟩
  | cons l ls ih =>
    simp only [List.forall_mem_cons] at h
    obtain ⟨ts, rfl, hts⟩ := ih h.2
    cases l with
    | text t => exact ⟨t :: ts, rfl, List.forall_mem_cons.2 ⟨h.1, hts⟩⟩
    | unreadable cause => exact absurd h.1 (by simp [Line.isBlank])

theorem AlikeLines.blanks (h : ∀ l ∈ ls, l.isBlank = true) : AlikeLines ls ls := by
  obtain ⟨ts, rfl, hts⟩ := exists_text h
  exact ⟨ts, ts, rfl, rfl, .blanks hts hts⟩

/-- Blank lines are alike with blank lines alone. -/
theorem AlikeLines.blank (h : AlikeLines ls ls') (hls : ∀ l ∈ ls, l.isBlank = true) :
    ∀ l ∈ ls', l.isBlank = true := by
  obtain ⟨ts, ts', rfl, rfl, h⟩ := h
  cases h with
  | blanks h₀ h₁ => exact blank_text h₁
  | last hh hc =>
    have hblank := hls _ List.mem_cons_self
    simp [Line.isBlank, hh.left] at hblank
  | record hh hc hb hb' ht =>
    have hblank := hls _ List.mem_cons_self
    simp [Line.isBlank, hh.left] at hblank

theorem atPlaceholder_blank {n : Nat} (h : ∀ l ∈ ls, l.isBlank = true) :
    Cursor.atPlaceholder ⟨ls, n⟩ = false := by
  obtain ⟨ts, rfl, hts⟩ := exists_text h
  cases ts with
  | nil => rfl
  | cons t ts =>
    rw [List.map_cons, Cursor.atPlaceholder_text, Text.words_of_isBlank (hts t List.mem_cons_self)]
    rfl

theorem AlikeLines.atPlaceholder (h : AlikeLines ls ls') (n n' : Nat) :
    Cursor.atPlaceholder ⟨ls, n⟩ = Cursor.atPlaceholder ⟨ls', n'⟩ := by
  have hany : ∀ w? : Option String, (w?.any fun w => Line.placeholders.contains (Text.upper w)) =
      (w?.map Text.upper).any Line.placeholders.contains := fun w? => by cases w? <;> rfl
  obtain ⟨ts, ts', rfl, rfl, h⟩ := h
  cases h with
  | blanks h₀ h₁ => rw [atPlaceholder_blank (blank_text h₀), atPlaceholder_blank (blank_text h₁)]
  | last hh hc =>
    simp only [List.map_cons, Cursor.atPlaceholder_text]
    rw [hany, hany, hh.word]
  | record hh hc hb hb' ht =>
    simp only [List.map_cons, Cursor.atPlaceholder_text]
    rw [hany, hany, hh.word]

/-- Where one record is read, another one that compiles alike is read of the other lines. -/
theorem AlikeLines.record? (h : AlikeLines ls ls') {n : Nat} {rec : Record} {c : Cursor}
    (hr : Cursor.record? op ⟨ls, n⟩ = .ok (some rec, c)) (n' : Nat) :
    ∃ rec' c', Cursor.record? op ⟨ls', n'⟩ = .ok (some rec', c') ∧ SameRecord rec rec' ∧
      AlikeLines c.rest c'.rest := by
  obtain ⟨ts, ts', rfl, rfl, h⟩ := h
  cases h with
  | blanks h₀ h₁ =>
    obtain ⟨head, cycles, flags, rest, hrest, hhead, -⟩ := Cursor.record?_eq_some hr
    have hblank := blank_text h₀ (.text head) (by rw [show ts.map Line.text = _ from hrest]; simp)
    exact absurd hhead (by simpa [Line.isBlank] using hblank)
  | last hh hc =>
    simp only [List.map_cons, List.map_nil, Cursor.record?_last hh.left] at hr
    cases hr
    have hend : AlikeLines [] [] := .blanks (by simp)
    exact ⟨_, _, Cursor.record?_last hh.right, sameRecord_ofLines hh hc _ _ _ _ _, hend⟩
  | record hh hc hb hb' ht =>
    simp only [List.map_cons, Cursor.record?_separated hh.left hb] at hr
    cases hr
    exact ⟨_, _, Cursor.record?_separated hh.right hb', sameRecord_ofLines hh hc _ _ _ _ _, _, _, rfl, rfl, ht⟩

/-- If the lines behind a record are alike with themselves, so are all of them. -/
theorem alikeLines_of_record? {c c' : Cursor} {found : Option Record} (h : c.record? op = .ok (found, c'))
    (hc : AlikeLines c'.rest c'.rest) : AlikeLines c.rest c.rest := by
  cases found with
  | none => exact .blanks (Cursor.record?_eq_none h)
  | some rec =>
    obtain ⟨rest, n⟩ := c
    obtain ⟨head, cycles, flags, left, hrest, hhead, -⟩ := Cursor.record?_eq_some h
    obtain rfl : rest = _ := hrest
    rw [Cursor.record?_three hhead] at h
    have hsame : SameHead head head := .refl hhead
    cases left with
    | nil => exact ⟨[head, cycles, flags], _, rfl, rfl, .last hsame rfl⟩
    | cons l left =>
      cases l with
      | unreadable cause => cases h
      | text blank =>
        rw [Cursor.separator_text] at h
        split at h
        · next hb =>
          cases h
          obtain ⟨ts, ts', rfl, hts, ht⟩ := hc
          obtain rfl := List.map_injective_iff.2 (fun _ _ h => Line.text.inj h) hts
          exact ⟨head :: cycles :: flags :: blank :: ts, _, rfl, rfl, .record hsame rfl hb hb ht⟩
        · cases h

end

/-- Two strict readers, in the same phase and before lines of which the same is read. -/
structure InStep (r r' : TableReader) : Prop where
  phase : r.phase = r'.phase
  reserved : r.reserved = r'.reserved
  lenient : r.lenient = false
  lenient' : r'.lenient = false
  lines : AlikeLines r.cursor.rest r'.cursor.rest

section

variable {r r' : TableReader} {op : Opcode}

theorem InStep.slot? (h : InStep r r') {slot : Slot} {c : Cursor} (hs : r.slot? op = .ok (some slot, c)) :
    ∃ slot' c', r'.slot? op = .ok (some slot', c') ∧ SameSlot slot slot' ∧ AlikeLines c.rest c'.rest := by
  by_cases hop : op ∈ r.reserved
  · have hop' : op ∈ r'.reserved := h.reserved ▸ hop
    have hplace : r.cursor.atPlaceholder = r'.cursor.atPlaceholder := h.lines.atPlaceholder _ _
    cases hp : r.cursor.atPlaceholder with
    | false =>
      rw [TableReader.slot?_absent hop hp] at hs
      cases hs
      exact ⟨_, _, TableReader.slot?_absent hop' (hplace ▸ hp), .reserved, h.lines⟩
    | true =>
      rw [TableReader.slot?_placeholder hop hp] at hs
      rw [TableReader.slot?_placeholder hop' (hplace ▸ hp)]
      rcases hr : r.cursor.record? op with f | ⟨_ | rec, c₁⟩
      · simp [hr, Except.map] at hs
      · -- no placeholder stands among blank lines
        have hblank : r.cursor.atPlaceholder = false := atPlaceholder_blank (Cursor.record?_eq_none hr)
        exact absurd hp (by simp [hblank])
      · obtain ⟨rfl, rfl⟩ : .reserved = slot ∧ c₁ = c := by simpa [hr, Except.map] using hs
        obtain ⟨rec', c', hr', -, hc⟩ := h.lines.record? hr r'.cursor.passed
        refine ⟨.reserved, c', ?_, .reserved, hc⟩
        rw [show r'.cursor.record? op = _ from hr']
        rfl
  · have hop' : op ∉ r'.reserved := h.reserved ▸ hop
    rw [TableReader.slot?_record hop] at hs
    rw [TableReader.slot?_record hop']
    rcases hr : r.cursor.record? op with f | ⟨_ | rec, c₁⟩
    · simp [hr, Except.map] at hs
    · simp [hr, Except.map] at hs
    · obtain ⟨rfl, rfl⟩ : .record rec = slot ∧ c₁ = c := by simpa [hr, Except.map] using hs
      obtain ⟨rec', c', hr', hrec, hc⟩ := h.lines.record? hr r'.cursor.passed
      refine ⟨.record rec', c', ?_, .record hrec, hc⟩
      rw [show r'.cursor.record? op = _ from hr']
      rfl

theorem InStep.step (h : InStep r r') {e : Entry} {next : TableReader} (hs : r.step = .ok (some (e, next))) :
    ∃ slot' next', r'.step = .ok (some (⟨e.opcode, slot'⟩, next')) ∧ SameSlot e.slot slot' ∧
      InStep next next' := by
  obtain ⟨op, slot, c, hp, hslot, rfl, rfl⟩ := TableReader.step_eq_entry hs
  obtain ⟨slot', c', hslot', hsame, hc⟩ := h.slot? hslot
  have hnext : InStep { r with cursor := c, phase := .after op } { r' with cursor := c', phase := .after op } :=
    ⟨rfl, h.reserved, h.lenient, h.lenient', hc⟩
  refine ⟨slot', _, ?_, hsame, hnext⟩
  rw [TableReader.step_entry (h.phase ▸ hp), hslot']

theorem InStep.stop (h : InStep r r') (hs : r.step = .ok none) : r'.step = .ok none := by
  rcases TableReader.step_eq_none hs with hp | hp | ⟨hl, -⟩
  · rw [TableReader.step_done (h.phase ▸ hp)]
  · rw [TableReader.step_full hp] at hs
    rcases hc : r.cursor.nonBlank? with f | ⟨_ | s, c⟩
    · simp [hc] at hs
    · have hblank := h.lines.blank (Cursor.nonBlank?_eq_none hc)
      rw [TableReader.step_full (h.phase ▸ hp), Cursor.nonBlank?_blanks hblank]
    · simp [hc, h.lenient] at hs
  · exact absurd (h.lenient.symm.trans hl) Bool.false_ne_true

/-- A strict run without a fault has the same arms over both readers. -/
theorem InStep.answers {s : Settings} (hs : s.isLenient = false) (h : InStep r r') (n : Nat)
    (hf : Run.fault? s (r.answers n) = none) :
    Run.fault? s (r'.answers n) = none ∧ Run.arms s (r'.answers n) = Run.arms s (r.answers n) := by
  induction n generalizing r r' with
  | zero => exact ⟨rfl, rfl⟩
  | succ n ih =>
    rw [TableReader.answers_succ] at hf
    rw [TableReader.answers_succ, TableReader.answers_succ]
    rcases hstep : r.step with f | _ | ⟨e, next⟩
    · simp [hstep, Run.fault?, bind, Except.bind] at hf
    · rw [h.stop hstep]
      exact ⟨rfl, rfl⟩
    · obtain ⟨slot', next', hstep', hslot, hnext⟩ := h.step hstep
      simp only [hstep, hstep'] at hf ⊢
      cases ha : Arm.orDiagnostic s e with
      | error f =>
        rw [Run.fault?_error _ ha] at hf
        cases hf
      | ok a =>
        have ha' := keeps_orDiagnostic hs hslot e.opcode a ha
        rw [Run.fault?_ok _ ha] at hf
        rw [Run.fault?_ok _ ha', Run.arms_ok _ ha, Run.arms_ok _ ha', (ih hnext hf).2]
        exact ⟨(ih hnext hf).1, rfl⟩

theorem alikeLines_of_slot? {slot? : Option Slot} {c : Cursor} (h : r.slot? op = .ok (slot?, c))
    (hc : AlikeLines c.rest c.rest) : AlikeLines r.cursor.rest r.cursor.rest := by
  unfold TableReader.slot? at h
  split at h
  · split at h
    · obtain ⟨⟨found, c₁⟩, hfound, h⟩ := bind_eq_ok h
      cases h
      exact alikeLines_of_record? hfound hc
    · cases h
      exact hc
  · obtain ⟨⟨found, c₁⟩, hfound, h⟩ := bind_eq_ok h
    cases h
    exact alikeLines_of_record? hfound hc

/-- A strict reader that gives no fault reads lines of which the same is read as of themselves. -/
theorem alikeLines_of_answers {s : Settings} (hl : r.lenient = false) (hd : r.phase ≠ .done) (n : Nat)
    (hn : r.phase.left ≤ n) (hf : Run.fault? s (r.answers n) = none) : AlikeLines r.cursor.rest r.cursor.rest := by
  induction n generalizing r with
  | zero => exact absurd (Phase.left_pos hd) (Nat.not_lt_of_le hn)
  | succ n ih =>
    rw [TableReader.answers_succ] at hf
    rcases hstep : r.step with f | _ | ⟨e, next⟩
    · simp [hstep, Run.fault?, bind, Except.bind] at hf
    · rcases TableReader.step_eq_none hstep with hp | hp | ⟨hl', -⟩
      · exact absurd hp hd
      · rw [TableReader.step_full hp] at hstep
        rcases hc : r.cursor.nonBlank? with f | ⟨_ | s, c⟩
        · simp [hc] at hstep
        · exact .blanks (Cursor.nonBlank?_eq_none hc)
        · simp [hc, hl] at hstep
      · exact absurd (hl.symm.trans hl') Bool.false_ne_true
    · obtain ⟨op, slot, c, hp, hslot, rfl, rfl⟩ := TableReader.step_eq_entry hstep
      simp only [hstep] at hf
      have hleft : (Phase.after op).left ≤ n := Phase.left_after_le (hp ▸ hn)
      cases ha : Arm.orDiagnostic s ⟨op, slot⟩ with
      | error f =>
        rw [Run.fault?_error _ ha] at hf
        cases hf
      | ok a =>
        rw [Run.fault?_ok _ ha] at hf
        have hrest := ih (r := { r with cursor := c, phase := .after op }) hl (Phase.after_ne_done op) hleft hf
        exact alikeLines_of_slot? hslot hrest

end

/-! ### Tables of lines -/

/-- The table of some lines, each of them ended. -/
def tableOf (ls : List String) : List UInt8 := bytesOfText (String.join (ls.map (· ++ "\n")))

theorem tableOf_cons (l : String) (ls : List String) : tableOf (l :: ls) = bytesOfText l ++ 10 :: tableOf ls := by
  simp only [tableOf, List.map_cons, String.join_cons, bytesOfText_append, bytesOfText_newline, List.append_assoc,
    List.singleton_append]

theorem ofTable_tableOf {ls : List String} (h : ∀ l ∈ ls, Text.IsLine l) :
    Line.ofTable (tableOf ls) = (ls.map Text.dropReturn).map Line.text := by
  induction ls with
  | nil => rfl
  | cons l ls ih =>
    simp only [List.forall_mem_cons] at h
    simp only [tableOf, List.map_cons, String.join_cons]
    rw [Line.ofTable_text_cons h.1, ← tableOf, ih h.2]

/-- A table whose lines are text and ended is a table of lines. -/
theorem exists_tableOf {table : List UInt8} (hended : table = [] ∨ table.getLast? = some 10)
    (htext : ∀ l ∈ Line.ofTable table, ∃ t, l = .text t) :
    ∃ ls, (∀ l ∈ ls, Text.IsLine l) ∧ table = tableOf ls := by
  induction hn : table.length using Nat.strongRecOn generalizing table with
  | ind n ih =>
  by_cases hmem : 10 ∈ table
  · obtain ⟨bytes, rest, rfl, hbytes⟩ := List.eq_append_cons_of_mem hmem
    rw [Line.ofTable_append, Line.ofTable_ended hbytes, List.singleton_append, List.forall_mem_cons] at htext
    obtain ⟨⟨t, ht⟩, hrest⟩ := htext
    obtain ⟨l, rfl⟩ := Line.text_of_dropReturn (Line.ofBytes_eq_text ht)
    have hended' : rest = [] ∨ rest.getLast? = some 10 := by
      cases rest with
      | nil => exact .inl rfl
      | cons b rest =>
        rcases hended with hnil | hlast
        · simp at hnil
        · rw [List.getLast?_append_of_ne_nil _ (by simp), List.getLast?_cons_cons] at hlast
          exact .inr hlast
    have hlength : rest.length < n := by
      rw [← hn, List.length_append, List.length_cons]
      omega
    obtain ⟨ls, hls, rfl⟩ := ih rest.length hlength hended' hrest rfl
    exact ⟨l :: ls, List.forall_mem_cons.2 ⟨newline_not_mem_of_bytes hbytes, hls⟩, (tableOf_cons l ls).symm⟩
  · rcases hended with rfl | hlast
    · exact ⟨[], by simp, rfl⟩
    · exact absurd (List.mem_of_getLast? hlast) hmem

/-- A carriage return at the end of a line is white space. -/
theorem padded_dropReturn (l : String) : Padded (Text.dropReturn l) l ∧ Padded l (Text.dropReturn l) := by
  have hnone : Gap "" := by decide
  have hreturn : ∃ b, Gap b ∧ l = Text.dropReturn l ++ b := by
    unfold Text.dropReturn
    split
    · next hlast =>
      refine ⟨"\r", by decide, ?_⟩
      rw [String.ext_iff, String.toList_append, String.toList_ofList]
      exact (List.dropLast_append_getLast? _ hlast).symm
    · exact ⟨"", hnone, by simp⟩
  obtain ⟨b, hb, hl⟩ := hreturn
  have hadd := Padded.intro hnone hnone hnone hb (Text.dropReturn l)
  have hdrop := Padded.intro hnone hnone hb hnone (Text.dropReturn l)
  rw [String.empty_append, String.append_empty, ← hl] at hadd hdrop
  exact ⟨hadd, hdrop⟩

/-! ### Runs over edited tables -/

variable {s : Settings}

theorem alike_edits {ls ls' : List String} (he : Relation.ReflTransGen Edit ls ls')
    (h : Alike (ls.map Text.dropReturn) (ls.map Text.dropReturn)) :
    Alike (ls.map Text.dropReturn) (ls'.map Text.dropReturn) := by
  have hadd : List.Forall₂ Padded (ls.map Text.dropReturn) ls :=
    List.forall₂_map_left_iff.2 (List.forall₂_same.2 fun l _ => (padded_dropReturn l).1)
  have hdrop : List.Forall₂ Padded ls' (ls'.map Text.dropReturn) :=
    List.forall₂_map_right_iff.2 (List.forall₂_same.2 fun l _ => (padded_dropReturn l).2)
  exact ((h.spaces hadd).edits he).spaces hdrop

/-- The lines of a table on which a strict run ends well are chunks of four and blank lines. -/
theorem alikeLines_of_ok (hs : s.strictness = .strict) {table : List UInt8} (hok : (compile s table).Ok) :
    AlikeLines (Line.ofTable table) (Line.ofTable table) := by
  rw [ok_iff] at hok
  cases hv : s.validate with
  | error f =>
    rw [endingFault?_invalid hv] at hok
    cases hok
  | ok u =>
    rw [endingFault?_valid hv] at hok
    have hlenient := isLenient_of_strict hs
    exact alikeLines_of_answers (r := .ofSettings s (Line.ofTable table)) hlenient nofun _ (Nat.le_refl _) hok

theorem compile_alike (hs : s.strictness = .strict) {table table' : List UInt8} (hok : (compile s table).Ok)
    (h : AlikeLines (Line.ofTable table) (Line.ofTable table')) : compile s table' = compile s table := by
  have hlenient := isLenient_of_strict hs
  rw [ok_iff] at hok
  cases hv : s.validate with
  | error f =>
    rw [endingFault?_invalid hv] at hok
    cases hok
  | ok u =>
    rw [endingFault?_valid hv] at hok
    have hstep : InStep (.ofSettings s (Line.ofTable table)) (.ofSettings s (Line.ofTable table')) :=
      ⟨rfl, rfl, hlenient, hlenient, h⟩
    obtain ⟨hfault, harms⟩ := hstep.answers hlenient _ hok
    have hfault' : Run.fault? s (Run.answers s table') = none := hfault
    have harms' : Run.arms s (Run.answers s table') = Run.arms s (Run.answers s table) := harms
    rw [compile_eq, compile_eq, writtenArms_valid hv, writtenArms_valid hv, endingFault?_valid hv,
      endingFault?_valid hv, hfault', hok, harms']

end Layout

open Layout

/-- The layout of a table does not matter: a strict run that ends well over a table of ended lines is the
same run over every table that edits of the layout make of it. -/
theorem layout_compile {s : Settings} {table : List UInt8} (hs : s.strictness = .strict)
    (hended : table = [] ∨ table.getLast? = some 10) (hok : (compile s table).Ok) :
    (∃ ls, (∀ l ∈ ls, Text.IsLine l) ∧ table = tableOf ls) ∧
      ∀ ls ls', (∀ l ∈ ls, Text.IsLine l) → table = tableOf ls → Relation.ReflTransGen Edit ls ls' →
        compile s (tableOf ls') = compile s table := by
  obtain ⟨ts, ts', hts, hts', halike⟩ := alikeLines_of_ok hs hok
  refine ⟨exists_tableOf hended fun l hl => ?_, fun ls ls' hls htable he => ?_⟩
  · rw [hts] at hl
    obtain ⟨t, -, rfl⟩ := List.mem_map.1 hl
    exact ⟨t, rfl⟩
  · refine compile_alike hs hok ?_
    have hlines := List.map_injective_iff.2 (fun _ _ h => Line.text.inj h)
    rw [htable] at hts hts' ⊢
    obtain rfl := hlines (hts.symm.trans (ofTable_tableOf hls))
    obtain rfl := hlines (hts'.symm.trans (ofTable_tableOf hls))
    exact ⟨_, _, ofTable_tableOf hls, ofTable_tableOf (isLine_of_edits he hls), alike_edits he halike⟩

/-- The one record of a table in another layout. -/
theorem layout_of_load :
    let s : Settings := { reserved := Opcode.all.drop 1 }
    let ls := ["LD BC,d16", "3 12", "- - - -", ""]
    let ls' := ["\tld  BC ,\u00a0d16", "x 12 y", "?", "\r"]
    s.strictness = .strict ∧ (tableOf ls).getLast? = some 10 ∧ (compile s (tableOf ls)).Ok ∧
      Relation.ReflTransGen Edit ls ls' ∧ compile s (tableOf ls') = compile s (tableOf ls) := by
  intro s ls ls'
  have hok : (compile s (tableOf ls)).Ok := by
    rw [ok_iff]
    decide +kernel
  have hended : (tableOf ls).getLast? = some 10 := by decide
  have hnone : Gap "" := by decide
  have htab : Padded ("" ++ "LD BC,d16" ++ "") ("\t" ++ "LD BC,d16" ++ "") := .intro hnone (by decide) hnone hnone _
  have hreturn : Padded ("" ++ "" ++ "") ("" ++ "" ++ "\r") := .intro hnone hnone hnone (by decide) _
  have hsame : ∀ l, Padded l l := fun l => by simpa using Padded.intro hnone hnone hnone hnone l
  have hcase : HeadEdit ("\t" ++ "LD" ++ " BC,d16") ("\t" ++ "ld" ++ " BC,d16") :=
    .case (by decide) (by decide) (by decide) (by decide)
  have hgap : HeadEdit ("\t" ++ "ld" ++ (" " ++ "BC,d16")) ("\t" ++ "ld" ++ ("  " ++ "BC,d16")) :=
    .gap (by decide) (by decide) (by decide) (by decide) (by decide) (by decide) _
  have hcomma : HeadEdit ("\t" ++ "ld" ++ ("  " ++ ("BC" ++ "" ++ "," ++ ("" ++ "d16"))))
      ("\t" ++ "ld" ++ ("  " ++ ("BC" ++ " " ++ "," ++ ("\u00a0" ++ "d16")))) :=
    .comma (by decide) (by decide) (by decide) (by decide) (by decide) (by decide) (by decide) (by decide) _ _
  have hlabel : CyclesEdit ("" ++ "3" ++ " 12") ("" ++ "x" ++ " 12") :=
    .label hnone (by decide) (by decide) (by decide)
  have hmore : CyclesEdit ("x 12" ++ "") ("x 12" ++ " y") := .more (by decide) (by decide) (by decide) (by decide)
  have hedits : Relation.ReflTransGen Edit ls ls' := by
    refine .head (.spaces (.cons htab (.cons (hsame _) (.cons (hsame _) (.cons hreturn .nil))))) ?_
    refine .head (.head hcase _) (.head (.head hgap _) (.head (.head hcomma _) ?_))
    refine .head (.cycles (by decide) hlabel _) (.head (.cycles (by decide) hmore _) ?_)
    exact .single (.flags (by decide) (by decide) _ _ _)
  exact ⟨rfl, hended, hok, hedits,
    (layout_compile rfl (.inr hended) hok).2 ls ls' (by decide) rfl hedits⟩

end OpcodeDispatch
