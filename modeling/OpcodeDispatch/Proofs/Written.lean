import OpcodeDispatch.Proofs.Reading
import OpcodeDispatch.Run

/-!
What a run writes, in closed form. The answers of a reader come in the order of the opcodes, so
the writer refuses no arm, and a run is its arms, written one after the other, and its fault.
-/

namespace OpcodeDispatch

/-! ### The arm of an entry -/

namespace Arm

variable {s : Settings} {r : Record} {a : Arm} {f : Fault} {e : Entry} {op : Opcode}

theorem ofRecord_eq_ok (h : ofRecord s r = .ok a) :
    ∃ o cost, Operation.ofRecord r = .ok o ∧
      renderCost s r (o.code s.highMemoryBase).branch.isSome = .ok cost ∧
      a = ⟨r.opcode, .code, (o.code s.highMemoryBase).statements, (o.code s.highMemoryBase).branch, cost⟩ := by
  obtain ⟨o, ho, h⟩ := bind_eq_ok h
  obtain ⟨cost, hcost, h⟩ := bind_eq_ok h
  cases h
  exact ⟨o, cost, ho, hcost, rfl⟩

theorem renderCost_eq (s : Settings) (r : Record) (branch : Bool) :
    renderCost s r branch = r.cost.map fun c => costText s.costStyle branch (c.scaleDown s.divisor) := by
  unfold renderCost
  cases r.cost <;> rfl

theorem ofRecord_cost (h : ofRecord s r = .ok a) : ∃ ticks, CycleCost.parse? r.cycleToken = some ticks ∧
    a.cost = costText s.costStyle a.branch.isSome (ticks.scaleDown s.divisor) := by
  obtain ⟨o, cost, -, hcost, rfl⟩ := ofRecord_eq_ok h
  obtain ⟨ticks, hticks, hcost⟩ := bind_eq_ok hcost
  cases hcost
  unfold Record.cost at hticks
  split at hticks
  · next hparse =>
    cases hticks
    exact ⟨ticks, hparse, rfl⟩
  · cases hticks

/-- All that an arm can be, for an entry that a reader gives. -/
inductive Fits (s : Settings) (R : OpcodeSet) (op : Opcode) : Entry → Arm → Prop
  | undefined (h : op ∈ R) : Fits s R op ⟨op, .reserved⟩ (.undefined op)
  | code {r : Record} {a : Arm} (hr : TableReader.SlotRead R op (.record r))
      (ha : ofRecord s r = .ok a) : Fits s R op ⟨op, .record r⟩ a
  | diagnostic {r : Record} {f : Fault} (hr : TableReader.SlotRead R op (.record r))
      (hf : ofRecord s r = .error f) (hl : s.isLenient = true) :
      Fits s R op ⟨op, .record r⟩ (.diagnostic op f (diagnosticCost? s ⟨op, .record r⟩))

theorem blamed_of_slotRead {R : OpcodeSet} (hr : TableReader.SlotRead R op (.record r))
    (hf : ofRecord s r = .error f) : f.isRecoverable = true ∧ f.opcode? = some op := by
  cases hr with
  | record h line head cycles flags => exact blamed_ofRecord s _ f hf

theorem orDiagnostic_reserved (s : Settings) (op : Opcode) :
    orDiagnostic s ⟨op, .reserved⟩ = .ok (undefined op) := rfl

theorem orDiagnostic_ok (h : ofRecord s r = .ok a) : orDiagnostic s ⟨op, .record r⟩ = .ok a := by
  simp only [orDiagnostic, ofEntry, h]

theorem orDiagnostic_error (h : ofRecord s r = .error f) (hf : f.isRecoverable = true) :
    orDiagnostic s ⟨op, .record r⟩ =
      if s.isLenient then .ok (diagnostic op f (diagnosticCost? s ⟨op, .record r⟩)) else .error f := by
  simp only [orDiagnostic, ofEntry, h, hf, Bool.and_true]

theorem orDiagnostic_blamed {R : OpcodeSet} {slot : Slot} (hs : TableReader.SlotRead R op slot)
    (h : orDiagnostic s ⟨op, slot⟩ = .error f) : f.isRecoverable = true := by
  cases slot with
  | reserved => cases h
  | record r =>
    cases hr : ofRecord s r with
    | ok a =>
      rw [orDiagnostic_ok hr] at h
      cases h
    | error g =>
      have hg := (blamed_of_slotRead hs hr).1
      rw [orDiagnostic_error hr hg] at h
      split at h <;> cases h
      exact hg

theorem orDiagnostic_fits {R : OpcodeSet} {slot : Slot} (hs : TableReader.SlotRead R op slot)
    (h : orDiagnostic s ⟨op, slot⟩ = .ok a) : Fits s R op ⟨op, slot⟩ a := by
  cases slot with
  | reserved =>
    cases hs with
    | reserved hop =>
      cases h
      exact .undefined hop
  | record r =>
    cases hr : ofRecord s r with
    | ok b =>
      rw [orDiagnostic_ok hr] at h
      cases h
      exact .code hs hr
    | error f =>
      rw [orDiagnostic_error hr (blamed_of_slotRead hs hr).1] at h
      split at h
      · next hl =>
        cases h
        exact .diagnostic hs hr hl
      · cases h

theorem Fits.opcode {R : OpcodeSet} (h : Fits s R op e a) : a.opcode = op := by
  cases h with
  | undefined h => rfl
  | code hr ha =>
    obtain ⟨o, cost, -, -, rfl⟩ := ofRecord_eq_ok ha
    cases hr with
    | record h line head cycles flags => rfl
  | diagnostic hr hf hl => rfl

theorem Fits.kind_undefined {R : OpcodeSet} (h : Fits s R op e a) : a.kind = .undefined ↔ op ∈ R := by
  cases h with
  | undefined h => exact ⟨fun _ => h, fun _ => rfl⟩
  | code hr ha =>
    obtain ⟨o, cost, -, -, rfl⟩ := ofRecord_eq_ok ha
    exact ⟨(nomatch ·), fun hop => absurd hop hr.not_mem⟩
  | diagnostic hr hf hl => exact ⟨(nomatch ·), fun hop => absurd hop hr.not_mem⟩

theorem Fits.eq_undefined {R : OpcodeSet} (h : Fits s R op e a) (hop : op ∈ R) : a = .undefined op := by
  cases h with
  | undefined h => rfl
  | code hr ha => exact absurd hop hr.not_mem
  | diagnostic hr hf hl => exact absurd hop hr.not_mem

theorem Fits.kind_diagnostic {R : OpcodeSet} (h : Fits s R op e a) (hk : a.kind = .diagnostic) :
    s.isLenient = true := by
  cases h with
  | undefined h => cases hk
  | code hr ha =>
    obtain ⟨o, cost, -, -, rfl⟩ := ofRecord_eq_ok ha
    cases hk
  | diagnostic hr hf hl => exact hl

end Arm

/-! ### Progress through arms in order -/

namespace Progress

/-- Writes an arm that is expected. -/
def push (p : Progress) (a : Arm) : Progress :=
  { p.count a.kind with writer := ⟨p.writer.output ++ a.render ++ "\n", a.opcode.next?, p.writer.written + 1⟩ }

theorem write_eq_push {p : Progress} {a : Arm} (h : p.writer.expected = some a.opcode) :
    p.write a = .ok (p.push a) := by
  rw [write, ArmWriter.write_expected h]
  rfl

/-- How many arms of a kind are written. -/
def tally (p : Progress) : ArmKind → Nat
  | .code => p.code
  | .undefined => p.undefined
  | .diagnostic => p.diagnostics

theorem tally_push (p : Progress) (a : Arm) (k : ArmKind) :
    (p.push a).tally k = p.tally k + if a.kind = k then 1 else 0 := by
  cases h : a.kind <;> cases k <;> simp [push, count, tally, h]

variable (p : Progress) (as : List Arm)

theorem output_pushAll : (as.foldl push p).writer.output =
    p.writer.output ++ String.join (as.map fun a => a.render ++ "\n") := by
  induction as generalizing p with
  | nil => simp
  | cons a as ih =>
    rw [List.foldl_cons, ih]
    simp [push, String.append_assoc]

theorem written_pushAll : (as.foldl push p).writer.written = p.writer.written + as.length := by
  induction as generalizing p with
  | nil => rfl
  | cons a as ih =>
    rw [List.foldl_cons, ih, List.length_cons]
    simp only [push]
    omega

theorem tally_pushAll (k : ArmKind) :
    (as.foldl push p).tally k = p.tally k + as.countP (·.kind = k) := by
  induction as generalizing p with
  | nil => rfl
  | cons a as ih =>
    rw [List.foldl_cons, ih, tally_push, List.countP_cons]
    simp only [decide_eq_true_eq]
    omega

end Progress

namespace Run

/-- The arms of the answers before the first fault. -/
def arms (s : Settings) : List (Except Fault Entry) → List Arm
  | [] => []
  | answer :: rest =>
    match answer >>= Arm.orDiagnostic s with
    | .ok a => a :: arms s rest
    | .error _ => []

/-- The first fault of the answers, or of the arms made from them. -/
def fault? (s : Settings) : List (Except Fault Entry) → Option Fault
  | [] => none
  | answer :: rest =>
    match answer >>= Arm.orDiagnostic s with
    | .ok _ => fault? s rest
    | .error f => some f

/-- The run that writes some arms and ends in a fault, if there is one. -/
def ofProgress (p : Progress) : Option Fault → Run
  | none => ⟨p.writer.output, .ok p.summary⟩
  | some f => ⟨p.writer.output, .error f⟩

section

variable {s : Settings} {e : Entry} {a : Arm} {f : Fault} (rest : List (Except Fault Entry))

theorem arms_ok (h : Arm.orDiagnostic s e = .ok a) : arms s (.ok e :: rest) = a :: arms s rest := by
  simp only [arms, bind, Except.bind, h]

theorem arms_error (h : Arm.orDiagnostic s e = .error f) : arms s (.ok e :: rest) = [] := by
  simp only [arms, bind, Except.bind, h]

theorem fault?_ok (h : Arm.orDiagnostic s e = .ok a) : fault? s (.ok e :: rest) = fault? s rest := by
  simp only [fault?, bind, Except.bind, h]

theorem fault?_error (h : Arm.orDiagnostic s e = .error f) : fault? s (.ok e :: rest) = some f := by
  simp only [fault?, bind, Except.bind, h]

end

/-- The first fault is that of the answer after those that have arms. -/
theorem fault?_at {s : Settings} {as : List (Except Fault Entry)} {f : Fault} (h : fault? s as = some f) :
    ∃ answer, as[(arms s as).length]? = some answer ∧ answer >>= Arm.orDiagnostic s = .error f := by
  induction as with
  | nil => cases h
  | cons answer rest ih =>
    rw [fault?] at h
    rw [arms]
    cases ha : answer >>= Arm.orDiagnostic s with
    | ok a =>
      rw [ha] at h
      exact ih h
    | error g =>
      rw [ha] at h
      cases h
      exact ⟨answer, rfl, ha⟩

theorem ofAnswers_eq {R : OpcodeSet} {lenient : Bool} {ph : Phase} {as : List (Except Fault Entry)}
    (h : Answers R lenient ph as) (s : Settings) (p : Progress) (hp : p.writer.expected = ph.opcode?) :
    ofAnswers s p as = ofProgress ((arms s as).foldl Progress.push p) (fault? s as) := by
  induction h generalizing p with
  | entry hs h ih =>
    rename_i op slot rest
    rw [ofAnswers]
    cases ha : Arm.orDiagnostic s ⟨op, slot⟩ with
    | error f =>
      rw [arms_error rest ha, fault?_error rest ha]
      simp only [bind, Except.bind, ha]
      rfl
    | ok a =>
      have hop : a.opcode = op := (Arm.orDiagnostic_fits hs ha).opcode
      have hw : p.write a = .ok (p.push a) := Progress.write_eq_push (by rw [hp, hop]; rfl)
      rw [arms_ok rest ha, fault?_ok rest ha, List.foldl_cons]
      simp only [bind, Except.bind, ha, hw]
      exact ih (p.push a) (by rw [Phase.opcode?_after, ← hop]; rfl)
  | broken hf => rfl
  | early hop line => cases lenient <;> rfl
  | late line => cases lenient <;> rfl
  | complete => rfl

/-- Arms from a phase on: every opcode has one, up to some opcode. -/
inductive Ordered (s : Settings) (R : OpcodeSet) : Phase → List Arm → Prop
  | nil {ph : Phase} : Ordered s R ph []
  | cons {op : Opcode} {e : Entry} {a : Arm} {as : List Arm} (ha : Arm.Fits s R op e a)
      (h : Ordered s R (.after op) as) : Ordered s R (.entry op) (a :: as)

theorem arms_ordered {R : OpcodeSet} {lenient : Bool} {ph : Phase} {as : List (Except Fault Entry)}
    (h : Answers R lenient ph as) (s : Settings) : Ordered s R ph (arms s as) := by
  induction h with
  | entry hs h ih =>
    rename_i op slot rest
    cases ha : Arm.orDiagnostic s ⟨op, slot⟩ with
    | error f =>
      rw [arms_error rest ha]
      exact .nil
    | ok a =>
      rw [arms_ok rest ha]
      exact .cons (Arm.orDiagnostic_fits hs ha) ih
  | broken hf => exact .nil
  | early hop line => cases lenient <;> exact .nil
  | late line => cases lenient <;> exact .nil
  | complete => exact .nil

section

variable {s : Settings} {R : OpcodeSet} {ph : Phase} {as : List Arm} (h : Ordered s R ph as)

include h

theorem Ordered.fit : ∀ a ∈ as, ∃ e, Arm.Fits s R a.opcode e a := by
  induction h with
  | nil => simp
  | cons ha h ih =>
    rename_i op e a as
    intro b hb
    rcases List.mem_cons.1 hb with rfl | hb
    · rw [ha.opcode]
      exact ⟨e, ha⟩
    · exact ih b hb

theorem Ordered.opcodes : as.map (·.opcode.val) = List.range' ph.index as.length := by
  induction h with
  | nil => rfl
  | cons ha h ih =>
    rw [List.map_cons, ih, Phase.index_after, List.length_cons, List.range'_succ, ha.opcode]
    rfl

end

/-- What the reader of a run gives. -/
def answers (s : Settings) (table : List UInt8) : List (Except Fault Entry) :=
  (TableReader.ofSettings s (Line.ofTable table)).all

theorem answers_read (s : Settings) (table : List UInt8) :
    Answers s.reservedSet s.isLenient (.entry .first) (answers s table) :=
  TableReader.all_read _ _ _

end Run

/-! ### The whole of a run -/

/-- The arms that a run over a table writes. -/
def writtenArms (s : Settings) (table : List UInt8) : List Arm :=
  match s.validate with
  | .ok () => Run.arms s (Run.answers s table)
  | .error _ => []

/-- The fault that ends a run over a table. -/
def endingFault? (s : Settings) (table : List UInt8) : Option Fault :=
  match s.validate with
  | .ok () => Run.fault? s (Run.answers s table)
  | .error f => some f

namespace Run

/-- The totals of arms that are written from the first opcode on. -/
def totals (as : List Arm) : Summary :=
  ⟨as.length, as.countP (·.kind = .code), as.countP (·.kind = .undefined),
    as.countP (·.kind = .diagnostic), as.length = 256⟩

def ofArms (as : List Arm) : Option Fault → Run
  | none => ⟨String.join (as.map fun a => a.render ++ "\n"), .ok (totals as)⟩
  | some f => ⟨String.join (as.map fun a => a.render ++ "\n"), .error f⟩

section

variable {as : List Arm} {f? : Option Fault}

theorem output_ofArms : (ofArms as f?).output = String.join (as.map fun a => a.render ++ "\n") := by
  cases f? <;> rfl

theorem result_ofArms_ok {summary : Summary} :
    (ofArms as f?).result = .ok summary ↔ f? = none ∧ summary = totals as := by
  cases f? <;> simp [ofArms, eq_comm]

theorem result_ofArms_error {f : Fault} : (ofArms as f?).result = .error f ↔ f? = some f := by
  cases f? <;> simp [ofArms]

end

end Run

theorem writtenArms_fit (s : Settings) (table : List UInt8) :
    ∀ a ∈ writtenArms s table, ∃ e, Arm.Fits s s.reservedSet a.opcode e a := by
  unfold writtenArms
  split
  · exact (Run.arms_ordered (Run.answers_read s table) s).fit
  · simp

theorem eq_zeroTicks_of_validate {s : Settings} {f : Fault} (h : s.validate = .error f) : f = .zeroTicks := by
  unfold Settings.validate at h
  split at h <;> cases h
  rfl

theorem writtenArms_invalid {s : Settings} {f : Fault} (h : s.validate = .error f) (table : List UInt8) :
    writtenArms s table = [] := by
  rw [writtenArms, h]

theorem endingFault?_invalid {s : Settings} {f : Fault} (h : s.validate = .error f) (table : List UInt8) :
    endingFault? s table = some .zeroTicks := by
  rw [endingFault?, h, eq_zeroTicks_of_validate h]

theorem writtenArms_valid {s : Settings} (h : s.validate = .ok ()) (table : List UInt8) :
    writtenArms s table = Run.arms s (Run.answers s table) := by
  rw [writtenArms, h]

theorem endingFault?_valid {s : Settings} (h : s.validate = .ok ()) (table : List UInt8) :
    endingFault? s table = Run.fault? s (Run.answers s table) := by
  rw [endingFault?, h]

/-- A strict run writes no diagnostic. -/
theorem diagnostics_of_strict {s : Settings} (h : s.isLenient = false) (table : List UInt8) :
    (writtenArms s table).countP (·.kind = .diagnostic) = 0 := by
  rw [List.countP_eq_zero]
  intro a ha hk
  obtain ⟨e, he⟩ := writtenArms_fit s table a ha
  have hl := he.kind_diagnostic (of_decide_eq_true hk)
  rw [h] at hl
  cases hl

theorem writtenArms_opcodes (s : Settings) (table : List UInt8) :
    (writtenArms s table).map (·.opcode.val) = List.range (writtenArms s table).length := by
  unfold writtenArms
  split
  · rw [List.range_eq_range']
    exact (Run.arms_ordered (Run.answers_read s table) s).opcodes
  · rfl

namespace Progress

variable {as : List Arm}

theorem isComplete_pushAll (h : as.map (·.opcode.val) = List.range as.length) :
    (as.foldl push .start).writer.isComplete = decide (as.length = 256) := by
  rcases List.eq_nil_or_concat as with rfl | ⟨init, a, rfl⟩
  · rfl
  · rw [List.concat_eq_append] at h ⊢
    have hop : a.opcode.val = init.length := by
      rw [List.map_append, List.length_append, List.length_singleton, List.range_succ] at h
      simpa using (List.append_inj' h rfl).2
    rw [List.foldl_append, List.foldl_cons, List.foldl_nil, ArmWriter.isComplete, push]
    rw [Bool.eq_iff_iff, Option.isNone_iff_eq_none, Opcode.next?_eq_none, decide_eq_true_eq,
      List.length_append, List.length_singleton, Fin.ext_iff, hop]
    exact Nat.succ_inj.symm

theorem summary_pushAll (h : as.map (·.opcode.val) = List.range as.length) :
    (as.foldl push .start).summary = Run.totals as := by
  have hcode := tally_pushAll .start as .code
  have hundefined := tally_pushAll .start as .undefined
  have hdiagnostics := tally_pushAll .start as .diagnostic
  simp only [tally, start, Nat.zero_add] at hcode hundefined hdiagnostics
  have hwritten := written_pushAll .start as
  simp only [start, ArmWriter.empty, Nat.zero_add] at hwritten
  have hcomplete := isComplete_pushAll h
  simp only [start] at hcomplete
  simp only [summary, Run.totals, start, hcode, hundefined, hdiagnostics, hcomplete]
  exact congrArg (Summary.mk · _ _ _ _) hwritten

end Progress

/-- A run is its arms, in order, and its fault. -/
theorem compile_eq (s : Settings) (table : List UInt8) :
    compile s table = .ofArms (writtenArms s table) (endingFault? s table) := by
  have hops := writtenArms_opcodes s table
  unfold compile Run.ofLines writtenArms endingFault? at *
  cases hv : s.validate with
  | error f => rfl
  | ok u =>
    simp only [hv] at hops
    have houtput := Progress.output_pushAll .start (Run.arms s (Run.answers s table))
    rw [Progress.start, ArmWriter.empty, String.empty_append] at houtput
    refine (Run.ofAnswers_eq (Run.answers_read s table) s .start rfl).trans ?_
    cases hf : Run.fault? s (Run.answers s table) with
    | none =>
      rw [Run.ofProgress, Run.ofArms, Progress.summary_pushAll hops]
      exact congrArg (Run.mk · _) houtput
    | some f => exact congrArg (Run.mk · _) houtput

end OpcodeDispatch
