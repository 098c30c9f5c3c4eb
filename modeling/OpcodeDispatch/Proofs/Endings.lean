import OpcodeDispatch.Proofs.Exactness

/-!
How a run can end. Settings are judged first; then a fault of the table ends every run, and a fault
of one record or of the table's length only a strict one. A fault of the flags is none of a run's.
-/

namespace OpcodeDispatch

/-- The faults in which a lenient run can end. -/
def Fault.endsLenient : Fault → Bool
  | zeroTicks | unreadable .. | truncated .. | misaligned .. => true
  | _ => false

/-- The faults in which a strict run can end. -/
def Fault.endsStrict : Fault → Bool
  | endsEarly .. | trailing .. | badCycles .. | unsupportedOperand .. | missingOperand .. |
    badRestart .. => true
  | f => f.endsLenient

namespace Fault

variable {f : Fault}

theorem endsLenient_of_breaksReading (h : f.breaksReading = true) : f.endsLenient = true := by
  cases f with
  | unreadable | truncated | misaligned => rfl
  | _ => cases h

theorem endsStrict_of_breaksReading (h : f.breaksReading = true) : f.endsStrict = true := by
  cases f with
  | unreadable | truncated | misaligned => rfl
  | _ => cases h

theorem endsStrict_of_isLength (h : f.isLength = true) : f.endsStrict = true := by
  cases f with
  | endsEarly | trailing => rfl
  | _ => cases h

theorem endsStrict_of_isRecoverable (h : f.isRecoverable = true) : f.endsStrict = true := by
  cases f with
  | badCycles | unsupportedOperand | missingOperand | badRestart => rfl
  | _ => cases h

end Fault

variable {s : Settings} {table : List UInt8} {f : Fault}

theorem Arm.orDiagnostic_lenient {R : OpcodeSet} {op : Opcode} {slot : Slot} (hl : s.isLenient = true)
    (hs : TableReader.SlotRead R op slot) : ∃ a, orDiagnostic s ⟨op, slot⟩ = .ok a := by
  cases slot with
  | reserved => exact ⟨_, orDiagnostic_reserved s op⟩
  | record r =>
    cases hr : ofRecord s r with
    | ok a => exact ⟨a, orDiagnostic_ok hr⟩
    | error g =>
      rw [orDiagnostic_error hr (blamed_of_slotRead hs hr).1, if_pos hl]
      exact ⟨_, rfl⟩

/-- Every entry of a lenient run has its arm. -/
theorem Run.exists_arm_lenient {R : OpcodeSet} {ph : Phase} {as : List (Except Fault Entry)}
    (h : Answers R true ph as) (hl : s.isLenient = true) {e : Entry} (he : .ok e ∈ as) :
    ∃ a ∈ arms s as, Arm.orDiagnostic s e = .ok a := by
  induction h with
  | entry hs h ih =>
    obtain ⟨b, hb⟩ := Arm.orDiagnostic_lenient hl hs
    rw [arms_ok _ hb]
    rcases List.mem_cons.1 he with he | he
    · cases he
      exact ⟨b, List.mem_cons_self, hb⟩
    · obtain ⟨a, ha, hof⟩ := ih he
      exact ⟨a, List.mem_cons_of_mem _ ha, hof⟩
  | broken hb => simp at he
  | early hop line => cases he
  | late line => cases he
  | complete => cases he

/-- A lenient run ends only where the table cannot be read any further. -/
theorem Run.breaksReading_of_fault?_lenient {R : OpcodeSet} {ph : Phase} {as : List (Except Fault Entry)}
    (h : Answers R true ph as) (hl : s.isLenient = true) (hf : fault? s as = some f) :
    f.breaksReading = true := by
  induction h with
  | entry hs h ih =>
    obtain ⟨a, ha⟩ := Arm.orDiagnostic_lenient hl hs
    exact ih (by rwa [fault?_ok _ ha] at hf)
  | broken hb =>
    cases hf
    exact hb
  | early hop line => cases hf
  | late line => cases hf
  | complete => cases hf

theorem endsStrict_endingFault (h : endingFault? s table = some f) : f.endsStrict = true := by
  cases hv : s.validate with
  | error g =>
    rw [endingFault?_invalid hv] at h
    cases h
    rfl
  | ok u =>
    rw [endingFault?_valid hv] at h
    rcases Run.fault?_eq_some (Run.answers_read s table) h with hf | hf | hf
    · exact Fault.endsStrict_of_breaksReading hf
    · exact Fault.endsStrict_of_isLength hf
    · exact Fault.endsStrict_of_isRecoverable hf

theorem endsLenient_endingFault (hl : s.isLenient = true) (h : endingFault? s table = some f) :
    f.endsLenient = true := by
  cases hv : s.validate with
  | error g =>
    rw [endingFault?_invalid hv] at h
    cases h
    rfl
  | ok u =>
    rw [endingFault?_valid hv] at h
    have hread := Run.answers_read s table
    rw [hl] at hread
    exact Fault.endsLenient_of_breaksReading (Run.breaksReading_of_fault?_lenient hread hl h)

theorem endingFault?_zeroTicks : endingFault? s table = some .zeroTicks ↔ s.ticksPerCycle = 0 := by
  unfold endingFault? Settings.validate
  split
  · next hv =>
    split at hv
    · cases hv
    · next hticks =>
      refine iff_of_false (fun h => ?_) hticks
      rcases Run.fault?_eq_some (Run.answers_read s table) h with hf | hf | hf <;> cases hf
  · next hv =>
    split at hv
    · next hticks =>
      cases hv
      exact iff_of_true rfl hticks
    · cases hv

/-- What a run can end in, and what it comes from: a fault of one record is recoverable and names the
record's opcode, whatever the texts of the record. -/
structure Run.Endings (s : Settings) (run : Run) : Prop where
  lenient : s.strictness = .lenient → ∀ f, run.result = .error f → f.endsLenient = true
  strict : s.strictness = .strict → ∀ f, run.result = .error f → f.endsStrict = true
  badFlags : ∀ line, run.result ≠ .error (.badFlags line)
  outOfOrder : ∀ expected got, run.result ≠ .error (.outOfOrder expected got)
  zeroTicks : run.result = .error .zeroTicks ↔ s.ticksPerCycle = 0
  unwritten : s.ticksPerCycle = 0 → run.output = ""
  record : ∀ (r : Record) f, Arm.ofRecord s r = .error f →
    f.isRecoverable = true ∧ f.opcode? = some r.opcode

theorem endings_compile (s : Settings) (table : List UInt8) : Run.Endings s (compile s table) := by
  have hresult : ∀ {f}, (compile s table).result = .error f ↔ endingFault? s table = some f := by
    intro f
    rw [compile_eq, Run.result_ofArms_error]
  constructor
  case lenient =>
    intro hl f hf
    refine endsLenient_endingFault ?_ (hresult.1 hf)
    rw [Settings.isLenient, hl]
    rfl
  case strict => exact fun _ f hf => endsStrict_endingFault (hresult.1 hf)
  case badFlags =>
    intro line hf
    cases endsStrict_endingFault (hresult.1 hf)
  case outOfOrder =>
    intro expected got hf
    cases endsStrict_endingFault (hresult.1 hf)
  case zeroTicks => rw [hresult, endingFault?_zeroTicks]
  case unwritten =>
    intro hticks
    have hv : s.validate = .error .zeroTicks := by rw [Settings.validate, if_pos hticks]
    rw [compile_eq, writtenArms_invalid hv, Run.output_ofArms]
    rfl
  case record => exact fun r f hf => Arm.blamed_ofRecord s r f hf

end OpcodeDispatch
