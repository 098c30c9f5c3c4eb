import OpcodeDispatch.Proofs.OneLine

/-!
Strict and lenient runs of one table. Both make the same arms until the strict run stops. There the
lenient one stops too, with the same fault; or it ends well, when only the length of the table is
wrong; or it puts a diagnostic in the place of a record and goes on.
-/

namespace OpcodeDispatch

/-- How many opcodes have their entries before a fault of the table's length. -/
def Fault.reached : Fault → Nat
  | endsEarly op _ => op.val
  | _ => 256

namespace Run

open TableReader (counts)

/-- How a strict run stands to a lenient one, over the answers `as` of a strict reader. -/
inductive Compared (strict lenient : Settings) (ph : Phase) (as : List (Except Fault Entry)) : Prop
  | alike (harms : arms lenient (as.takeWhile counts) = arms strict as)
      (hfault : fault? lenient (as.takeWhile counts) = fault? strict as)
      (hf : ∀ f, fault? strict as = some f → f.breaksReading = true)
  | length {f : Fault} (hs : fault? strict as = some f) (hf : f.isLength = true)
      (harms : arms lenient (as.takeWhile counts) = arms strict as)
      (hl : fault? lenient (as.takeWhile counts) = none)
      (hn : ph.index + (arms strict as).length = f.reached)
  | diagnosed {op : Opcode} {r : Record} {f : Fault}
      (hs : fault? strict as = some f) (hf : f.isRecoverable = true) (hop : f.opcode? = some op)
      (hn : ph.index + (arms strict as).length = op.val)
      (hr : as[(arms strict as).length]? = some (.ok ⟨op, .record r⟩))
      (hrf : Arm.ofRecord strict r = .error f)
      (harms : ∃ rest, arms lenient (as.takeWhile counts) = arms strict as ++
        .diagnostic op f (Arm.diagnosticCost? strict ⟨op, .record r⟩) :: rest)

theorem Compared.cons {strict lenient : Settings} {op : Opcode} {slot : Slot} {a : Arm}
    {rest : List (Except Fault Entry)} (hS : Arm.orDiagnostic strict ⟨op, slot⟩ = .ok a)
    (hL : Arm.orDiagnostic lenient ⟨op, slot⟩ = .ok a) (h : Compared strict lenient (.after op) rest) :
    Compared strict lenient (.entry op) (.ok ⟨op, slot⟩ :: rest) := by
  have htake : (.ok ⟨op, slot⟩ :: rest : List (Except Fault Entry)).takeWhile counts =
      .ok ⟨op, slot⟩ :: rest.takeWhile counts := rfl
  have hindex : (Phase.entry op).index + 1 = (Phase.after op).index := (Phase.index_after op).symm
  have hlen : (arms strict (.ok ⟨op, slot⟩ :: rest)).length = (arms strict rest).length + 1 := by
    rw [arms_ok rest hS, List.length_cons]
  cases h with
  | alike harms hfault hf =>
    refine .alike ?_ ?_ ?_
    · rw [htake, arms_ok _ hL, arms_ok _ hS, harms]
    · rw [htake, fault?_ok _ hL, fault?_ok _ hS, hfault]
    · rw [fault?_ok _ hS]
      exact hf
  | length hs hf harms hl hn =>
    refine .length ((fault?_ok _ hS).trans hs) hf ?_ ?_ (by omega)
    · rw [htake, arms_ok _ hL, arms_ok _ hS, harms]
    · rw [htake, fault?_ok _ hL, hl]
  | diagnosed hs hf hop hn hr hrf harms =>
    obtain ⟨more, harms⟩ := harms
    refine .diagnosed ((fault?_ok _ hS).trans hs) hf hop (by omega) ?_ hrf ⟨more, ?_⟩
    · rw [hlen, List.getElem?_cons_succ]
      exact hr
    · rw [htake, arms_ok _ hL, arms_ok _ hS, harms, List.cons_append]

theorem compared {R : OpcodeSet} {ph : Phase} {as : List (Except Fault Entry)}
    (h : Answers R false ph as) (s : Settings) :
    Compared { s with strictness := .strict } { s with strictness := .lenient } ph as := by
  induction h with
  | entry hs h ih =>
    rename_i op slot rest
    cases slot with
    | reserved => exact ih.cons (Arm.orDiagnostic_reserved _ op) (Arm.orDiagnostic_reserved _ op)
    | record r =>
      cases hr : Arm.ofRecord s r with
      | ok a => exact ih.cons (Arm.orDiagnostic_ok hr) (Arm.orDiagnostic_ok hr)
      | error f =>
        obtain ⟨hf, hop⟩ := Arm.blamed_of_slotRead hs hr
        have hS : Arm.orDiagnostic { s with strictness := .strict } ⟨op, .record r⟩ = .error f :=
          Arm.orDiagnostic_error hr hf
        have hL : Arm.orDiagnostic { s with strictness := .lenient } ⟨op, .record r⟩ =
            .ok (.diagnostic op f (Arm.diagnosticCost? s ⟨op, .record r⟩)) :=
          Arm.orDiagnostic_error hr hf
        have harms := arms_error rest hS
        refine .diagnosed (fault?_error rest hS) hf hop ?_ ?_ hr
          ⟨arms { s with strictness := .lenient } (rest.takeWhile counts), ?_⟩
        · rw [harms]
          rfl
        · rw [harms]
          rfl
        · rw [harms]
          exact arms_ok _ hL
  | broken hf =>
    rename_i f
    have htake : [(.error f : Except Fault Entry)].takeWhile counts = [.error f] := by
      simp [counts, Fault.isLength_of_breaksReading hf]
    refine .alike ?_ ?_ ?_
    · rw [htake]
      rfl
    · rw [htake]
      rfl
    · intro g hg
      cases hg
      exact hf
  | early hop line => exact .length rfl rfl rfl rfl rfl
  | late line => exact .length rfl rfl rfl rfl rfl
  | complete => exact .alike rfl rfl fun f hf => by cases hf

end Run

/-! ### Whole runs -/

theorem Arm.render_diagnostic (op : Opcode) (f : Fault) (cost : Option String) :
    (Arm.diagnostic op f cost).render = op.render ++ " => \x7b compile_error!(" ++ Quoted.quote f.message ++
      "); " ++ cost.getD "0" ++ " \x7d," := by
  have hbody : String.join ((diagnostic op f cost).statements.map (· ++ " ")) =
      "compile_error!(" ++ Quoted.quote f.message ++ "); " := by
    simp [diagnostic, String.join, String.append_assoc]
  have hopen : " => \x7b compile_error!(" = " => \x7b " ++ "compile_error!(" := rfl
  rw [Arm.render, hbody, hopen]
  simp only [diagnostic, Arm.renderBranch, String.append_assoc, String.empty_append]

namespace Run

/-- What a lenient run makes of a table, in each way that the strict run can end. -/
structure Follows (s : Settings) (table : List UInt8) (strict lenient : Run) : Prop where
  extended : ∃ more, lenient.output = strict.output ++ more
  ok : ∀ summary, strict.result = .ok summary → lenient = strict
  early : ∀ op line, strict.result = .error (.endsEarly op line) → lenient.output = strict.output ∧
    ∃ summary, lenient.result = .ok summary ∧
      summary.arms = op.val ∧ summary.diagnostics = 0 ∧ summary.complete = false
  late : ∀ line, strict.result = .error (.trailing line) → lenient.output = strict.output ∧
    ∃ summary, lenient.result = .ok summary ∧
      summary.arms = 256 ∧ summary.diagnostics = 0 ∧ summary.complete = true
  broken : ∀ f, strict.result = .error f → f.breaksReading = true → lenient = strict
  /-- the strict run has written every arm before, and what follows is not said -/
  diagnosed : ∀ f, strict.result = .error f → f.isRecoverable = true → ∃ op r,
    f.opcode? = some op ∧
    (TableReader.ofTable table s.reservedSet false).all[op.val]? = some (.ok ⟨op, .record r⟩) ∧
    Arm.ofRecord s r = .error f ∧
    strict.lines.length = op.val ∧
    lenient.lines[op.val]? = some (op.render ++ " => \x7b compile_error!(" ++ Quoted.quote f.message ++
      "); " ++ (Arm.diagnosticCost? s ⟨op, .record r⟩).getD "0" ++ " \x7d,")

variable {s : Settings} {table : List UInt8} {strict lenient : Run}

theorem Follows.of_eq (h : lenient = strict)
    (hf : ∀ f, strict.result = .error f → f.isLength = false ∧ f.isRecoverable = false) :
    Follows s table strict lenient where
  extended := ⟨"", by rw [h, String.append_empty]⟩
  ok _ _ := h
  early op line hs := by cases (hf _ hs).1
  late line hs := by cases (hf _ hs).1
  broken _ _ _ := h
  diagnosed f hs hr := by
    rw [(hf f hs).2] at hr
    cases hr

theorem Follows.of_length {as : List Arm} {f : Fault} (hf : f.isLength = true) (hlen : as.length = f.reached)
    (hd : as.countP (·.kind = .diagnostic) = 0) :
    Follows s table (.ofArms as (some f)) (.ofArms as none) where
  extended := ⟨"", String.append_empty.symm⟩
  ok summary hs := by cases hs
  early op line hs := by
    cases hs
    have hop : as.length = op.val := hlen
    refine ⟨rfl, totals as, rfl, hop, hd, decide_eq_false ?_⟩
    omega
  late line hs := by
    cases hs
    exact ⟨rfl, totals as, rfl, hlen, hd, decide_eq_true hlen⟩
  broken g hs hg := by
    cases hs
    rw [Fault.breaksReading_of_isLength hf] at hg
    cases hg
  diagnosed g hs hg := by
    cases hs
    rw [Fault.isRecoverable_of_isLength hf] at hg
    cases hg

theorem Follows.of_diagnosed {as rest : List Arm} {op : Opcode} {r : Record} {f : Fault} {f? : Option Fault}
    (hf : f.isRecoverable = true) (hop : f.opcode? = some op)
    (hr : (TableReader.ofTable table s.reservedSet false).all[op.val]? = some (.ok ⟨op, .record r⟩))
    (hrf : Arm.ofRecord s r = .error f) (hlen : as.length = op.val)
    (hlines : ∀ a ∈ as ++ Arm.diagnostic op f (Arm.diagnosticCost? s ⟨op, .record r⟩) :: rest,
      Text.IsLine a.render) :
    Follows s table (.ofArms as (some f))
      (.ofArms (as ++ .diagnostic op f (Arm.diagnosticCost? s ⟨op, .record r⟩) :: rest) f?) where
  extended := by
    rw [output_ofArms, output_ofArms, List.map_append, String.join_append]
    exact ⟨_, rfl⟩
  ok summary hs := by cases hs
  early op line hs := by
    cases hs
    cases hf
  late line hs := by
    cases hs
    cases hf
  broken g hs hg := by
    cases hs
    rw [Fault.isRecoverable_of_breaksReading hg] at hf
    cases hf
  diagnosed g hs _ := by
    cases hs
    refine ⟨op, r, hop, hr, hrf, ?_, ?_⟩
    · rw [lines_ofArms fun a ha => hlines a (List.mem_append_left _ ha), List.length_map, hlen]
    · rw [lines_ofArms hlines, List.map_append, ← hlen, List.getElem?_append_right (by simp)]
      simp [Arm.render_diagnostic]

end Run

section

variable (s : Settings) (table : List UInt8)

theorem answers_lenient : Run.answers { s with strictness := .lenient } table =
    (Run.answers { s with strictness := .strict } table).takeWhile TableReader.counts :=
  TableReader.answers_lenient
    (TableReader.ofSettings { s with strictness := .strict } (Line.ofTable table)) rfl _

/-- A lenient run goes with the strict one of the same table up to where the strict one stops. A
fault of one record is where it goes on; in all else its output is the same. -/
theorem lenient_follows_strict : Run.Follows s table
    (compile { s with strictness := .strict } table) (compile { s with strictness := .lenient } table) := by
  have hd := diagnostics_of_strict (s := { s with strictness := .strict }) rfl table
  have hlines := isLine_writtenArms { s with strictness := .lenient } table
  rw [compile_eq, compile_eq]
  cases hv : s.validate with
  | error f =>
    have hvS : Settings.validate { s with strictness := .strict } = .error f := hv
    have hvL : Settings.validate { s with strictness := .lenient } = .error f := hv
    rw [writtenArms_invalid hvS, writtenArms_invalid hvL, endingFault?_invalid hvS, endingFault?_invalid hvL]
    refine .of_eq rfl fun g hg => ?_
    cases hg
    exact ⟨rfl, rfl⟩
  | ok u =>
    have hvS : Settings.validate { s with strictness := .strict } = .ok () := hv
    have hvL : Settings.validate { s with strictness := .lenient } = .ok () := hv
    rw [writtenArms_valid hvS] at hd ⊢
    rw [writtenArms_valid hvL, answers_lenient] at hlines ⊢
    rw [endingFault?_valid hvS, endingFault?_valid hvL, answers_lenient]
    cases Run.compared (Run.answers_read { s with strictness := .strict } table) s with
    | alike harms hfault hf =>
      rw [harms, hfault]
      refine .of_eq rfl fun f hs => ?_
      have hbreaks := hf f (Run.result_ofArms_error.1 hs)
      exact ⟨Fault.isLength_of_breaksReading hbreaks, Fault.isRecoverable_of_breaksReading hbreaks⟩
    | length hs hf harms hl hn =>
      rw [hs, harms, hl]
      exact .of_length hf ((Nat.zero_add _).symm.trans hn) hd
    | diagnosed hs hf hop hn hr hrf harms =>
      obtain ⟨rest, harms⟩ := harms
      have hlen := (Nat.zero_add _).symm.trans hn
      rw [harms] at hlines
      rw [hs, harms]
      rw [hlen] at hr
      exact .of_diagnosed hf hop hr hrf hlen hlines

end
end OpcodeDispatch
