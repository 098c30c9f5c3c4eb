import OpcodeDispatch.Proofs.OneLine

/-!
What a run writes and reports is exact: one line an opcode from the first one on, whatever the table
holds, and totals that count these lines. A strict run that ends well has a line for every opcode.
-/

namespace OpcodeDispatch

/-! ### How a run ends -/

namespace Run

variable {s : Settings} {R : OpcodeSet} {lenient : Bool} {ph : Phase} {as : List (Except Fault Entry)}

/-- A run over a table ends in a fault of the table or in a fault of one record. -/
theorem fault?_eq_some (h : Answers R lenient ph as) {f : Fault} (hf : fault? s as = some f) :
    f.breaksReading = true ∨ f.isLength = true ∨ f.isRecoverable = true := by
  induction h with
  | entry hs h ih =>
    rename_i op slot rest
    cases ha : Arm.orDiagnostic s ⟨op, slot⟩ with
    | ok a => exact ih (by rwa [fault?_ok rest ha] at hf)
    | error g =>
      rw [fault?_error rest ha] at hf
      cases hf
      exact .inr (.inr (Arm.orDiagnostic_blamed hs ha))
  | broken hb =>
    cases hf
    exact .inl hb
  | early hop line =>
    cases lenient with
    | true => cases hf
    | false =>
      cases hf
      exact .inr (.inl rfl)
  | late line =>
    cases lenient with
    | true => cases hf
    | false =>
      cases hf
      exact .inr (.inl rfl)
  | complete => cases hf

theorem complete_of_fault?_none (h : Answers R false ph as) (hf : fault? s as = none) :
    ph.index + (arms s as).length = 256 := by
  induction h with
  | entry hs h ih =>
    rename_i op slot rest
    cases ha : Arm.orDiagnostic s ⟨op, slot⟩ with
    | error g =>
      rw [fault?_error rest ha] at hf
      cases hf
    | ok a =>
      rw [fault?_ok rest ha] at hf
      have hrest := ih hf
      rw [Phase.index_after] at hrest
      rw [arms_ok rest ha, List.length_cons, Phase.index]
      omega
  | broken hb => cases hf
  | early hop line => cases hf
  | late line => cases hf
  | complete => rfl

end Run

variable {s : Settings} {table : List UInt8}

theorem endingFault?_ne_outOfOrder (expected got : Opcode) :
    endingFault? s table ≠ some (.outOfOrder expected got) := by
  intro h
  cases hv : s.validate with
  | error f =>
    rw [endingFault?_invalid hv] at h
    cases h
  | ok u =>
    rw [endingFault?_valid hv] at h
    rcases Run.fault?_eq_some (Run.answers_read s table) h with h | h | h <;> cases h

theorem length_writtenArms (hs : s.isLenient = false) (h : endingFault? s table = none) :
    (writtenArms s table).length = 256 := by
  cases hv : s.validate with
  | error f =>
    rw [endingFault?_invalid hv] at h
    cases h
  | ok u =>
    rw [endingFault?_valid hv] at h
    have hread := Run.answers_read s table
    rw [hs] at hread
    rw [writtenArms_valid hv, ← Run.complete_of_fault?_none hread h]
    exact (Nat.zero_add _).symm

/-! ### The arms below an opcode -/

section

variable {as : List Arm} (h : as.map (·.opcode.val) = List.range as.length)

include h

theorem opcode_of_getElem {i : Nat} {a : Arm} (ha : as[i]? = some a) : a.opcode.val = i := by
  have hi : (as.map (·.opcode.val))[i]? = some a.opcode.val := by rw [List.getElem?_map, ha]; rfl
  rw [h] at hi
  obtain ⟨hlt, hi⟩ := List.getElem?_eq_some_iff.1 hi
  exact hi.symm.trans (List.getElem_range hlt)

theorem length_le_of_opcodes : as.length ≤ 256 := by
  rcases List.eq_nil_or_concat as with rfl | ⟨init, a, rfl⟩
  · exact Nat.zero_le _
  · have ha := opcode_of_getElem h (i := init.length) (a := a) (by simp)
    have := a.opcode.isLt
    rw [List.length_concat]
    omega

/-- The opcodes of the arms are those below some bound. -/
theorem opcodes_eq_take : as.map (·.opcode) = Opcode.all.take as.length := by
  apply List.ext_getElem
  · have := length_le_of_opcodes h
    simp [Opcode.all]
    omega
  · intro i hi hi'
    rw [List.length_map] at hi
    apply Fin.ext
    rw [List.getElem_map, opcode_of_getElem h (List.getElem?_eq_getElem hi)]
    simp [Opcode.all]

theorem countP_below (p : Opcode → Bool) :
    (Opcode.all.countP fun op => p op && op.val < as.length) = as.countP (p ·.opcode) := by
  have htake : ∀ op ∈ Opcode.all.take as.length, op.val < as.length := by
    intro op hop
    obtain ⟨i, hi, rfl⟩ := List.mem_take_iff_getElem.1 hop
    simp [Opcode.all]
    omega
  have hdrop : ∀ op ∈ Opcode.all.drop as.length, as.length ≤ op.val := by
    intro op hop
    obtain ⟨i, hi, rfl⟩ := List.mem_drop_iff_getElem.1 hop
    simp [Opcode.all]
  calc (Opcode.all.countP fun op => p op && op.val < as.length)
      = ((Opcode.all.take as.length).countP fun op => p op && op.val < as.length) +
          (Opcode.all.drop as.length).countP fun op => p op && op.val < as.length := by
        rw [← List.countP_append, List.take_append_drop]
    _ = (Opcode.all.take as.length).countP p + 0 := by
        congr 1
        · exact List.countP_congr fun op hop => by simp [htake op hop]
        · exact List.countP_eq_zero.2 fun op hop => by simp [hdrop op hop]
    _ = as.countP (p ·.opcode) := by
        rw [← opcodes_eq_take h, List.countP_map]
        rfl

end

/-! ### Lines and totals -/

theorem length_eq_kinds (as : List Arm) : as.length =
    as.countP (·.kind = .code) + as.countP (·.kind = .undefined) + as.countP (·.kind = .diagnostic) := by
  induction as with
  | nil => rfl
  | cons a as ih =>
    rw [List.length_cons, List.countP_cons, List.countP_cons, List.countP_cons]
    cases a.kind <;> simp <;> omega

theorem kind_writtenArms {a : Arm} (ha : a ∈ writtenArms s table) :
    a.kind = .undefined ↔ a.opcode ∈ s.reserved := by
  obtain ⟨e, he⟩ := writtenArms_fit s table a ha
  rw [he.kind_undefined, Settings.reservedSet, OpcodeSet.mem_ofList]

theorem eq_undefined_of_reserved {a : Arm} (ha : a ∈ writtenArms s table) (hop : a.opcode ∈ s.reserved) :
    a = .undefined a.opcode := by
  obtain ⟨e, he⟩ := writtenArms_fit s table a ha
  exact he.eq_undefined (OpcodeSet.mem_ofList.2 hop)

/-- The two lower-case hexadecimal digits of a number below 256. -/
structure Numeral.TwoDigits (n : Nat) (high low : Char) : Prop where
  high : "0123456789abcdef".toList[n / 16]? = some high
  low : "0123456789abcdef".toList[n % 16]? = some low

theorem Numeral.getElem?_lowerHex {n : Nat} (h : n < 16) : "0123456789abcdef".toList[n]? = some n.digitChar :=
  (by decide : ∀ n : Fin 16, "0123456789abcdef".toList[n.val]? = some n.val.digitChar) ⟨n, h⟩

theorem Opcode.render_eq (op : Opcode) :
    ∃ high low, Numeral.TwoDigits op.val high low ∧ op.render = "0x" ++ String.ofList [high, low] := by
  have hop : op.val / 16 < 16 := by omega
  refine ⟨(op.val / 16).digitChar, (op.val % 16).digitChar, ⟨?_, ?_⟩, ?_⟩
  · exact Numeral.getElem?_lowerHex hop
  · exact Numeral.getElem?_lowerHex (Nat.mod_lt _ (by decide))
  · rw [Opcode.render, Numeral.hex]
    simp [Numeral.hexDigits, Nat.mod_eq_of_lt hop]

theorem render_framed (a : Arm) : ∃ high low body, Numeral.TwoDigits a.opcode.val high low ∧
    a.render = "0x" ++ String.ofList [high, low] ++ " => \x7b " ++ body ++ " \x7d," := by
  obtain ⟨high, low, hdigits, hop⟩ := a.opcode.render_eq
  refine ⟨high, low, String.join (a.statements.map (· ++ " ")) ++ Arm.renderBranch a.branch ++ a.cost, hdigits, ?_⟩
  simp only [Arm.render, hop, String.append_assoc]

theorem Arm.render_undefined (op : Opcode) : ∃ high low, Numeral.TwoDigits op.val high low ∧
    (undefined op).render =
      "0x" ++ String.ofList [high, low] ++ " => \x7b self.undefined_op(opcode); 1 \x7d," := by
  obtain ⟨high, low, hdigits, hop⟩ := op.render_eq
  refine ⟨high, low, hdigits, ?_⟩
  simp only [Arm.render, Arm.renderBranch, undefined, hop, String.append_assoc]
  rfl

theorem undefined_writtenArms : (writtenArms s table).countP (·.kind = .undefined) =
    Opcode.all.countP fun op => s.reserved.contains op && op.val < (writtenArms s table).length := by
  rw [countP_below (writtenArms_opcodes s table) s.reserved.contains]
  exact List.countP_congr fun a ha => by simp [kind_writtenArms ha]

theorem arm_of_line {i : Nat} {l : String} (h : (compile s table).lines[i]? = some l) :
    ∃ a ∈ writtenArms s table, a.opcode.val = i ∧ a.render = l := by
  rw [lines_compile, List.getElem?_map, Option.map_eq_some_iff] at h
  obtain ⟨a, ha, hl⟩ := h
  exact ⟨a, List.mem_of_getElem? ha, opcode_of_getElem (writtenArms_opcodes s table) ha, hl⟩

/-- An arm stands at the place of its opcode, and its line in the output too. -/
theorem line_of_arm {a : Arm} (ha : a ∈ writtenArms s table) :
    (writtenArms s table)[a.opcode.val]? = some a ∧ (compile s table).lines[a.opcode.val]? = some a.render := by
  obtain ⟨i, hi⟩ := List.mem_iff_getElem?.1 ha
  have hval : a.opcode.val = i := opcode_of_getElem (writtenArms_opcodes s table) hi
  rw [lines_compile, List.getElem?_map, hval, hi]
  exact ⟨rfl, rfl⟩

/-- In a strict run to the last opcode, all but the reserved ones have code. -/
theorem code_writtenArms (hs : s.isLenient = false) (hlength : (writtenArms s table).length = 256) :
    (writtenArms s table).countP (·.kind = .code) = 256 - Opcode.all.countP s.reserved.contains := by
  have hkinds := length_eq_kinds (writtenArms s table)
  have hdiagnostics := diagnostics_of_strict hs table
  have hundefined : (writtenArms s table).countP (·.kind = .undefined) =
      Opcode.all.countP s.reserved.contains := by
    rw [undefined_writtenArms, hlength]
    exact List.countP_congr fun op _ => by simp
  omega

/-- What is exact about a run, whatever the table holds. -/
structure Run.Exact (s : Settings) (table : List UInt8) (run : Run) : Prop where
  ordered : ∀ expected got, run.result ≠ .error (.outOfOrder expected got)
  /-- the output is its lines, each of them ended -/
  output : run.output = String.join (run.lines.map (· ++ "\n"))
  length_le : run.lines.length ≤ 256
  line : ∀ i l, run.lines[i]? = some l → '\n' ∉ l.toList ∧
    ∃ high low body, Numeral.TwoDigits i high low ∧
      l = "0x" ++ String.ofList [high, low] ++ " => \x7b " ++ body ++ " \x7d,"
  reserved : ∀ op ∈ s.reserved, ∀ l, run.lines[op.val]? = some l →
    ∃ high low, Numeral.TwoDigits op.val high low ∧
      l = "0x" ++ String.ofList [high, low] ++ " => \x7b self.undefined_op(opcode); 1 \x7d,"
  arms : run.lines = (writtenArms s table).map Arm.render
  kind : ∀ a ∈ writtenArms s table, a.kind = .undefined ↔ a.opcode ∈ s.reserved
  totals : ∀ summary, run.result = .ok summary → summary = Run.totals (writtenArms s table)
  summary : ∀ summary, run.result = .ok summary →
    summary.arms = run.lines.length ∧
    summary.arms = summary.code + summary.undefined + summary.diagnostics ∧
    summary.undefined = Opcode.all.countP (fun op => s.reserved.contains op && op.val < summary.arms) ∧
    (summary.complete = true ↔ summary.arms = 256)
  strict : s.strictness = .strict → ∀ summary, run.result = .ok summary →
    summary.arms = 256 ∧ summary.complete = true ∧ summary.diagnostics = 0 ∧
    summary.code = 256 - Opcode.all.countP s.reserved.contains

theorem exact_compile (s : Settings) (table : List UInt8) : Run.Exact s table (compile s table) where
  ordered expected got h := by
    rw [compile_eq, Run.result_ofArms_error] at h
    exact endingFault?_ne_outOfOrder expected got h
  output := by
    rw [lines_compile, List.map_map, compile_eq, Run.output_ofArms]
    rfl
  length_le := by
    rw [lines_compile, List.length_map]
    exact length_le_of_opcodes (writtenArms_opcodes s table)
  line i l hl := by
    obtain ⟨a, ha, rfl, rfl⟩ := arm_of_line hl
    exact ⟨isLine_writtenArms s table a ha, render_framed a⟩
  reserved op hop l hl := by
    obtain ⟨a, ha, hval, rfl⟩ := arm_of_line hl
    obtain rfl := Fin.ext hval
    rw [eq_undefined_of_reserved ha hop]
    exact Arm.render_undefined a.opcode
  arms := lines_compile s table
  kind a ha := kind_writtenArms ha
  totals summary hsummary := by
    rw [compile_eq, Run.result_ofArms_ok] at hsummary
    exact hsummary.2
  summary summary hsummary := by
    rw [compile_eq, Run.result_ofArms_ok] at hsummary
    obtain ⟨-, rfl⟩ := hsummary
    refine ⟨?_, length_eq_kinds _, undefined_writtenArms, decide_eq_true_iff⟩
    rw [lines_compile, List.length_map]
    rfl
  strict hstrict summary hsummary := by
    have hs : s.isLenient = false := by
      rw [Settings.isLenient, hstrict]
      rfl
    rw [compile_eq, Run.result_ofArms_ok] at hsummary
    obtain ⟨hnone, rfl⟩ := hsummary
    have hlength := length_writtenArms hs hnone
    exact ⟨hlength, decide_eq_true hlength, diagnostics_of_strict hs table, code_writtenArms hs hlength⟩

end OpcodeDispatch
