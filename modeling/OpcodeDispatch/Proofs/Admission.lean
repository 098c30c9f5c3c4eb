import OpcodeDispatch.Proofs.Exactness

/-!
The writer over any sequence of calls, also after refusals. It holds the arms it has accepted, in the
order of the opcodes from the first one on. A call is accepted just if its arm is the next of these, and
a refused call changes nothing.
-/

namespace OpcodeDispatch
namespace ArmWriter

variable {w w' : ArmWriter} {a : Arm} {as held : List Arm} {f : Fault}

/-- One call: its refusal, if it is refused, and the writer with which the next call is made. -/
def call (w : ArmWriter) (a : Arm) : Option Fault × ArmWriter :=
  match w.write a with
  | .ok w' => (none, w')
  | .error f => (some f, w)

/-- The writer after some calls. -/
def calls (w : ArmWriter) : List Arm → ArmWriter
  | [] => w
  | a :: as => (w.call a).2.calls as

/-- The arms whose calls are accepted. -/
def accepted (w : ArmWriter) : List Arm → List Arm
  | [] => []
  | a :: as => (if (w.call a).1 = none then [a] else []) ++ (w.call a).2.accepted as

/-- The writer has written these arms, and each of them is the next after those before it. -/
structure Holds (w : ArmWriter) (as : List Arm) : Prop where
  output : w.output = String.join (as.map fun a => a.render ++ "\n")
  written : w.written = as.length
  expected : ∀ op : Opcode, w.expected = some op ↔ op.val = as.length
  ascending : as.map (·.opcode.val) = List.range as.length

/-! ### One call -/

theorem holds_empty : Holds empty [] where
  output := rfl
  written := rfl
  expected op := by
    rw [empty, Option.some.injEq, Fin.ext_iff, eq_comm]
    rfl
  ascending := rfl

theorem call_expected (h : w.expected = some a.opcode) :
    w.call a = (none, ⟨w.output ++ a.render ++ "\n", a.opcode.next?, w.written + 1⟩) := by
  rw [call, write_expected h]

theorem call_unexpected (h : w.expected ≠ some a.opcode) :
    w.call a = (some (.outOfOrder (w.expected.getD .last) a.opcode), w) := by
  rw [call, write_unexpected h]

section

variable (h : Holds w as)

include h

theorem Holds.length_le : as.length ≤ 256 := length_le_of_opcodes h.ascending

theorem Holds.expected_eq_none : w.expected = none ↔ as.length = 256 := by
  rw [Option.eq_none_iff_forall_ne_some]
  constructor
  · intro hnone
    refine Nat.le_antisymm h.length_le (Nat.le_of_not_lt fun hlt => ?_)
    exact hnone ⟨as.length, hlt⟩ ((h.expected _).2 rfl)
  · intro hlength op hop
    have hval := (h.expected op).1 hop
    omega

theorem Holds.isComplete : w.isComplete = true ↔ as.length = 256 := by
  rw [ArmWriter.isComplete, Option.isNone_iff_eq_none, h.expected_eq_none]

theorem Holds.getD_expected : (w.expected.getD .last).val = min as.length 255 := by
  cases hw : w.expected with
  | none =>
    rw [h.expected_eq_none.1 hw]
    rfl
  | some op =>
    have hval := (h.expected op).1 hw
    have hlt := op.isLt
    rw [Option.getD_some]
    omega

theorem Holds.accept (ha : a.opcode.val = as.length) : (w.call a).1 = none ∧ Holds (w.call a).2 (as ++ [a]) := by
  rw [call_expected ((h.expected a.opcode).2 ha)]
  refine ⟨rfl, ?_⟩
  constructor
  case output => simp [h.output, String.append_assoc]
  case written => simp [h.written]
  case expected =>
    intro op
    rw [Opcode.next?_eq_some, ha, List.length_append, List.length_singleton]
  case ascending => simp [h.ascending, ha, List.range_succ]

theorem Holds.refuse (ha : a.opcode.val ≠ as.length) :
    ∃ expected : Opcode, expected.val = min as.length 255 ∧ w.call a = (some (.outOfOrder expected a.opcode), w) :=
  ⟨_, h.getD_expected, call_unexpected fun hop => ha ((h.expected a.opcode).1 hop)⟩

theorem Holds.call_eq_none : (w.call a).1 = none ↔ a.opcode.val = as.length := by
  constructor
  · intro hnone
    apply Decidable.byContradiction
    intro ha
    obtain ⟨expected, -, hcall⟩ := h.refuse ha
    rw [hcall] at hnone
    cases hnone
  · exact fun ha => (h.accept ha).1

end

/-! ### Any calls -/

theorem Holds.calls (h : Holds w held) (as : List Arm) : Holds (w.calls as) (held ++ w.accepted as) := by
  induction as generalizing w held with
  | nil =>
    rw [accepted, List.append_nil]
    exact h
  | cons a as ih =>
    rw [ArmWriter.calls, accepted]
    by_cases ha : a.opcode.val = held.length
    · obtain ⟨hnone, hheld⟩ := h.accept ha
      rw [if_pos hnone, ← List.append_assoc]
      exact ih hheld
    · obtain ⟨expected, -, hcall⟩ := h.refuse ha
      rw [hcall, if_neg nofun, List.nil_append]
      exact ih h

theorem holds_calls (as : List Arm) : Holds (empty.calls as) (empty.accepted as) := holds_empty.calls as

/-- How the writer answers `a` after the calls `before`, some of which it may have refused. -/
structure Admits (before : List Arm) (a : Arm) : Prop where
  accepted : ((empty.calls before).call a).1 = none ↔
    (empty.accepted before).length < 256 ∧ a.opcode.val = (empty.accepted before).length
  refused : ∀ f, ((empty.calls before).call a).1 = some f →
    (∃ expected : Opcode, expected.val = min (empty.accepted before).length 255 ∧ f = .outOfOrder expected a.opcode) ∧
    ((empty.calls before).call a).2.output = (empty.calls before).output ∧
    ((empty.calls before).call a).2.written = (empty.calls before).written ∧
    ((empty.calls before).call a).2.isComplete = (empty.calls before).isComplete
  output : (empty.calls before).output = String.join ((empty.accepted before).map fun b => b.render ++ "\n")
  ascending : (empty.accepted before).map (·.opcode.val) = List.range (empty.accepted before).length
  written : (empty.calls before).written = (empty.accepted before).length
  complete : (empty.calls before).isComplete = true ↔ (empty.accepted before).length = 256

/-- The writer admits the arms in the order of the opcodes, and no other. -/
theorem admits_next (before : List Arm) (a : Arm) : Admits before a := by
  have h := holds_calls before
  constructor
  case accepted =>
    rw [h.call_eq_none, iff_and_self]
    intro ha
    have hlt := a.opcode.isLt
    omega
  case refused =>
    intro f hf
    have ha : a.opcode.val ≠ (empty.accepted before).length := by
      intro ha
      rw [(h.accept ha).1] at hf
      cases hf
    obtain ⟨expected, hexpected, hcall⟩ := h.refuse ha
    rw [hcall] at hf ⊢
    cases hf
    exact ⟨⟨expected, hexpected, rfl⟩, rfl, rfl, rfl⟩
  case output => exact h.output
  case ascending => exact h.ascending
  case written => exact h.written
  case complete => exact h.isComplete

example : (empty.call (.undefined 1)).1 = some (.outOfOrder 0 1) := by decide

end ArmWriter
end OpcodeDispatch
