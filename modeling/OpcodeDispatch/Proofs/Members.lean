import Mathlib.Data.Finset.Card
import OpcodeDispatch.Run

/-!
Sets of opcodes by their members. After any insertions a set has just the opcodes that were put into it;
what is listed and counted of it is what its bits say, and nothing but the members tells two sets apart.
So a run depends on which opcodes are reserved, and not on how they are listed.
-/

namespace OpcodeDispatch
namespace OpcodeSet

variable {s : OpcodeSet} {op : Opcode} {ops : List Opcode}

/-- The members of the set are the opcodes of the list. -/
def Holds (s : OpcodeSet) (ops : List Opcode) : Prop := ∀ op, op ∈ s ↔ op ∈ ops

/-! ### Insertions -/

theorem mem_insert {op' : Opcode} : op' ∈ s.insert op ↔ op' ∈ s ∨ op' = op := by
  rw [mem_iff, contains_insert, Bool.or_eq_true, decide_eq_true_eq, mem_iff, @eq_comm _ op]

theorem holds_ofList (ops : List Opcode) : (ofList ops).Holds ops := fun _ => mem_ofList

theorem Holds.insert (h : s.Holds ops) (op : Opcode) : (s.insert op).Holds (ops ++ [op]) := by
  intro op'
  rw [mem_insert, h op', List.mem_append, List.mem_singleton]

theorem Holds.foldl (h : s.Holds ops) (inserted : List Opcode) :
    (inserted.foldl OpcodeSet.insert s).Holds (ops ++ inserted) := by
  induction inserted generalizing s ops with
  | nil => rwa [List.append_nil]
  | cons op inserted ih =>
    rw [List.foldl_cons, List.append_cons]
    exact ih (h.insert op)

/-! ### Listing and counting -/

theorem ascending_toList (s : OpcodeSet) : s.toList.Pairwise (· < ·) := (List.pairwise_lt_finRange 256).filter _

theorem nodup_toList (s : OpcodeSet) : s.toList.Nodup := (ascending_toList s).imp Fin.ne_of_lt

theorem cpopNatRec_eq_countP {w : Nat} (x : BitVec w) (n : Nat) :
    x.cpopNatRec n 0 = (List.range n).countP x.getLsbD := by
  induction n with
  | zero => rfl
  | succ n ih =>
    rw [BitVec.cpopNatRec_succ, BitVec.cpopNatRec_add, ih, List.range_succ, List.countP_append,
      List.countP_singleton]
    cases x.getLsbD n <;> rfl

/-- A set has as many members as bits that are set. -/
theorem size_eq_cpop (s : OpcodeSet) : s.size = s.bits.cpop.toNat := by
  rw [BitVec.toNat_cpop, cpopNatRec_eq_countP, ← List.map_coe_finRange_eq_range, List.countP_map,
    List.countP_eq_length_filter]
  rfl

theorem isEmpty_iff : s.isEmpty = true ↔ ∀ op, op ∉ s := by
  have hempty : s.isEmpty = true ↔ s = empty := by
    cases s
    simp [isEmpty, empty]
  have hnone : ∀ op, op ∉ empty := fun op => by simp [mem_iff, contains_empty]
  rw [hempty]
  constructor
  · rintro rfl
    exact hnone
  · intro h
    ext op
    exact iff_of_false (h op) (hnone op)

theorem Holds.size (h : s.Holds ops) : s.size = ops.toFinset.card := by
  have hmembers : s.toList.toFinset = ops.toFinset := by
    ext op
    rw [List.mem_toFinset, List.mem_toFinset, mem_toList, h op]
  rw [OpcodeSet.size, ← hmembers, List.toFinset_card_of_nodup (nodup_toList s)]

theorem Holds.isEmpty (h : s.Holds ops) : s.isEmpty = true ↔ ops = [] := by
  rw [isEmpty_iff, List.eq_nil_iff_forall_not_mem]
  exact forall_congr' fun op => not_congr (h op)

end OpcodeSet

/-! ### Settings that list the same opcodes -/

/-- The settings reserve the same opcodes, perhaps in another order or more than once, and agree otherwise. -/
structure Settings.Relisted (s s' : Settings) : Prop where
  members : ∀ op, op ∈ s.reserved ↔ op ∈ s'.reserved
  others : s' = { s with reserved := s'.reserved }

theorem Settings.Relisted.reservedSet {s s' : Settings} (h : s.Relisted s') : s.reservedSet = s'.reservedSet := by
  ext op
  rw [Settings.reservedSet, Settings.reservedSet, OpcodeSet.mem_ofList, OpcodeSet.mem_ofList, h.members op]

/-- No arm depends on the list of the reserved opcodes. -/
theorem Run.ofAnswers_relisted (s : Settings) (reserved : List Opcode) (p : Progress)
    (answers : List (Except Fault Entry)) :
    ofAnswers { s with reserved := reserved } p answers = ofAnswers s p answers := by
  have harm : Arm.orDiagnostic { s with reserved := reserved } = Arm.orDiagnostic s := rfl
  induction answers generalizing p with
  | nil => rfl
  | cons answer rest ih =>
    rw [ofAnswers, ofAnswers, harm]
    cases answer >>= Arm.orDiagnostic s >>= p.write with
    | ok p' => exact ih p'
    | error f => rfl

theorem Settings.Relisted.compile_eq {s s' : Settings} (h : s.Relisted s') (table : List UInt8) :
    compile s table = compile s' table := by
  have hreader : ∀ lines, TableReader.ofSettings s lines = TableReader.ofSettings s' lines := by
    intro lines
    rw [TableReader.ofSettings, TableReader.ofSettings, h.reservedSet, h.others]
    rfl
  have hvalidate : s'.validate = s.validate := by
    rw [h.others]
    rfl
  rw [compile, compile, Run.ofLines, Run.ofLines, hreader, hvalidate]
  cases s.validate with
  | ok u =>
    rw [h.others]
    exact (Run.ofAnswers_relisted s _ _ _).symm
  | error f => rfl

namespace OpcodeSet

/-- All that can be asked of the set, answered by the opcodes that were put into it. -/
structure Represents (s : OpcodeSet) (ops : List Opcode) : Prop where
  contains : ∀ op, s.contains op = true ↔ op ∈ ops
  listed : ∀ op, op ∈ s.toList ↔ op ∈ ops
  ascending : s.toList.Pairwise (· < ·)
  once : s.toList.Nodup
  /-- opcodes that were put in repeatedly count once -/
  size : s.size = ops.toFinset.card
  bits : s.size = s.bits.cpop.toNat
  isEmpty : s.isEmpty = true ↔ ops = []
  eq_iff : ∀ t : OpcodeSet, s = t ↔ ∀ op, op ∈ s ↔ op ∈ t

theorem Holds.represents (h : s.Holds ops) : Represents s ops where
  contains := h
  listed op := mem_toList.trans (h op)
  ascending := ascending_toList s
  once := nodup_toList s
  size := h.size
  bits := size_eq_cpop s
  isEmpty := h.isEmpty
  eq_iff t := ⟨fun heq op => by rw [heq], ext⟩

/-- A set is the finite set of what it was made of, and a run knows the reserved opcodes as a set. -/
theorem finite_set (start inserted : List Opcode) :
    Represents (inserted.foldl insert (ofList start)) (start ++ inserted) ∧
      ∀ s s' : Settings, s.Relisted s' → ∀ table, compile s table = compile s' table :=
  ⟨((holds_ofList start).foldl inserted).represents, fun _ _ h table => h.compile_eq table⟩

/-- The usual reserved opcodes, listed twice over. -/
theorem finite_set_of_repeated :
    let s' : Settings := { reserved := unassigned.reverse ++ unassigned }
    Settings.default.Relisted s' ∧
      compile .default (bytesOfText "NOP\n1  4\n- - - -\n") = compile s' (bytesOfText "NOP\n1  4\n- - - -\n") := by
  intro s'
  have h : Settings.default.Relisted s' := ⟨by simp [s', Settings.default], rfl⟩
  exact ⟨h, (finite_set unassigned []).2 _ _ h _⟩

example : (ofList [0xff, 0x40, 0xff, 0x3f]).toList = [0x3f, 0x40, 0xff] := by decide

end OpcodeSet
end OpcodeDispatch
