import Mathlib.Data.List.Nodup
import OpcodeDispatch.Proofs.Influence
import OpcodeDispatch.Proofs.OperandLanguage

/-!
Pairs that move. An operand `(p+)` or `(p-)` addresses memory by a pair that moves by one once it
has been used. A load moves the pair, after the statement that moves the byte. Arithmetic and logic
take such an operand for a byte and leave the pair where it was; no other family takes one.
-/

namespace OpcodeDispatch

/-! ### The statements that move a pair -/

namespace RegisterPair

def stepUp (p : RegisterPair) : String :=
  "self.regs.set_" ++ p.accessor ++ "(self.regs." ++ p.accessor ++ "().wrapping_add(1));"

def stepDown (p : RegisterPair) : String :=
  "self.regs.set_" ++ p.accessor ++ "(self.regs." ++ p.accessor ++ "().wrapping_sub(1));"

theorem mem_all (p : RegisterPair) : p ∈ all := by cases p <;> decide

end RegisterPair

namespace Address

/-- The addresses that move a pair. -/
def moving : List Address := RegisterPair.all.map increment ++ RegisterPair.all.map decrement

theorem increment_mem_moving (p : RegisterPair) : increment p ∈ moving :=
  List.mem_append_left _ (List.mem_map_of_mem p.mem_all)

theorem decrement_mem_moving (p : RegisterPair) : decrement p ∈ moving :=
  List.mem_append_right _ (List.mem_map_of_mem p.mem_all)

theorem forall_mem_moving {P : Address → Prop} :
    (∀ a ∈ moving, P a) ↔ ∀ p, P (increment p) ∧ P (decrement p) := by
  constructor
  · intro h p
    exact ⟨h _ (increment_mem_moving p), h _ (decrement_mem_moving p)⟩
  · intro h a ha
    rcases List.mem_append.1 ha with ha | ha <;> obtain ⟨p, -, rfl⟩ := List.mem_map.1 ha
    · exact (h p).1
    · exact (h p).2

/-- The statement by which an address moves its pair. -/
def step? : Address → Option String
  | increment p => some p.stepUp
  | decrement p => some p.stepDown
  | _ => none

theorem adjustment_eq (a : Address) : Code.adjustment a = a.step?.toList := by
  cases a with
  | increment p | decrement p => cases p <;> decide +kernel
  | _ => rfl

theorem mem_moving {a : Address} : a ∈ moving ↔ a.step?.isSome = true := by
  cases a with
  | increment p | decrement p => cases p <;> decide
  | pair p => cases p <;> decide
  | _ => decide

/-- No two addresses move their pairs by one statement. -/
theorem step?_inj {a b : Address} {t : String} (ha : a.step? = some t) (hb : b.step? = some t) : a = b := by
  have hnodup : (moving.map step?).Nodup := by decide +kernel
  have hmem : ∀ {c : Address}, c.step? = some t → c ∈ moving := fun hc => mem_moving.2 (by rw [hc]; rfl)
  exact List.inj_on_of_nodup_map hnodup (hmem ha) (hmem hb) (ha.trans hb.symm)

end Address

namespace Code

/-- The statements that move pairs. -/
def steps : List String := RegisterPair.all.map RegisterPair.stepUp ++ RegisterPair.all.map RegisterPair.stepDown

theorem step?_mem_steps {a : Address} {t : String} (h : a.step? = some t) : t ∈ steps := by
  cases a with
  | increment p =>
    cases h
    exact List.mem_append_left _ (List.mem_map_of_mem p.mem_all)
  | decrement p =>
    cases h
    exact List.mem_append_right _ (List.mem_map_of_mem p.mem_all)
  | _ => cases h

theorem mem_steps_of_adjustment {a : Address} {t : String} (h : t ∈ adjustment a) : t ∈ steps := by
  rw [a.adjustment_eq, Option.mem_toList] at h
  exact step?_mem_steps h

theorem count_adjustment {a : Address} {t : String} (ha : a.step? = some t) (b : Address) :
    (adjustment b).count t = if b == a then 1 else 0 := by
  rw [b.adjustment_eq]
  by_cases hb : b = a
  · subst hb
    simp [ha]
  · cases hs : b.step? with
    | none => simp [hb]
    | some u =>
      have hu : u ≠ t := by
        rintro rfl
        exact hb (Address.step?_inj hs ha)
      simp [hb, hu]

theorem count_adjustments {a : Address} {t : String} (ha : a.step? = some t) (l : List Address) :
    (l.flatMap adjustment).count t = l.count a := by
  induction l with
  | nil => rfl
  | cons b l ih => rw [List.flatMap_cons, List.count_append, count_adjustment ha, ih, List.count_cons, Nat.add_comm]

/-- A text that opens otherwise than the statements that move pairs do. -/
def Apart (t : String) : Prop := 8 ≤ t.toList.length ∧ t.toList.take 8 ≠ "self.reg".toList

instance (t : String) : Decidable (Apart t) := inferInstanceAs (Decidable (_ ∧ _))

theorem Apart.append {t : String} (h : Apart t) (u : String) : Apart (t ++ u) := by
  obtain ⟨hlen, hne⟩ := h
  refine ⟨?_, ?_⟩
  · rw [String.toList_append, List.length_append]
    omega
  · rwa [String.toList_append, List.take_append_of_le_length hlen]

theorem Apart.not_mem_steps {t : String} (h : Apart t) : t ∉ steps := by
  intro hmem
  have hsteps : ∀ u ∈ steps, u.toList.take 8 = "self.reg".toList := by decide +kernel
  exact h.2 (hsteps t hmem)

end Code

/-! ### The statements of an operation -/

namespace Operation

open Code

/-- The places whose pairs the code of an operation moves. -/
def moved : Operation → List Address
  | loadByte t s => (loadByte t s).places
  | _ => []

/-- The code performs the operation and then moves the pairs. -/
structure Performs (o : Operation) (performing statements : List String) : Prop where
  eq : statements = performing ++ o.moved.flatMap adjustment
  apart : ∀ t ∈ performing, t ∉ steps
  nonempty : performing = [] → o.moved = []

variable (base : UInt16) {o : Operation}

theorem performs_single {t : String} (ht : Apart t) (h : o.moved = []) : o.Performs [t] [t] := by
  refine ⟨by rw [h]; rfl, fun u hu => ?_, nofun⟩
  rw [List.mem_singleton.1 hu]
  exact ht.not_mem_steps

theorem performs_branching {primitive arguments : String} {cc : Option Condition}
    (ht : Apart (primitive ++ "(")) (h : o.moved = []) :
    ∃ performing, o.Performs performing (branching primitive arguments cc).statements := by
  cases cc with
  | none => exact ⟨_, performs_single ((ht.append _).append _) h⟩
  | some cc => exact ⟨[], by rw [h]; rfl, nofun, fun _ => h⟩

theorem loadAdjustments_eq (t : ByteTarget) (s : ByteSource) :
    loadAdjustments t s = (loadByte t s).places.flatMap adjustment := by
  cases t <;> cases s <;> simp [loadAdjustments, places, ByteTarget.place?, ByteSource.place?]

theorem performs_wordLoad (place : String) (s : WordSource) (h : o.moved = []) :
    ∃ performing, o.Performs performing (wordLoad place s) := by
  cases s with
  | pair p | immediate =>
    exact ⟨_, performs_single (.append (.append (.append (.append (by decide) _) _) _) _) h⟩
  | stackOffset =>
    -- some of these statements set flags and open like the ones that move pairs
    have hload : Apart ("self.ld_word(sp.wrapping_add(offset as i8 as i16 as u16), " ++ place ++ ");") :=
      .append (.append (by decide) _) _
    refine ⟨stackOffsetLoad place, by rw [h]; simp [wordLoad], fun t ht => ?_, nofun⟩
    simp only [stackOffsetLoad, List.mem_cons, List.not_mem_nil, or_false] at ht
    rcases ht with rfl | rfl | rfl | rfl | rfl | rfl | rfl
    case inr.inr.inr.inr.inr.inr => exact hload.not_mem_steps
    all_goals decide +kernel

theorem exists_performs (h : ∀ name, o ≠ .primitive name) :
    ∃ performing, o.Performs performing (o.code base).statements := by
  cases o with
  | loadByte t s =>
    refine ⟨["self.ld_byte(" ++ byteValue base s ++ ", " ++ bytePlace base t ++ ");"], ?_, ?_, nofun⟩
    · exact congrArg (_ :: ·) (loadAdjustments_eq t s)
    · intro u hu
      rw [List.mem_singleton.1 hu]
      have ht : Apart "self.ld_byte(" := by decide
      exact (((((ht.append _).append _).append _).append _).not_mem_steps)
  | loadWord t s => exact performs_wordLoad _ s rfl
  | relativeJump cc | ret cc | call cc => exact performs_branching (by decide) rfl
  | jump t cc => exact performs_branching (by decide) rfl
  | increment t | decrement t => exact ⟨_, performs_single (.append (.append (by decide) _) _) rfl⟩
  | addByte carry s | subtract carry s =>
    exact ⟨_, performs_single (.append (.append (.append (.append (by decide) _) _) _) _) rfl⟩
  | addPair p => exact ⟨_, performs_single (.append (.append (by decide) _) _) rfl⟩
  | addOffset => exact ⟨_, performs_single (by decide) rfl⟩
  | logic op s =>
    have ht : Apart ("self." ++ logicPrimitive op ++ "(") := by cases op <;> decide
    exact ⟨_, performs_single (.append (.append ht _) _) rfl⟩
  | push p | pop p | restart target => exact ⟨_, performs_single (.append (.append (by decide) _) _) rfl⟩
  | extension => exact ⟨_, performs_single (by decide) rfl⟩
  | primitive name => exact absurd rfl (h name)

end Operation

/-! ### The operands that move a pair -/

/-- Whether the family computes with the accumulator, or adds to a pair. -/
def Family.isArithmetic : Family → Bool
  | add _ | subtract _ | logic _ => true
  | _ => false

/-- How many operands of the record name the place. -/
def Record.uses (r : Record) (a : Address) : Nat :=
  r.operandList.countP fun operand => AddressingMode.parse? operand = some (.indirect a)

/-- An operand of the record moves a pair. -/
def Record.MovesPair (r : Record) : Prop :=
  ∃ operand ∈ r.operandList, ∃ p, AddressingMode.parse? operand = some (.indirect (.increment p)) ∨
    AddressingMode.parse? operand = some (.indirect (.decrement p))

namespace AddressingMode

variable {m : AddressingMode} {a : Address}

theorem count_byteSource {s : ByteSource} (h : m.byteSource? = some s) (a : Address) :
    s.place?.toList.count a = if m = .indirect a then 1 else 0 := by
  unfold byteSource? at h
  split at h <;> cases h <;> simp [ByteSource.place?, List.count_singleton]

theorem count_byteTarget {t : ByteTarget} (h : m.byteTarget? = some t) (a : Address) :
    t.place?.toList.count a = if m = .indirect a then 1 else 0 := by
  unfold byteTarget? at h
  split at h <;> cases h <;> simp [ByteTarget.place?, List.count_singleton]

end AddressingMode

namespace Operation

open AddressingMode

variable {r : Record} {o : Operation} {a : Address}

theorem uses_eq_zero : r.uses a = 0 ↔ ∀ x ∈ r.operandList, parse? x ≠ some (.indirect a) := by
  simp [Record.uses, List.countP_eq_zero]

theorem ne_of_as {as? : AddressingMode → Option α} {x : String} {m : AddressingMode} {v : α}
    (has : as? (.indirect a) = none) (hm : parse? x = some m) (hv : as? m = some v) :
    parse? x ≠ some (.indirect a) := by
  intro hx
  cases hm.symm.trans hx
  rw [has] at hv
  cases hv

theorem ne_of_operandAs {as? : AddressingMode → Option α} {x : String} {v : α} (has : as? (.indirect a) = none)
    (h : r.operandAs as? x = .ok v) : parse? x ≠ some (.indirect a) := by
  obtain ⟨m, hm, hv⟩ := Record.mode_of_operandAs h
  exact ne_of_as has hm hv

theorem ne_of_condition {x : String} {cc : Condition} (ha : a ∈ Address.moving) (h : r.condition x = .ok cc) :
    parse? x ≠ some (.indirect a) := by
  have hnames : ∀ c : Condition, ∀ a ∈ Address.moving, parse? c.name ≠ some (.indirect a) := by
    intro c
    cases c <;> decide
  rw [Condition.ofName?_eq_some.1 (Record.require_eq_ok h)]
  exact hnames cc a ha

theorem uses_ofUnary {as? : AddressingMode → Option α} {make : α → Operation} (has : as? (.indirect a) = none)
    (h : ofUnary r as? make = .ok o) : r.uses a = 0 := by
  unfold ofUnary at h
  split at h
  · next x hops =>
    obtain ⟨v, hv, -⟩ := bind_eq_ok h
    rw [uses_eq_zero, hops]
    exact List.forall_mem_singleton.2 (ne_of_operandAs has hv)
  · cases h

theorem uses_ofConditioned {as? : AddressingMode → Option α} {make : α → Option Condition → Operation}
    (ha : a ∈ Address.moving) (has : as? (.indirect a) = none) (h : ofConditioned r as? make = .ok o) :
    r.uses a = 0 := by
  unfold ofConditioned at h
  rw [uses_eq_zero]
  split at h
  · next x hops =>
    obtain ⟨v, hv, -⟩ := bind_eq_ok h
    rw [hops]
    exact List.forall_mem_singleton.2 (ne_of_operandAs has hv)
  · next x y hops =>
    obtain ⟨cc, hcc, h⟩ := bind_eq_ok h
    obtain ⟨v, hv, -⟩ := bind_eq_ok h
    rw [hops]
    exact List.forall_mem_cons.2 ⟨ne_of_condition ha hcc, List.forall_mem_singleton.2 (ne_of_operandAs has hv)⟩
  · cases h

theorem uses_ofRet (ha : a ∈ Address.moving) (h : ofRet r = .ok o) : r.uses a = 0 := by
  unfold ofRet at h
  rw [uses_eq_zero]
  split at h
  · next hops =>
    rw [hops]
    exact nofun
  · next x hops =>
    obtain ⟨cc, hcc, -⟩ := bind_eq_ok h
    rw [hops]
    exact List.forall_mem_singleton.2 (ne_of_condition ha hcc)
  · cases h

theorem uses_ofRestart (ha : a ∈ Address.moving) (h : ofRestart r = .ok o) : r.uses a = 0 := by
  unfold ofRestart at h
  rw [uses_eq_zero]
  split at h
  · next x hops =>
    split at h
    · next target htarget =>
      have hmem : x ∈ r.operandList := by rw [hops]; exact List.mem_singleton.2 rfl
      have hspelled : ∀ a ∈ Address.moving, ∀ x ∈ (indirect a).spellings, restartTarget? x = none := by decide
      rw [hops]
      refine List.forall_mem_singleton.2 fun hx => ?_
      rw [hspelled a ha x ((parse?_trimmed (Record.trimmed_of_mem hmem)).1 hx)] at htarget
      cases htarget
    · cases h
  · cases h

theorem uses_ofLoad (ha : a ∈ Address.moving) (h : ofLoad r = .ok o) : r.uses a = o.places.count a := by
  unfold ofLoad at h
  split at h
  · next dst src hops =>
    obtain ⟨target, htarget, h⟩ := bind_eq_ok h
    obtain ⟨source, hsource, h⟩ := bind_eq_ok h
    have htarget := Record.require_eq_ok htarget
    have hsource := Record.require_eq_ok hsource
    split at h
    · obtain ⟨t, ht, h⟩ := bind_eq_ok h
      obtain ⟨s, hs, h⟩ := bind_eq_ok h
      cases h
      have hwords : ∀ a ∈ Address.moving, wordTarget? (.indirect a) = none ∧ wordSource? (.indirect a) = none := by
        decide
      have hdst := ne_of_as (hwords a ha).1 htarget (Record.require_eq_ok ht)
      have hsrc := ne_of_as (hwords a ha).2 hsource (Record.require_eq_ok hs)
      refine uses_eq_zero.2 ?_
      rw [hops]
      exact List.forall_mem_cons.2 ⟨hdst, List.forall_mem_singleton.2 hsrc⟩
    · obtain ⟨s, hs, h⟩ := bind_eq_ok h
      obtain ⟨t, ht, h⟩ := bind_eq_ok h
      cases h
      rw [places, List.count_append, count_byteSource (Record.require_eq_ok hs),
        count_byteTarget (Record.require_eq_ok ht)]
      simp [Record.uses, hops, htarget, hsource, List.countP_cons]
  · cases h

theorem uses_source {x : String} {s : ByteSource} (hops : r.operandList = [x])
    (h : r.operandAs byteSource? x = .ok s) : r.uses a = s.place?.toList.count a := by
  obtain ⟨m, hm, hs⟩ := Record.mode_of_operandAs h
  rw [count_byteSource hs]
  simp [Record.uses, hops, hm, List.countP_cons]

/-- An operand before the source that is no place in memory does not count. -/
theorem uses_second {x y : String} {s : ByteSource} (hops : r.operandList = [x, y])
    (hx : parse? x ≠ some (.indirect a)) (h : r.operandAs byteSource? y = .ok s) :
    r.uses a = s.place?.toList.count a := by
  obtain ⟨m, hm, hs⟩ := Record.mode_of_operandAs h
  rw [count_byteSource hs]
  simp [Record.uses, hops, hm, hx, List.countP_cons]

theorem uses_ofAccumulate {make : ByteSource → Operation} (hmake : ∀ s, (make s).places = s.place?.toList)
    (h : ofAccumulate r make = .ok o) : r.uses a = o.places.count a := by
  unfold ofAccumulate at h
  split at h
  · next src hops =>
    obtain ⟨s, hs, h⟩ := bind_eq_ok h
    cases h
    rw [hmake]
    exact uses_source hops hs
  · next dst src hops =>
    split at h
    · next hdst =>
      obtain ⟨s, hs, h⟩ := bind_eq_ok h
      cases h
      rw [hmake]
      refine uses_second hops ?_ hs
      have hreg : parse? "A" = some (register (.byte .a)) := by decide
      rw [hdst, hreg]
      exact nofun
    · cases h
  · cases h

theorem uses_ofAdd {carry : Bool} (h : ofAdd r carry = .ok o) : r.uses a = o.places.count a := by
  unfold ofAdd at h
  split at h
  · next src hops =>
    obtain ⟨s, hs, h⟩ := bind_eq_ok h
    cases h
    exact uses_source hops hs
  · next dst src hops =>
    obtain ⟨target, hmode, h⟩ := bind_eq_ok h
    have hdst := Record.require_eq_ok hmode
    have hne : target.isIndirect = false → parse? dst ≠ some (.indirect a) := by
      intro hreg hx
      cases hdst.symm.trans hx
      cases hreg
    split at h
    · obtain ⟨s, hs, h⟩ := bind_eq_ok h
      cases h
      exact uses_second hops (hne rfl) hs
    · obtain ⟨p, hp, h⟩ := bind_eq_ok h
      cases h
      refine uses_eq_zero.2 ?_
      rw [hops]
      exact List.forall_mem_cons.2 ⟨hne rfl, List.forall_mem_singleton.2 (ne_of_operandAs rfl hp)⟩
    · have hsrc : parse? src ≠ some (.indirect a) := ne_of_operandAs (if_neg nofun) h
      obtain ⟨m, -, hm⟩ := Record.mode_of_operandAs h
      split at hm <;> cases hm
      refine uses_eq_zero.2 ?_
      rw [hops]
      exact List.forall_mem_cons.2 ⟨hne rfl, List.forall_mem_singleton.2 hsrc⟩
    · cases h
  · cases h

theorem moved_of_makes {f : Family} (h : Makes f o) : o.moved = if f.isArithmetic then [] else o.places := by
  cases h <;> rfl

theorem family_of_primitive {f : Family} {name : String} (h : Makes f (.primitive name)) : f = .nullary := by
  cases h
  rfl

theorem places_of_makes {f : Family} (h : Makes f o) (hload : f ≠ .load) (harith : f.isArithmetic = false) :
    o.places = [] := by
  cases h with
  | loadByte | loadWord => exact absurd rfl hload
  | addByte | subtract | logic => cases harith
  | _ => rfl

/-- Operands that move a pair are the places of the operation that move it. -/
theorem uses_ofRecord (ha : a ∈ Address.moving) (hext : Family.ofMnemonic r.mnemonic ≠ .extension)
    (hnull : Family.ofMnemonic r.mnemonic ≠ .nullary) (h : ofRecord r = .ok o) : r.uses a = o.places.count a := by
  have hkinds : ∀ a ∈ Address.moving, stepTarget? (.indirect a) = none ∧ pairOf? (.indirect a) = none ∧
      jumpTarget? (.indirect a) = none := by decide
  obtain ⟨hstep, hpair, hjump⟩ := hkinds a ha
  have hplaces := places_of_makes (makes_ofRecord h)
  unfold ofRecord at h
  cases hf : Family.ofMnemonic r.mnemonic <;> rw [hf] at h hplaces
  case load => exact uses_ofLoad ha h
  case relativeJump | call => rw [hplaces nofun rfl, uses_ofConditioned ha (if_neg nofun) h, List.count_nil]
  case jump => rw [hplaces nofun rfl, uses_ofConditioned ha hjump h, List.count_nil]
  case ret => rw [hplaces nofun rfl, uses_ofRet ha h, List.count_nil]
  case increment | decrement => rw [hplaces nofun rfl, uses_ofUnary hstep h, List.count_nil]
  case push | pop => rw [hplaces nofun rfl, uses_ofUnary hpair h, List.count_nil]
  case add carry => exact uses_ofAdd h
  case subtract | logic => exact uses_ofAccumulate (fun _ => rfl) h
  case restart => rw [hplaces nofun rfl, uses_ofRestart ha h, List.count_nil]
  case extension => exact absurd hf hext
  case nullary => exact absurd hf hnull

end Operation

/-! ### The arm of a record -/

/-- Each pair moves as often as the operands of the record say, after the statements that perform
the operation. -/
structure Arm.Moves (r : Record) (a : Arm) : Prop where
  up : ∀ p, a.statements.count p.stepUp = r.uses (.increment p)
  down : ∀ p, a.statements.count p.stepDown = r.uses (.decrement p)
  last : ∃ performing moves, a.statements = performing ++ moves ∧ (∀ t ∈ performing, t ∉ Code.steps) ∧
    (∀ t ∈ moves, t ∈ Code.steps) ∧ (performing = [] → moves = [])

variable {s : Settings} {r : Record} {a : Arm}

theorem Record.not_movesPair_iff : ¬ r.MovesPair ↔ ∀ a ∈ Address.moving, r.uses a = 0 := by
  rw [Address.forall_mem_moving]
  simp only [Operation.uses_eq_zero]
  constructor
  · intro h p
    exact ⟨fun x hx hup => h ⟨x, hx, p, .inl hup⟩, fun x hx hdown => h ⟨x, hx, p, .inr hdown⟩⟩
  · rintro h ⟨x, hx, p, hup | hdown⟩
    · exact (h p).1 x hx hup
    · exact (h p).2 x hx hdown

namespace Operation

open Code

variable {o : Operation} {performing statements : List String}

theorem Performs.count (h : o.Performs performing statements) {a : Address} {t : String} (ht : a.step? = some t) :
    statements.count t = o.moved.count a := by
  have hnone : performing.count t = 0 := List.count_eq_zero.2 fun hmem => h.apart t hmem (step?_mem_steps ht)
  rw [h.eq, List.count_append, hnone, Nat.zero_add, count_adjustments ht]

theorem Performs.of_moved_eq_nil (h : o.Performs performing statements) (hm : o.moved = []) :
    ∀ t ∈ statements, t ∉ steps := by
  rw [h.eq, hm, List.flatMap_nil, List.append_nil]
  exact h.apart

end Operation

/-- The pairs that the operation moves are the ones that operands move. -/
theorem Arm.moves_iff {o : Operation} {performing : List String} (h : o.Performs performing a.statements) :
    a.Moves r ↔ ∀ x ∈ Address.moving, o.moved.count x = r.uses x := by
  rw [Address.forall_mem_moving]
  constructor
  · intro hmoves p
    exact ⟨(h.count rfl).symm.trans (hmoves.up p), (h.count rfl).symm.trans (hmoves.down p)⟩
  · intro hcount
    refine ⟨fun p => ?_, fun p => ?_, performing, _, h.eq, h.apart, fun t ht => ?_, fun hnil => ?_⟩
    · exact (h.count rfl).trans (hcount p).1
    · exact (h.count rfl).trans (hcount p).2
    · obtain ⟨x, -, hx⟩ := List.mem_flatMap.1 ht
      exact Code.mem_steps_of_adjustment hx
    · rw [h.nonempty hnil, List.flatMap_nil]

/-- A pair is left where it was by arithmetic and logic, and by nothing else. -/
theorem moves_ofRecord (h : Arm.ofRecord s r = .ok a) (hext : Family.ofMnemonic r.mnemonic ≠ .extension)
    (hnull : Family.ofMnemonic r.mnemonic ≠ .nullary) :
    (a.Moves r ↔ ¬ ((Family.ofMnemonic r.mnemonic).isArithmetic = true ∧ r.MovesPair)) ∧
      ((Family.ofMnemonic r.mnemonic).isArithmetic = true → ∀ t ∈ a.statements, t ∉ Code.steps) := by
  obtain ⟨o, cost, ho, -, rfl⟩ := Arm.ofRecord_eq_ok h
  have hmakes := Operation.makes_ofRecord ho
  have huses : ∀ x ∈ Address.moving, r.uses x = o.places.count x := fun x hx =>
    Operation.uses_ofRecord hx hext hnull ho
  obtain ⟨performing, hperforms⟩ := o.exists_performs s.highMemoryBase fun name ho => by
    subst ho
    exact hnull (Operation.family_of_primitive hmakes)
  have hmoved := Operation.moved_of_makes hmakes
  rw [Arm.moves_iff hperforms]
  cases harith : (Family.ofMnemonic r.mnemonic).isArithmetic with
  | false =>
    rw [harith, if_neg Bool.false_ne_true] at hmoved
    refine ⟨iff_of_true (fun x hx => ?_) fun h => Bool.false_ne_true h.1, nofun⟩
    rw [hmoved, huses x hx]
  | true =>
    rw [harith, if_pos rfl] at hmoved
    refine ⟨?_, fun _ => hperforms.of_moved_eq_nil hmoved⟩
    simp only [hmoved, List.count_nil, Record.not_movesPair_iff, true_and, eq_comm]

theorem left_by_add : ∃ a, Arm.ofRecord {} ⟨0x86, 1, "ADD", "A,(HL+)", "1", "8", "- - - -"⟩ = .ok a ∧
    a.statements = ["self.add_byte(self.mmu.read_byte(self.regs.hl()), false);"] ∧
    ¬ a.Moves ⟨0x86, 1, "ADD", "A,(HL+)", "1", "8", "- - - -"⟩ := by
  obtain ⟨a, ha, hstatements⟩ : ∃ a, Arm.ofRecord {} ⟨0x86, 1, "ADD", "A,(HL+)", "1", "8", "- - - -"⟩ = .ok a ∧
      a.statements = ["self.add_byte(self.mmu.read_byte(self.regs.hl()), false);"] :=
    ⟨_, rfl, by decide⟩
  have hmoves : Record.MovesPair ⟨0x86, 1, "ADD", "A,(HL+)", "1", "8", "- - - -"⟩ :=
    ⟨"(HL+)", by decide, .hl, .inl (by decide)⟩
  refine ⟨a, ha, hstatements, fun h => ?_⟩
  exact (moves_ofRecord ha (by decide) (by decide)).1.1 h ⟨rfl, hmoves⟩

end OpcodeDispatch
