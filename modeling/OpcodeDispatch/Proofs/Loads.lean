import OpcodeDispatch.Proofs.Adjustments

/-!
The operands of a load, read off its code. The statements of a load determine the modes of both
operands, but for one kind of twins: a byte that goes from the place at a pair to itself, where the pair
moves afterwards, is the same code whichever of the operands moves the pair.
-/

namespace OpcodeDispatch

/-! ### Modes of operands -/

def ByteSource.mode : ByteSource → AddressingMode
  | register r => .register (.byte r)
  | immediate => .immediateByte
  | memory a => .indirect a

def ByteTarget.mode : ByteTarget → AddressingMode
  | register r => .register (.byte r)
  | memory a => .indirect a

def WordSource.mode : WordSource → AddressingMode
  | pair p => .register (.pair p)
  | immediate => .immediateWord
  | stackOffset => .stackOffset

def WordTarget.mode : WordTarget → AddressingMode
  | pair p => .register (.pair p)
  | absolute => .indirect .absolute

def WordSource.all : List WordSource := RegisterPair.all.map pair ++ [immediate, stackOffset]

theorem WordSource.mem_all (s : WordSource) : s ∈ all := by
  cases s with
  | pair p => cases p <;> decide
  | _ => decide

def WordTarget.all : List WordTarget := RegisterPair.all.map pair ++ [absolute]

theorem WordTarget.mem_all (t : WordTarget) : t ∈ all := by
  cases t with
  | pair p => cases p <;> decide
  | absolute => decide

/-- The modes of a load's operands, the target's first. -/
def Operation.modes? : Operation → Option (AddressingMode × AddressingMode)
  | loadByte t s => some (t.mode, s.mode)
  | loadWord t s => some (t.mode, s.mode)
  | _ => none

/-- The record has two operands, of these modes. -/
def Record.HasModes (r : Record) (m : AddressingMode × AddressingMode) : Prop :=
  ∃ target source, r.operandList = [target, source] ∧ AddressingMode.parse? target = some m.1 ∧
    AddressingMode.parse? source = some m.2

def Record.IsLoad (r : Record) : Prop := Text.upper r.mnemonic ∈ ["LD", "LDH"]

instance (r : Record) : Decidable r.IsLoad := inferInstanceAs (Decidable (_ ∈ _))

theorem ByteSource.mode_inj {s s' : ByteSource} (h : s.mode = s'.mode) : s = s' := by
  cases s <;> cases s' <;> cases h <;> rfl

theorem ByteTarget.mode_inj {t t' : ByteTarget} (h : t.mode = t'.mode) : t = t' := by
  cases t <;> cases t' <;> cases h <;> rfl

theorem WordSource.mode_inj {s s' : WordSource} (h : s.mode = s'.mode) : s = s' := by
  cases s <;> cases s' <;> cases h <;> rfl

theorem WordTarget.mode_inj {t t' : WordTarget} (h : t.mode = t'.mode) : t = t' := by
  cases t <;> cases t' <;> cases h <;> rfl

theorem ByteSource.mode_ne {s : ByteSource} {s' : WordSource} : s.mode ≠ s'.mode := by
  cases s <;> cases s' <;> exact nofun

namespace AddressingMode

variable {m : AddressingMode}

theorem eq_of_byteSource? {s : ByteSource} (h : m.byteSource? = some s) : m = s.mode := by
  unfold byteSource? at h
  split at h <;> cases h <;> rfl

theorem eq_of_byteTarget? {t : ByteTarget} (h : m.byteTarget? = some t) : m = t.mode := by
  unfold byteTarget? at h
  split at h <;> cases h <;> rfl

theorem eq_of_wordSource? {s : WordSource} (h : m.wordSource? = some s) : m = s.mode := by
  unfold wordSource? at h
  split at h <;> cases h <;> rfl

theorem eq_of_wordTarget? {t : WordTarget} (h : m.wordTarget? = some t) : m = t.mode := by
  unfold wordTarget? at h
  split at h <;> cases h <;> rfl

end AddressingMode

namespace Operation

open AddressingMode

variable {r : Record} {o o' : Operation} {m : AddressingMode × AddressingMode}

/-- A load has the modes of its record's operands. -/
theorem modes_ofLoad (h : ofLoad r = .ok o) : ∃ m, o.modes? = some m ∧ r.HasModes m := by
  unfold ofLoad at h
  split at h
  · next target source hops =>
    obtain ⟨dst, hdst, h⟩ := bind_eq_ok h
    obtain ⟨src, hsrc, h⟩ := bind_eq_ok h
    have hmodes : r.HasModes (dst, src) :=
      ⟨target, source, hops, Record.require_eq_ok hdst, Record.require_eq_ok hsrc⟩
    refine ⟨(dst, src), ?_, hmodes⟩
    split at h
    · obtain ⟨t, ht, h⟩ := bind_eq_ok h
      obtain ⟨s, hs, h⟩ := bind_eq_ok h
      cases h
      rw [eq_of_wordTarget? (Record.require_eq_ok ht),
        eq_of_wordSource? (Record.require_eq_ok hs)]
      rfl
    · obtain ⟨s, hs, h⟩ := bind_eq_ok h
      obtain ⟨t, ht, h⟩ := bind_eq_ok h
      cases h
      rw [eq_of_byteTarget? (Record.require_eq_ok ht),
        eq_of_byteSource? (Record.require_eq_ok hs)]
      rfl
  · cases h

/-- The modes tell which operands a load has, and whether it moves a byte or a word. -/
theorem modes?_inj (h : o.modes? = some m) (h' : o'.modes? = some m) : o = o' := by
  cases o with
  | loadByte t s =>
    cases h
    cases o' with
    | loadByte t' s' =>
      obtain ⟨ht, hs⟩ := Prod.mk.inj (Option.some.inj h')
      rw [ByteTarget.mode_inj ht, ByteSource.mode_inj hs]
    | loadWord t' s' => exact absurd (Prod.mk.inj (Option.some.inj h')).2.symm ByteSource.mode_ne
    | _ => cases h'
  | loadWord t s =>
    cases h
    cases o' with
    | loadByte t' s' => exact absurd (Prod.mk.inj (Option.some.inj h')).2 ByteSource.mode_ne
    | loadWord t' s' =>
      obtain ⟨ht, hs⟩ := Prod.mk.inj (Option.some.inj h')
      rw [WordTarget.mode_inj ht, WordSource.mode_inj hs]
    | _ => cases h'
  | _ => cases h

end Operation

/-! ### Places that stay and pairs that move -/

/-- The address without the move of its pair. -/
def Address.still : Address → Address
  | increment p | decrement p => pair p
  | a => a

namespace AddressingMode

/-- The mode without the move of its pair. -/
def still : AddressingMode → AddressingMode
  | indirect a => indirect a.still
  | m => m

/-- The statement by which the mode moves its pair. -/
def step? : AddressingMode → Option String
  | indirect a => a.step?
  | _ => none

/-- Two loads of a byte from the place at a pair to itself. The pair moves at one operand in the one load, and at
the other operand in the other. -/
structure Crossed (m m' : AddressingMode × AddressingMode) : Prop where
  swap : m' = m.swap
  moves : ∃ p, ∃ a ∈ [Address.increment p, .decrement p],
    m = (indirect a, indirect (.pair p)) ∨ m = (indirect (.pair p), indirect a)

variable {m m' : AddressingMode} {u : String}

theorem still_of_step?_none (h : m.step? = none) : m.still = m := by
  cases m with
  | indirect a =>
    cases a with
    | increment p | decrement p => cases h
    | _ => rfl
  | _ => rfl

theorem indirect_of_step? (h : m.step? = some u) :
    ∃ p, ∃ a ∈ [Address.increment p, .decrement p], m = indirect a := by
  cases m with
  | indirect a =>
    cases a with
    | increment p => exact ⟨p, _, by simp, rfl⟩
    | decrement p => exact ⟨p, _, by simp, rfl⟩
    | _ => cases h
  | _ => cases h

theorem still_of_moves {p : RegisterPair} {a : Address} (h : a ∈ [Address.increment p, .decrement p]) :
    a.still = .pair p := by
  simp only [List.mem_cons, List.not_mem_nil, or_false] at h
  rcases h with rfl | rfl <;> rfl

theorem step?_inj (h : m.step? = some u) (h' : m'.step? = some u) : m = m' := by
  obtain ⟨p, a, -, rfl⟩ := indirect_of_step? h
  obtain ⟨q, b, -, rfl⟩ := indirect_of_step? h'
  rw [Address.step?_inj h h']

theorem eq_of_still (h : m.still = m'.still) (hstep : m.step? = m'.step?) : m = m' := by
  cases hm : m.step? with
  | none =>
    rw [← still_of_step?_none hm, h, still_of_step?_none (hstep ▸ hm)]
  | some u => exact step?_inj hm (hstep ▸ hm)

/-- Of two places one after the other, it shows in their steps which of them move unless just one does. -/
theorem toList_append_eq {x y x' y' : Option String} (h : x.toList ++ y.toList = x'.toList ++ y'.toList) :
    (x = x' ∧ y = y') ∨ ∃ u, (x = none ∧ y = some u ∧ x' = some u ∧ y' = none) ∨
      (x = some u ∧ y = none ∧ x' = none ∧ y' = some u) := by
  cases x <;> cases y <;> cases x' <;> cases y' <;> simp_all

/-- The one place moves in the one load and the other in the other, by the same statement. -/
theorem crossed_of_step? {t s t' s' : AddressingMode} (ht : t.still = t'.still) (hs : s.still = s'.still)
    (htu : t.step? = some u) (hsu : s'.step? = some u) (hs0 : s.step? = none) (ht0 : t'.step? = none) :
    ∃ p, ∃ a ∈ [Address.increment p, .decrement p], (t, s) = (indirect a, indirect (.pair p)) ∧
      (t', s') = (indirect (.pair p), indirect a) := by
  obtain ⟨p, a, ha, rfl⟩ := indirect_of_step? htu
  obtain rfl := step?_inj hsu htu
  have hstill : (indirect a).still = indirect (.pair p) := congrArg indirect (still_of_moves ha)
  rw [hstill] at ht hs
  rw [still_of_step?_none ht0] at ht
  rw [still_of_step?_none hs0] at hs
  exact ⟨p, a, ha, by rw [hs], by rw [ht]⟩

theorem eq_or_crossed {t s t' s' : AddressingMode} (ht : t.still = t'.still) (hs : s.still = s'.still)
    (h : s.step?.toList ++ t.step?.toList = s'.step?.toList ++ t'.step?.toList) :
    (t, s) = (t', s') ∨ Crossed (t, s) (t', s') := by
  rcases toList_append_eq h with ⟨hsstep, htstep⟩ | ⟨u, ⟨hs0, htu, hsu, ht0⟩ | ⟨hsu, ht0, hs0, htu⟩⟩
  · exact .inl (Prod.ext (eq_of_still ht htstep) (eq_of_still hs hsstep))
  · obtain ⟨p, a, ha, hm, hm'⟩ := crossed_of_step? ht hs htu hsu hs0 ht0
    exact .inr ⟨by rw [hm, hm']; rfl, p, a, ha, .inl hm⟩
  · obtain ⟨p, a, ha, hm', hm⟩ := crossed_of_step? ht.symm hs.symm htu hsu hs0 ht0
    exact .inr ⟨by rw [hm, hm']; rfl, p, a, ha, .inr hm⟩

end AddressingMode

/-! ### Texts of code -/

namespace Code

variable {base : UInt16}

/-- A call's first argument ends at the comma behind it. -/
theorem call_inj {primitive v v' w w' : String} (hv : ',' ∉ v.toList) (hv' : ',' ∉ v'.toList)
    (h : primitive ++ v ++ ", " ++ w ++ ");" = primitive ++ v' ++ ", " ++ w' ++ ");") : v = v' ∧ w = w' := by
  have hchars : v.toList ++ ',' :: (' ' :: w.toList ++ ");".toList) =
      v'.toList ++ ',' :: (' ' :: w'.toList ++ ");".toList) := by
    have h := congrArg String.toList h
    simpa [String.toList_append] using h
  have hpieces := congrArg (List.splitOn ',') hchars
  rw [List.splitOn_append_cons_self_of_not_mem hv, List.splitOn_append_cons_self_of_not_mem hv'] at hpieces
  have hvalue := (List.cons.inj hpieces).1
  rw [hvalue] at hchars
  have hrest := List.append_cancel_left hchars
  simp only [List.cons.injEq, true_and, List.cons_append, List.append_cancel_right_eq] at hrest
  exact ⟨String.ext_iff.2 hvalue, String.ext_iff.2 hrest⟩

theorem comma_not_mem_readRegister (r : Register) : ',' ∉ (readRegister r.accessor).toList := by
  have hall : ∀ r ∈ Register.all, ',' ∉ (readRegister r.accessor).toList := by decide
  exact hall r r.mem_all

theorem comma_not_mem_address (a : Address) : ',' ∉ (address base a).toList := by
  have hhex : ',' ∉ (Numeral.hex 4 base.toNat).toList := Numeral.not_mem_hex (by decide) (by decide)
  cases a with
  | pair p | increment p | decrement p => exact comma_not_mem_readRegister (.pair p)
  | absolute =>
    rw [address]
    decide
  | highByte =>
    have hopening : ',' ∉ (fetchByte ++ " as u16 + ").toList := by decide
    rw [address, String.toList_append, List.mem_append, not_or]
    exact ⟨hopening, hhex⟩
  | highRegister =>
    have hopening : ',' ∉ (readRegister "c" ++ " as u16 + ").toList := by decide
    rw [address, String.toList_append, List.mem_append, not_or]
    exact ⟨hopening, hhex⟩

theorem byteValue_memory (a : Address) :
    byteValue base (.memory a) = "self.mmu.read_byte(" ++ address base a ++ ")" := rfl

theorem comma_not_mem_byteValue (s : ByteSource) : ',' ∉ (byteValue base s).toList := by
  cases s with
  | register r => exact comma_not_mem_readRegister (.byte r)
  | immediate =>
    have himmediate : ',' ∉ fetchByte.toList := by decide
    exact himmediate
  | memory a =>
    have hopening : ',' ∉ "self.mmu.read_byte(".toList := by decide
    have hending : ',' ∉ ")".toList := by decide
    simp only [byteValue_memory, String.toList_append, List.mem_append, not_or]
    exact ⟨⟨hopening, comma_not_mem_address a⟩, hending⟩

theorem address_still (a : Address) : address base a.still = address base a := by
  cases a <;> rfl

end Code

/-- An address of each text. -/
def Address.stills : List Address := RegisterPair.all.map pair ++ [absolute, highByte, highRegister]

theorem Address.still_mem_stills (a : Address) : a.still ∈ stills := by
  cases a with
  | pair p | increment p | decrement p => cases p <;> decide
  | _ => decide

namespace Code

/-- The literal of the base stands behind the characters that tell addresses apart. -/
theorem take_address (base : UInt16) (a : Address) :
    (address base a).toList.take 17 = (address 0 a).toList.take 17 := by
  have hopening : ∀ opening : String, 17 ≤ opening.toList.length → ∀ base : UInt16,
      (opening ++ Numeral.hex 4 base.toNat).toList.take 17 = opening.toList.take 17 := by
    intro opening hlength base
    rw [String.toList_append, List.take_append_of_le_length hlength]
  cases a with
  | highByte => exact (hopening _ (by decide) base).trans (hopening (fetchByte ++ " as u16 + ") (by decide) 0).symm
  | highRegister =>
    exact (hopening _ (by decide) base).trans (hopening (readRegister "c" ++ " as u16 + ") (by decide) 0).symm
  | _ => rfl

theorem address_inj {a b : Address} (h : address base a = address base b) : a.still = b.still := by
  have hnodup : (Address.stills.map fun a => (address 0 a).toList.take 17).Nodup := by decide +kernel
  refine List.inj_on_of_nodup_map hnodup a.still_mem_stills b.still_mem_stills ?_
  rw [← take_address base, ← take_address base, address_still, address_still, h]

theorem readRegister_inj {r r' : Register} (h : readRegister r.accessor = readRegister r'.accessor) : r = r' := by
  have hnodup : (Register.all.map fun r => readRegister r.accessor).Nodup := by decide +kernel
  exact List.inj_on_of_nodup_map hnodup r.mem_all r'.mem_all h

theorem registerPlace_inj {r r' : Register} (h : registerPlace r = registerPlace r') : r = r' := by
  have hnodup : (Register.all.map registerPlace).Nodup := by decide +kernel
  exact List.inj_on_of_nodup_map hnodup r.mem_all r'.mem_all h

theorem byteValue_kinds (r : ByteRegister) (a : Address) :
    byteValue base (.register r) ≠ byteValue base .immediate ∧
      byteValue base (.register r) ≠ byteValue base (.memory a) ∧
      byteValue base .immediate ≠ byteValue base (.memory a) := by
  have hregister : byteValue base (.register r) = "self.regs." ++ (Register.byte r).accessor ++ "()" := rfl
  have himmediate : byteValue base .immediate = "self.fetch_ins_byte()" := rfl
  simp [hregister, himmediate, byteValue_memory, String.ext_iff]

/-- The value of a byte source shows its mode, up to the move of a pair. -/
theorem byteValue_inj {s s' : ByteSource} (h : byteValue base s = byteValue base s') :
    s.mode.still = s'.mode.still := by
  cases s with
  | register r =>
    cases s' with
    | register r' => rw [Register.byte.inj (readRegister_inj h)]
    | immediate => exact absurd h (byteValue_kinds r .absolute).1
    | memory a => exact absurd h (byteValue_kinds r a).2.1
  | immediate =>
    cases s' with
    | register r => exact absurd h.symm (byteValue_kinds r .absolute).1
    | immediate => rfl
    | memory a => exact absurd h (byteValue_kinds .a a).2.2
  | memory a =>
    cases s' with
    | register r => exact absurd h.symm (byteValue_kinds r a).2.1
    | immediate => exact absurd h.symm (byteValue_kinds .a a).2.2
    | memory b =>
      rw [byteValue_memory, byteValue_memory, String.append_left_inj, String.append_right_inj] at h
      exact congrArg AddressingMode.indirect (address_inj h)

theorem registerPlace_ne_memoryPlace (r : Register) (address : String) : registerPlace r ≠ memoryPlace address := by
  simp [registerPlace, memoryPlace, String.ext_iff]

theorem bytePlace_inj {t t' : ByteTarget} (h : bytePlace base t = bytePlace base t') :
    t.mode.still = t'.mode.still := by
  cases t with
  | register r =>
    cases t' with
    | register r' => rw [Register.byte.inj (registerPlace_inj h)]
    | memory a => exact absurd h (registerPlace_ne_memoryPlace _ _)
  | memory a =>
    cases t' with
    | register r => exact absurd h.symm (registerPlace_ne_memoryPlace _ _)
    | memory b =>
      have haddress : address base a = address base b := (String.append_right_inj _).1 h
      exact congrArg AddressingMode.indirect (address_inj haddress)

theorem loadAdjustments_steps (t : ByteTarget) (s : ByteSource) :
    loadAdjustments t s = s.mode.step?.toList ++ t.mode.step?.toList := by
  cases t <;> cases s <;>
    simp [loadAdjustments, ByteSource.mode, ByteTarget.mode, AddressingMode.step?, Address.adjustment_eq]

/-- The value of a word load's call. -/
def wordValue : WordSource → String
  | .pair p => readRegister p.accessor
  | .immediate => fetchWord
  | .stackOffset => "sp.wrapping_add(offset as i8 as i16 as u16)"

theorem wordValue_inj {s s' : WordSource} (h : wordValue s = wordValue s') : s = s' := by
  have hnodup : (WordSource.all.map wordValue).Nodup := by decide +kernel
  exact List.inj_on_of_nodup_map hnodup s.mem_all s'.mem_all h

theorem comma_not_mem_wordValue (s : WordSource) : ',' ∉ (wordValue s).toList := by
  have hall : ∀ s ∈ WordSource.all, ',' ∉ (wordValue s).toList := by decide +kernel
  exact hall s s.mem_all

theorem wordPlace_inj {t t' : WordTarget} (h : wordPlace t = wordPlace t') : t = t' := by
  have hnodup : (WordTarget.all.map wordPlace).Nodup := by decide +kernel
  exact List.inj_on_of_nodup_map hnodup t.mem_all t'.mem_all h

theorem getLast?_wordLoad (place : String) (s : WordSource) :
    (wordLoad place s).getLast? = some ("self.ld_word(" ++ wordValue s ++ ", " ++ place ++ ");") := by
  have hoffset : "self.ld_word(" ++ wordValue .stackOffset ++ ", " =
      "self.ld_word(sp.wrapping_add(offset as i8 as i16 as u16), " := by decide +kernel
  cases s with
  | pair p | immediate => rfl
  | stackOffset =>
    rw [hoffset]
    rfl

theorem wordLoad_inj {t t' : WordTarget} {s s' : WordSource}
    (h : wordLoad (wordPlace t) s = wordLoad (wordPlace t') s') : t = t' ∧ s = s' := by
  have hcall := congrArg List.getLast? h
  rw [getLast?_wordLoad, getLast?_wordLoad, Option.some_inj] at hcall
  obtain ⟨hvalue, hplace⟩ := call_inj (comma_not_mem_wordValue s) (comma_not_mem_wordValue s') hcall
  exact ⟨wordPlace_inj hplace, wordValue_inj hvalue⟩

theorem byteLoad_ne_wordLoad (v w : String) (moves : List String) (place : String) (s : WordSource) :
    ("self.ld_byte(" ++ v ++ ", " ++ w ++ ");") :: moves ≠ wordLoad place s := by
  cases s <;> simp [wordLoad, stackOffsetLoad, String.ext_iff]

end Code

namespace Operation

open AddressingMode

variable {base : UInt16} {o o' : Operation} {m m' : AddressingMode × AddressingMode}

theorem eq_or_crossed_of_statements (hm : o.modes? = some m) (hm' : o'.modes? = some m')
    (h : (o.code base).statements = (o'.code base).statements) : m = m' ∨ Crossed m m' := by
  cases o with
  | loadByte t s =>
    cases hm
    cases o' with
    | loadByte t' s' =>
      cases hm'
      obtain ⟨hcall, hmoves⟩ := List.cons.inj h
      obtain ⟨hvalue, hplace⟩ := Code.call_inj (Code.comma_not_mem_byteValue s) (Code.comma_not_mem_byteValue s') hcall
      rw [Code.loadAdjustments_steps, Code.loadAdjustments_steps] at hmoves
      exact eq_or_crossed (Code.bytePlace_inj hplace) (Code.byteValue_inj hvalue) hmoves
    | loadWord t' s' => exact absurd h (Code.byteLoad_ne_wordLoad _ _ _ _ _)
    | _ => cases hm'
  | loadWord t s =>
    cases hm
    cases o' with
    | loadByte t' s' => exact absurd h.symm (Code.byteLoad_ne_wordLoad _ _ _ _ _)
    | loadWord t' s' =>
      cases hm'
      obtain ⟨rfl, rfl⟩ := Code.wordLoad_inj h
      exact .inl rfl
    | _ => cases hm'
  | _ => cases hm

/-- A place is read and written by the same text, whether its pair moves or not. -/
theorem code_twin (base : UInt16) {p : RegisterPair} {a : Address} (ha : a ∈ [Address.increment p, .decrement p]) :
    (loadByte (.memory a) (.memory (.pair p))).code base = (loadByte (.memory (.pair p)) (.memory a)).code base := by
  simp only [List.mem_cons, List.not_mem_nil, or_false] at ha
  rcases ha with rfl | rfl <;> rfl

theorem code_crossed (hm : o.modes? = some m) (hm' : o'.modes? = some m') (h : Crossed m m') :
    o.code base = o'.code base := by
  have hmodes : ∀ a b : Address, (loadByte (.memory a) (.memory b)).modes? = some (indirect a, indirect b) :=
    fun _ _ => rfl
  obtain ⟨rfl, p, a, ha, rfl | rfl⟩ := h
  · obtain rfl := modes?_inj hm (hmodes a (.pair p))
    obtain rfl := modes?_inj hm' (hmodes (.pair p) a)
    exact code_twin base ha
  · obtain rfl := modes?_inj hm (hmodes (.pair p) a)
    obtain rfl := modes?_inj hm' (hmodes a (.pair p))
    exact (code_twin base ha).symm

theorem statements_eq_iff (hm : o.modes? = some m) (hm' : o'.modes? = some m') :
    (o.code base).statements = (o'.code base).statements ↔ m = m' ∨ Crossed m m' := by
  refine ⟨eq_or_crossed_of_statements hm hm', ?_⟩
  rintro (rfl | h)
  · rw [modes?_inj hm hm']
  · rw [code_crossed hm hm' h]

end Operation

/-! ### Arms of loads -/

namespace Arm

open AddressingMode (Crossed)

variable {s : Settings} {r r' : Record} {a a' : Arm}

theorem modes_of_load (hr : r.IsLoad) (h : ofRecord s r = .ok a) :
    ∃ (o : Operation) (m : AddressingMode × AddressingMode),
      a.statements = (o.code s.highMemoryBase).statements ∧ o.modes? = some m ∧ r.HasModes m := by
  have hfamily : Family.ofMnemonic r.mnemonic = .load := by
    rw [@Family.ofMnemonic_eq r.mnemonic .load nofun]
    simpa [Family.table, Record.IsLoad] using hr
  obtain ⟨o, cost, ho, -, rfl⟩ := ofRecord_eq_ok h
  rw [Operation.ofRecord, hfamily] at ho
  obtain ⟨m, hm, hmodes⟩ := Operation.modes_ofLoad ho
  exact ⟨o, m, rfl, hm, hmodes⟩

/-- Loads with the same statements have operands of the same modes, unless they are twins; and twins do have the
same statements. -/
theorem operands_of_load (hr : r.IsLoad) (hr' : r'.IsLoad) (h : ofRecord s r = .ok a) (h' : ofRecord s r' = .ok a') :
    ∃ m m', r.HasModes m ∧ r'.HasModes m' ∧ (a.statements = a'.statements ↔ m = m' ∨ Crossed m m') := by
  obtain ⟨o, m, hstatements, hm, hmodes⟩ := modes_of_load hr h
  obtain ⟨o', m', hstatements', hm', hmodes'⟩ := modes_of_load hr' h'
  refine ⟨m, m', hmodes, hmodes', ?_⟩
  rw [hstatements, hstatements']
  exact Operation.statements_eq_iff hm hm'

theorem operands_of_twins :
    let r : Record := ⟨0, 1, "LD", "(HL+),(HL)", "1", "8", "- - - -"⟩
    let r' : Record := ⟨0, 1, "ld", "(HL),(HL+)", "1", "8", "- - - -"⟩
    ∃ a a', ofRecord {} r = .ok a ∧ ofRecord {} r' = .ok a' ∧ a.statements = a'.statements ∧
      ∃ m m', r.HasModes m ∧ r'.HasModes m' ∧ (a.statements = a'.statements ↔ m = m' ∨ Crossed m m') := by
  intro r r'
  let a : Arm := ⟨0, .code, ["self.ld_byte(self.mmu.read_byte(self.regs.hl()), None, self.regs.hl());",
    "self.regs.set_hl(self.regs.hl().wrapping_add(1));"], none, "2"⟩
  have ha : ofRecord {} r = .ok a := by decide +kernel
  have ha' : ofRecord {} r' = .ok a := by decide +kernel
  exact ⟨a, a, ha, ha', rfl, operands_of_load (by decide) (by decide) ha ha'⟩

end Arm
end OpcodeDispatch
