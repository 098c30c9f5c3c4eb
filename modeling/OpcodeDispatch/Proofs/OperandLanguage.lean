import OpcodeDispatch.Proofs.Decoding
import OpcodeDispatch.Proofs.Spelling

/-!
The operands that an instruction can have, as texts. Each mnemonic has a `Shape`, and a record is
compiled exactly if its operands fit the shape of its mnemonic and its cycles can be read. What is
wrong with operands that do not fit shows in their number, except for a restart's token.
-/

namespace OpcodeDispatch

/-! ### The language -/

namespace Operand

def bytes : List String := ["A", "B", "C", "D", "E", "H", "L"]

def pairs : List String := ["AF", "BC", "DE", "HL", "SP"]

def words : List String := ["d16", "a16"]

/-- The places in memory at a pair's value. -/
def pairPlaces : List String := pairs.map fun p => "(" ++ p ++ ")"

def places : List String :=
  pairPlaces ++ (pairs.map fun p => "(" ++ p ++ "+)") ++ (pairs.map fun p => "(" ++ p ++ "-)") ++
    ["(a16)", "(a8)", "(C)"]

def byteSources : List String := bytes ++ ["d8"] ++ places

def conditions : List String := ["NZ", "Z", "NC", "C"]

end Operand

open Operand

/-- The shapes of operand lists. -/
inductive Shape where
  | load
  /-- one of these operands, before which a condition may stand -/
  | conditioned (operands : List String)
  /-- at most a condition -/
  | condition
  | one (operands : List String)
  | add
  /-- a source, before which the accumulator may stand -/
  | accumulate
  | restart
  | any
  deriving DecidableEq

namespace Shape

def Fits : Shape → List String → Prop
  | load, [dst, src] =>
    (dst ∈ bytes ++ places ∧ src ∈ byteSources) ∨ (dst ∈ pairs ∧ src ∈ pairs ++ words ++ ["SP+r8"]) ∨
      (dst = "(a16)" ∧ src ∈ pairs ++ ["SP+r8"])
  | conditioned operands, [o] => o ∈ operands
  | conditioned operands, [cc, o] => cc ∈ conditions ∧ o ∈ operands
  | condition, [] => True
  | condition, [cc] => cc ∈ conditions
  | one operands, [o] => o ∈ operands
  | add, [src] => src ∈ byteSources
  | add, [dst, src] =>
    (dst = "A" ∧ src ∈ byteSources) ∨ (dst = "HL" ∧ src ∈ pairs) ∨ (dst = "SP" ∧ src = "r8")
  | accumulate, [src] => src ∈ byteSources
  | accumulate, [dst, src] => dst = "A" ∧ src ∈ byteSources
  | restart, [token] => (Operation.restartTarget? token).isSome = true
  | any, _ => True
  | _, _ => False

/-- The fewest operands that fit. -/
def least : Shape → Nat
  | load => 2
  | conditioned _ | one _ | add | accumulate | restart => 1
  | condition | any => 0

/-- The most operands that fit, if there is a bound. -/
def most? : Shape → Option Nat
  | load | conditioned _ | add | accumulate => some 2
  | condition | one _ | restart => some 1
  | any => none

/-- Whether so many operands can fit. -/
def takes (shape : Shape) (n : Nat) : Bool := shape.least ≤ n && shape.most?.all (n ≤ ·)

/-- What is wrong with operands that do not fit. -/
inductive Blames (shape : Shape) (r : Record) : Fault → Prop
  | missing (h : r.operandList.length < shape.least) :
      Blames shape r (.missingOperand r.opcode r.instruction)
  | surplus {most : Nat} (hmost : shape.most? = some most) (h : most < r.operandList.length) :
      Blames shape r (.unsupportedOperand r.opcode r.instruction (",".intercalate (r.operandList.drop most)))
  | operand {o : String} (hshape : shape ≠ .restart) (h : shape.takes r.operandList.length = true)
      (ho : o ∈ r.operandList) : Blames shape r (.unsupportedOperand r.opcode r.instruction o)
  | restart {token : String} (hshape : shape = .restart) (h : r.operandList = [token]) :
      Blames shape r (.badRestart r.opcode token)

/-- The shapes of the mnemonics that restrict their operands. -/
def table : List (String × Shape) :=
  [("LD", load), ("LDH", load), ("JR", conditioned ["r8"]), ("RET", condition), ("RETI", condition),
   ("CALL", conditioned words), ("JP", conditioned (words ++ ["HL", "(HL)"])),
   ("INC", one (bytes ++ pairs ++ pairPlaces)), ("DEC", one (bytes ++ pairs ++ pairPlaces)),
   ("ADD", add), ("ADC", accumulate), ("SUB", accumulate), ("SBC", accumulate), ("AND", accumulate),
   ("OR", accumulate), ("XOR", accumulate), ("CP", accumulate), ("PUSH", one pairs), ("POP", one pairs),
   ("RST", restart), ("PREFIX", any)]

/-- The shape of a mnemonic in any case of ASCII letters. -/
def ofMnemonic (mnemonic : String) : Shape :=
  ((table.find? (·.1 == Text.upper mnemonic)).map (·.2)).getD any

end Shape

/-- The shape of a family's operand lists. -/
def Family.shape : Family → Shape
  | load => .load
  | relativeJump => .conditioned ["r8"]
  | ret => .condition
  | call => .conditioned words
  | jump => .conditioned (words ++ ["HL", "(HL)"])
  | increment | decrement => .one (bytes ++ pairs ++ pairPlaces)
  | add false => .add
  | add true | subtract _ | logic _ => .accumulate
  | push | pop => .one pairs
  | restart => .restart
  | extension | nullary => .any

theorem Shape.ofMnemonic_eq (mnemonic : String) : ofMnemonic mnemonic = (Family.ofMnemonic mnemonic).shape := by
  have htable : table = Family.table.map fun x => (x.1, x.2.shape) := rfl
  have hfind : Family.table.find? ((·.1 == Text.upper mnemonic) ∘ fun x => (x.1, x.2.shape)) =
      Family.table.find? (·.1 == Text.upper mnemonic) := rfl
  rw [ofMnemonic, Family.ofMnemonic, Family.find?, htable, List.find?_map, hfind]
  cases Family.table.find? (·.1 == Text.upper mnemonic) <;> rfl

/-! ### Texts and modes -/

theorem Record.trimmed_of_mem {r : Record} {o : String} (h : o ∈ r.operandList) : Text.Trimmed o := by
  unfold operandList at h
  split at h
  · cases h
  · obtain ⟨piece, -, rfl⟩ := List.mem_map.1 h
    exact Text.trimmed_trim piece

namespace AddressingMode

theorem spells_byteSources : Spells byteSources (·.byteSource?.isSome) := by decide +kernel

theorem spells_byteTargets : Spells (bytes ++ places) (·.byteTarget?.isSome) := by decide +kernel

theorem spells_wordSources : Spells (pairs ++ words ++ ["SP+r8"]) (·.wordSource?.isSome) := by
  decide +kernel

theorem spells_wordOnly : Spells (pairs ++ ["SP+r8"]) isWordOnly := by decide +kernel

theorem spells_pairs : Spells pairs (·.pairOf?.isSome) := by decide +kernel

theorem spells_jumpTargets : Spells (words ++ ["HL", "(HL)"]) (·.jumpTarget?.isSome) := by decide +kernel

theorem spells_stepTargets : Spells (bytes ++ pairs ++ pairPlaces) (·.stepTarget?.isSome) := by
  decide +kernel

theorem spells_words : Spells words (· = immediateWord) := by decide +kernel

theorem spells_offset : Spells ["r8"] (· = relativeByte) := by decide +kernel

theorem spells_absolute : Spells ["(a16)"] (· = indirect .absolute) := by decide +kernel

end AddressingMode

open AddressingMode

/-! ### Families -/

namespace Shape

variable {shape : Shape} {r : Record} {ops : List String}

/-- A judgement of a record's operands: an operation exactly if they fit. -/
inductive Judged (shape : Shape) (r : Record) : Except Fault Operation → Prop
  | fits (h : shape.Fits r.operandList) (o : Operation) : Judged shape r (.ok o)
  | misfits (h : ¬ shape.Fits r.operandList) {f : Fault} (hf : shape.Blames r f) : Judged shape r (.error f)

theorem Fits.takes (h : shape.Fits ops) : shape.takes ops.length = true := by
  unfold Fits at h
  split at h
  case h_13 => exact h.elim
  all_goals rfl

section

variable (hops : r.operandList = ops)

include hops

theorem judged_pure (h : shape.Fits ops) {o : Operation} : Judged shape r (pure o) := .fits (hops ▸ h) o

theorem judged_arityFault {most : Nat} (hmost : shape.most? = some most) (h : shape.takes ops.length = false) :
    Judged shape r (.error (r.arityFault most)) := by
  subst hops
  refine .misfits (fun hfits => ?_) ?_
  · rw [hfits.takes] at h
    cases h
  · simp only [takes, hmost, Option.all_some, Bool.and_eq_false_iff, decide_eq_false_iff_not] at h
    unfold Record.arityFault
    split
    · next hdrop =>
      rw [List.drop_eq_nil_iff] at hdrop
      exact .missing (by omega)
    · next hdrop =>
      rw [List.drop_eq_nil_iff] at hdrop
      exact .surplus hmost (Nat.lt_of_not_le hdrop)

end

/-- The operand `o` can be to blame: it is one of the operands of the record, which are as many as can
fit. -/
structure Suspect (shape : Shape) (r : Record) (ops : List String) (o : String) : Prop where
  operands : r.operandList = ops
  ne_restart : shape ≠ .restart
  takes : shape.takes ops.length = true
  mem : o ∈ ops

theorem Suspect.trimmed {o : String} (ho : Suspect shape r ops o) : Text.Trimmed o :=
  Record.trimmed_of_mem (ho.operands ▸ ho.mem)

section

variable {o : String} (ho : Suspect shape r ops o)

include ho

theorem judged_unsupported (h : ¬ shape.Fits ops) : Judged shape r (.error (r.unsupported o)) := by
  obtain ⟨rfl, hshape, htakes, hmem⟩ := ho
  exact .misfits h (.operand hshape htakes hmem)

/-- A step that judges one operand: the operand is at fault when the step gives nothing, and that
cannot be where the operands fit. -/
theorem judged_require {x : Option α} {next : α → Except Fault Operation}
    (hnext : ∀ a, x = some a → Judged shape r (next a)) (hneeds : shape.Fits ops → x.isSome = true) :
    Judged shape r (r.require o x >>= next) := by
  cases x with
  | none =>
    refine judged_unsupported ho fun hfits => ?_
    cases hneeds hfits
  | some a => exact hnext a rfl

/-- The operand that is judged last decides. -/
theorem judged_last {texts : List String} {as? : AddressingMode → Option α} {make : α → Operation}
    (h : Spells texts fun m => (as? m).isSome) (hfits : shape.Fits ops ↔ o ∈ texts) :
    Judged shape r (r.operandAs as? o >>= fun a => pure (make a)) := by
  rw [Record.operandAs, bind_assoc]
  refine judged_require ho (fun m hm => ?_) fun hf => h.isSome (hfits.1 hf)
  have hmem := h.mem_iff ho.trimmed hm
  refine judged_require ho (fun a ha => ?_) fun hf => hmem.1 (hfits.1 hf)
  exact judged_pure ho.operands (hfits.2 (hmem.2 (by rw [ha]; rfl)))

theorem judged_condition {next : Condition → Except Fault Operation}
    (hnext : o ∈ conditions → ∀ cc, Judged shape r (next cc)) (hneeds : shape.Fits ops → o ∈ conditions) :
    Judged shape r (r.condition o >>= next) := by
  have hnames : conditions = Condition.all.map Condition.name := rfl
  refine judged_require ho (fun cc hcc => hnext ?_ cc) fun hfits => ?_
  · rw [Condition.ofName?_eq_some.1 hcc]
    cases cc <;> decide
  · have hmem := hneeds hfits
    rw [hnames] at hmem
    obtain ⟨cc, -, rfl⟩ := List.mem_map.1 hmem
    rw [Condition.ofName?_name]
    rfl

end

end Shape

namespace Operation

open Shape

variable {r : Record} {texts : List String}

theorem judged_ofUnary {as? : AddressingMode → Option α} (make : α → Operation)
    (h : Spells texts fun m => (as? m).isSome) : Judged (.one texts) r (ofUnary r as? make) := by
  rcases hops : r.operandList with _ | ⟨o, _ | ⟨o', rest⟩⟩ <;> simp only [ofUnary, hops]
  · exact judged_arityFault hops rfl rfl
  · exact judged_last ⟨hops, by nofun, by rfl, by simp⟩ h Iff.rfl
  · exact judged_arityFault hops rfl rfl

theorem judged_ofConditioned {as? : AddressingMode → Option α} (make : α → Option Condition → Operation)
    (h : Spells texts fun m => (as? m).isSome) : Judged (.conditioned texts) r (ofConditioned r as? make) := by
  rcases hops : r.operandList with _ | ⟨o, _ | ⟨o', _ | ⟨o'', rest⟩⟩⟩ <;> simp only [ofConditioned, hops]
  · exact judged_arityFault hops rfl rfl
  · exact judged_last ⟨hops, by nofun, by rfl, by simp⟩ h Iff.rfl
  · refine judged_condition ⟨hops, by nofun, by rfl, by simp⟩ (fun hcc cc => ?_) fun hfits => hfits.1
    exact judged_last ⟨hops, by nofun, by rfl, by simp⟩ h (and_iff_right hcc)
  · exact judged_arityFault hops rfl rfl

theorem judged_ofRet : Judged .condition r (ofRet r) := by
  rcases hops : r.operandList with _ | ⟨cc, _ | ⟨cc', rest⟩⟩ <;> simp only [ofRet, hops]
  · apply judged_pure hops
    exact trivial
  · refine judged_condition ⟨hops, by nofun, by rfl, by simp⟩ (fun hcc c => ?_) fun hfits => hfits
    apply judged_pure hops
    exact hcc
  · exact judged_arityFault hops rfl rfl

theorem judged_ofAccumulate (make : ByteSource → Operation) : Judged .accumulate r (ofAccumulate r make) := by
  rcases hops : r.operandList with _ | ⟨dst, _ | ⟨src, _ | ⟨o, rest⟩⟩⟩ <;> simp only [ofAccumulate, hops]
  · exact judged_arityFault hops rfl rfl
  · exact judged_last ⟨hops, by nofun, by rfl, by simp⟩ spells_byteSources Iff.rfl
  · split
    · next hdst =>
      exact judged_last ⟨hops, by nofun, by rfl, by simp⟩ spells_byteSources (and_iff_right hdst)
    · next hdst => exact judged_unsupported ⟨hops, by nofun, by rfl, by simp⟩ fun hfits => hdst hfits.1
  · exact judged_arityFault hops rfl rfl

theorem judged_ofRestart : Judged .restart r (ofRestart r) := by
  rcases hops : r.operandList with _ | ⟨token, _ | ⟨o, rest⟩⟩ <;> simp only [ofRestart, hops]
  · exact judged_arityFault hops rfl rfl
  · split
    · next htarget =>
      apply judged_pure hops
      rw [Fits, htarget]
      rfl
    · next htarget =>
      refine .misfits ?_ (.restart rfl hops)
      rw [hops, Fits, htarget]
      exact Bool.false_ne_true
  · exact judged_arityFault hops rfl rfl

/-! ### Loads -/

/-- The pairs of modes that a load takes, however it is told what moves. -/
theorem load_modes (t s : AddressingMode) :
    ((t.byteTarget?.isSome = true ∧ s.byteSource?.isSome = true) ∨
      (t.pairOf?.isSome = true ∧ s.wordSource?.isSome = true) ∨
      (t = .indirect .absolute ∧ s.isWordOnly = true)) ↔
    if t.isPair || s.isWordOnly then t.wordTarget?.isSome = true ∧ s.wordSource?.isSome = true
    else s.byteSource?.isSome = true ∧ t.byteTarget?.isSome = true := by
  revert t s
  decide +kernel

section

variable {dst src : String}

theorem fits_load {t s : AddressingMode} (hdst : Text.Trimmed dst) (hsrc : Text.Trimmed src)
    (ht : parse? dst = some t) (hs : parse? src = some s) : Shape.load.Fits [dst, src] ↔
    if t.isPair || s.isWordOnly then t.wordTarget?.isSome = true ∧ s.wordSource?.isSome = true
    else s.byteSource?.isSome = true ∧ t.byteTarget?.isSome = true := by
  have habsolute := spells_absolute.mem_iff hdst ht
  rw [List.mem_singleton, decide_eq_true_iff] at habsolute
  rw [Fits, spells_byteTargets.mem_iff hdst ht, spells_byteSources.mem_iff hsrc hs, spells_pairs.mem_iff hdst ht,
    spells_wordSources.mem_iff hsrc hs, habsolute, spells_wordOnly.mem_iff hsrc hs]
  exact load_modes t s

theorem parse?_of_fits_load (h : Shape.load.Fits [dst, src]) :
    (parse? dst).isSome = true ∧ (parse? src).isSome = true := by
  rcases h with ⟨hdst, hsrc⟩ | ⟨hdst, hsrc⟩ | ⟨hdst, hsrc⟩
  · exact ⟨spells_byteTargets.isSome hdst, spells_byteSources.isSome hsrc⟩
  · exact ⟨spells_pairs.isSome hdst, spells_wordSources.isSome hsrc⟩
  · exact ⟨spells_absolute.isSome (List.mem_singleton.2 hdst), spells_wordOnly.isSome hsrc⟩

end

theorem judged_ofLoad : Judged .load r (ofLoad r) := by
  rcases hops : r.operandList with _ | ⟨dst, _ | ⟨src, _ | ⟨o, rest⟩⟩⟩ <;> simp only [ofLoad, hops]
  · exact judged_arityFault hops rfl rfl
  · exact judged_arityFault hops rfl rfl
  · have hdst : Shape.load.Suspect r [dst, src] dst := ⟨hops, by nofun, rfl, by simp⟩
    have hsrc : Shape.load.Suspect r [dst, src] src := ⟨hops, by nofun, rfl, by simp⟩
    refine judged_require hdst (fun t ht => ?_) fun h => (parse?_of_fits_load h).1
    refine judged_require hsrc (fun s hs => ?_) fun h => (parse?_of_fits_load h).2
    have hfits := fits_load hdst.trimmed hsrc.trimmed ht hs
    split
    · next hword =>
      rw [if_pos hword] at hfits
      refine judged_require hdst (fun t' ht' => ?_) fun h => (hfits.1 h).1
      refine judged_require hsrc (fun s' hs' => ?_) fun h => (hfits.1 h).2
      apply judged_pure hops
      exact hfits.2 ⟨by rw [ht']; rfl, by rw [hs']; rfl⟩
    · next hword =>
      rw [if_neg hword] at hfits
      refine judged_require hsrc (fun s' hs' => ?_) fun h => (hfits.1 h).1
      refine judged_require hdst (fun t' ht' => ?_) fun h => (hfits.1 h).2
      apply judged_pure hops
      exact hfits.2 ⟨by rw [hs']; rfl, by rw [ht']; rfl⟩
  · exact judged_arityFault hops rfl rfl

/-! ### Additions -/

section

variable {dst src : String}

theorem fits_add_a : Shape.add.Fits ["A", src] ↔ src ∈ byteSources := by simp [Fits]

theorem fits_add_hl : Shape.add.Fits ["HL", src] ↔ src ∈ pairs := by simp [Fits]

theorem fits_add_sp : Shape.add.Fits ["SP", src] ↔ src ∈ ["r8"] := by simp [Fits]

/-- What stands before the source of an addition. -/
theorem parse?_of_fits_add (h : Shape.add.Fits [dst, src]) : parse? dst = some (.register (.byte .a)) ∨
    parse? dst = some (.register (.pair .hl)) ∨ parse? dst = some (.register (.pair .sp)) := by
  rcases h with ⟨rfl, -⟩ | ⟨rfl, -⟩ | ⟨rfl, -⟩ <;> decide

end

theorem judged_ofAdd : Judged .add r (ofAdd r false) := by
  rcases hops : r.operandList with _ | ⟨dst, _ | ⟨src, _ | ⟨o, rest⟩⟩⟩ <;> simp only [ofAdd, hops]
  · exact judged_arityFault hops rfl rfl
  · exact judged_last ⟨hops, by nofun, by rfl, by simp⟩ spells_byteSources Iff.rfl
  · have hdst : Shape.add.Suspect r [dst, src] dst := ⟨hops, by nofun, rfl, by simp⟩
    have hsrc : Shape.add.Suspect r [dst, src] src := ⟨hops, by nofun, rfl, by simp⟩
    refine judged_require hdst (fun m hm => ?_) fun hfits => ?_
    · have hname := (parse?_trimmed hdst.trimmed).1 hm
      split
      · cases List.mem_singleton.1 hname
        exact judged_last hsrc spells_byteSources fits_add_a
      · cases List.mem_singleton.1 hname
        exact judged_last hsrc spells_pairs fits_add_hl
      · cases List.mem_singleton.1 hname
        rw [← bind_pure (r.operandAs _ src)]
        exact judged_last hsrc (spells_offset.only _) fits_add_sp
      · next ha hhl hsp =>
        refine judged_unsupported hdst fun hfits => ?_
        rcases parse?_of_fits_add hfits with h | h | h <;> cases hm.symm.trans h
        · exact ha rfl
        · exact hhl rfl rfl
        · exact hsp rfl rfl
    · rcases parse?_of_fits_add hfits with h | h | h <;> rw [h] <;> rfl
  · exact judged_arityFault hops rfl rfl

/-- With the carry, only the accumulator is added to. -/
theorem ofAdd_carry (r : Record) : ofAdd r true = ofAccumulate r (.addByte true) := by
  rcases hops : r.operandList with _ | ⟨dst, _ | ⟨src, _ | ⟨o, rest⟩⟩⟩ <;> simp only [ofAdd, ofAccumulate, hops]
  have hdst : Text.Trimmed dst := Record.trimmed_of_mem (hops ▸ List.mem_cons_self)
  have hname : dst = "A" ↔ parse? dst = some (.register (.byte .a)) := by
    rw [parse?_trimmed hdst]
    exact List.mem_singleton.symm
  rw [Record.mode]
  split
  · next ha =>
    simp only [hname.1 ha, Record.require, bind, Except.bind]
  · next ha =>
    cases hm : parse? dst with
    | none => rfl
    | some m =>
      simp only [Record.require, bind, Except.bind]
      split
      · exact absurd (hname.2 hm) ha
      · next h => cases h
      · next h => cases h
      · rfl

theorem judged_ofAdd_carry : Judged .accumulate r (ofAdd r true) := by
  rw [ofAdd_carry]
  exact judged_ofAccumulate _

/-! ### Records -/

theorem judged_ofRecord (r : Record) : Judged (Shape.ofMnemonic r.mnemonic) r (ofRecord r) := by
  rw [Shape.ofMnemonic_eq, ofRecord]
  cases Family.ofMnemonic r.mnemonic with
  | load => exact judged_ofLoad
  | relativeJump => exact judged_ofConditioned _ (spells_offset.only _)
  | ret => exact judged_ofRet
  | call => exact judged_ofConditioned _ (spells_words.only _)
  | jump => exact judged_ofConditioned _ spells_jumpTargets
  | increment | decrement => exact judged_ofUnary _ spells_stepTargets
  | add carry =>
    cases carry with
    | false => exact judged_ofAdd
    | true => exact judged_ofAdd_carry
  | subtract carry => exact judged_ofAccumulate _
  | logic op => exact judged_ofAccumulate _
  | push | pop => exact judged_ofUnary _ spells_pairs
  | restart => exact judged_ofRestart
  | extension | nullary =>
    apply Judged.fits
    exact trivial

end Operation

/-! ### Arms -/

namespace Arm

variable {s : Settings} {r : Record} {o : Operation} {f : Fault}

theorem ofRecord_of_error (h : Operation.ofRecord r = .error f) : ofRecord s r = .error f := by
  rw [ofRecord, h]
  rfl

theorem ofRecord_of_cost {c : CycleCost} (h : Operation.ofRecord r = .ok o)
    (hc : CycleCost.parse? r.cycleToken = some c) : ∃ a, ofRecord s r = .ok a := by
  have hcost : r.cost = .ok c := by rw [Record.cost, hc]
  have hrender (branch : Bool) : renderCost s r branch = .ok (costText s.costStyle branch (c.scaleDown s.divisor)) := by
    rw [renderCost, hcost]
    rfl
  rw [ofRecord, h]
  simp only [bind, Except.bind, hrender]
  exact ⟨_, rfl⟩

theorem ofRecord_of_badCycles (h : Operation.ofRecord r = .ok o) (hc : CycleCost.parse? r.cycleToken = none) :
    ofRecord s r = .error (.badCycles r.opcode r.cycleToken) := by
  have hcost : r.cost = .error (.badCycles r.opcode r.cycleToken) := by rw [Record.cost, hc]
  rw [ofRecord, h]
  change renderCost s r _ >>= _ = _
  rw [renderCost, hcost]
  rfl

end Arm

/-- When a record has an arm, and its fault when it has none. -/
structure Shape.Decides (shape : Shape) (s : Settings) (r : Record) : Prop where
  accepts : (∃ a, Arm.ofRecord s r = .ok a) ↔
    shape.Fits r.operandList ∧ (CycleCost.parse? r.cycleToken).isSome = true
  misfit : ¬ shape.Fits r.operandList → ∃ f, Arm.ofRecord s r = .error f ∧ shape.Blames r f
  badCycles : shape.Fits r.operandList → CycleCost.parse? r.cycleToken = none →
    Arm.ofRecord s r = .error (.badCycles r.opcode r.cycleToken)

/-- A record is accepted exactly if its operands fit the shape of its mnemonic and its cycles can be
read; the operands are judged first. -/
theorem Shape.decides_ofMnemonic (s : Settings) (r : Record) : (ofMnemonic r.mnemonic).Decides s r := by
  have hjudged := Operation.judged_ofRecord r
  generalize hop : Operation.ofRecord r = judgement at hjudged
  cases hjudged with
  | fits hfits o =>
    cases hparse : CycleCost.parse? r.cycleToken with
    | some c =>
      have haccepted := Arm.ofRecord_of_cost (s := s) hop hparse
      constructor
      case accepts => exact iff_of_true haccepted ⟨hfits, by rw [hparse]; rfl⟩
      case misfit => exact fun h => absurd hfits h
      case badCycles => exact fun _ h => nomatch hparse.symm.trans h
    | none =>
      have herror := Arm.ofRecord_of_badCycles (s := s) hop hparse
      constructor
      case accepts =>
        rw [herror, hparse]
        exact ⟨nofun, fun h => nomatch h.2⟩
      case misfit => exact fun h => absurd hfits h
      case badCycles => exact fun _ _ => herror
  | misfits hfits hf =>
    have herror := Arm.ofRecord_of_error (s := s) hop
    constructor
    case accepts =>
      rw [herror]
      exact ⟨nofun, fun h => absurd h.1 hfits⟩
    case misfit => exact fun _ => ⟨_, herror, hf⟩
    case badCycles => exact fun h => absurd h hfits

end OpcodeDispatch
