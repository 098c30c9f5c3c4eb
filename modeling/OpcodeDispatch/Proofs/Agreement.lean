import OpcodeDispatch.Listing.Basic
import OpcodeDispatch.Proofs.Exactness

/-!
The listing of a table beside the strict run over it. Both make the same arms of the same entries, but
the listing reads the flags of every record as well, after the record's arm is made. So it fails where
the run does, or before that at the first flags line that is not well formed.
-/

namespace OpcodeDispatch

open Run (arms fault?)

variable {s : Settings} {answers : List (Except Fault Entry)} {answer : Except Fault Entry}
  {e : Entry} {a : Arm} {l : ListedOpcode} {r : Record} {op : Opcode} {f : Fault}

/-! ### One entry -/

theorem Arm.orDiagnostic_strict (hs : s.isLenient = false) (e : Entry) : orDiagnostic s e = ofEntry s e := by
  unfold orDiagnostic
  cases ofEntry s e with
  | ok a => rfl
  | error f => simp [hs]

namespace ListedOpcode

/-- What a listing shows of an entry and its arm. -/
inductive Shows (s : Settings) : Entry → Arm → ListedOpcode → Prop
  | reserved {op : Opcode} (hop : op ∈ s.reserved) :
    Shows s ⟨op, .reserved⟩ (.undefined op) (.ofReserved op (.undefined op))
  | record {op : Opcode} {r : Record} {a : Arm} {ticks : CycleCost} {flags : FlagEffects} (hop : op ∉ s.reserved)
      (ha : a.opcode = op) (hticks : CycleCost.parse? r.cycleToken = some ticks)
      (hflags : FlagEffects.parse? r.flags = some flags)
      (hcost : a.cost = Arm.costText s.costStyle a.branch.isSome (ticks.scaleDown s.divisor)) :
    Shows s ⟨op, .record r⟩ a (.ofParts op r ticks (ticks.scaleDown s.ticksPerCycle) flags a)

theorem Shows.opcode (h : Shows s e a l) : l.opcode = a.opcode := by
  cases h with
  | reserved => rfl
  | record _ ha => exact ha.symm

theorem Shows.arm (h : Shows s e a l) : l.arm = a.render := by
  cases h <;> rfl

theorem Shows.reserved_iff (h : Shows s e a l) : l.reserved = true ↔ l.opcode ∈ s.reserved := by
  cases h with
  | reserved hop => exact iff_of_true rfl hop
  | record hop => exact iff_of_false Bool.false_ne_true hop

theorem ofEntry_error (h : Arm.ofEntry s e = .error f) : ofEntry s e = .error f := by
  rw [ofEntry, h]
  rfl

/-- A record whose arm can be made is listed, unless its flags line is not well formed. -/
theorem ofEntry_record (hr : TableReader.SlotRead s.reservedSet op (.record r)) (h : Arm.ofRecord s r = .ok a) :
    (FlagEffects.parse? r.flags = none ∧ ofEntry s ⟨op, .record r⟩ = .error (.badFlags r.flags)) ∨
      (FlagEffects.parse? r.flags).isSome = true ∧
        ∃ l, ofEntry s ⟨op, .record r⟩ = .ok l ∧ Shows s ⟨op, .record r⟩ a l := by
  obtain ⟨ticks, hticks, hcost⟩ := Arm.ofRecord_cost h
  have hop : a.opcode = op := (Arm.Fits.code hr h).opcode
  have hlisted : ofEntry s ⟨op, .record r⟩ = ofRecord s op r a := by
    have harm : Arm.ofEntry s ⟨op, .record r⟩ = .ok a := h
    rw [ofEntry, harm]
    rfl
  have hcostOk : r.cost = .ok ticks := by rw [Record.cost, hticks]
  rw [hlisted, ofRecord, hcostOk]
  cases hflags : FlagEffects.parse? r.flags with
  | none =>
    have hbad : r.flagEffects = .error (.badFlags r.flags) := by rw [Record.flagEffects, hflags]
    rw [hbad]
    exact .inl ⟨rfl, rfl⟩
  | some fx =>
    have hok : r.flagEffects = .ok fx := by rw [Record.flagEffects, hflags]
    have hnot : op ∉ s.reserved := fun hmem => hr.not_mem (OpcodeSet.mem_ofList.2 hmem)
    rw [hok]
    exact .inr ⟨rfl, _, rfl, .record hnot hop hticks hflags hcost⟩

end ListedOpcode

namespace Listing

/-! ### The flags of the records -/

/-- Every record among the first `n` answers has a flags line that is well formed. -/
def FlagsRead (answers : List (Except Fault Entry)) (n : Nat) : Prop :=
  ∀ i < n, ∀ op r, answers[i]? = some (.ok ⟨op, .record r⟩) → (FlagEffects.parse? r.flags).isSome = true

theorem flagsRead_zero : FlagsRead answers 0 := nofun

theorem FlagsRead.cons {n : Nat} (h : FlagsRead answers n)
    (ha : ∀ op r, answer = .ok ⟨op, .record r⟩ → (FlagEffects.parse? r.flags).isSome = true) :
    FlagsRead (answer :: answers) (n + 1) := by
  intro i hi op r hr
  cases i with
  | zero => exact ha op r (Option.some.inj hr)
  | succ i => exact h i (Nat.lt_of_succ_lt_succ hi) op r hr

/-- Entries, their arms and what is listed of them, one by one. -/
inductive Listed (s : Settings) : List (Except Fault Entry) → List Arm → List ListedOpcode → Prop
  | nil : Listed s [] [] []
  | cons {e : Entry} {a : Arm} {l : ListedOpcode} {answers : List (Except Fault Entry)} {as : List Arm}
      {ls : List ListedOpcode} (hl : ListedOpcode.Shows s e a l) (h : Listed s answers as ls) :
      Listed s (.ok e :: answers) (a :: as) (l :: ls)

section

variable {as : List Arm} {ls : List ListedOpcode} (h : Listed s answers as ls)

include h

theorem Listed.arms : ls.map (·.arm) = as.map Arm.render := by
  induction h with
  | nil => rfl
  | cons hl h ih => rw [List.map_cons, List.map_cons, hl.arm, ih]

theorem Listed.length_eq : ls.length = as.length := by
  simpa using congrArg List.length h.arms

theorem Listed.shows {i : Nat} (hl : ls[i]? = some l) :
    ∃ e a, answers[i]? = some (.ok e) ∧ as[i]? = some a ∧ ListedOpcode.Shows s e a l := by
  induction h generalizing i with
  | nil => cases hl
  | cons hshows h ih =>
    cases i with
    | zero =>
      cases hl
      exact ⟨_, _, rfl, rfl, hshows⟩
    | succ i => exact ih hl

end

/-! ### A listing and a run, answer by answer -/

/-- How the listing of some answers stands to the strict run over them. -/
inductive Beside (s : Settings) (answers : List (Except Fault Entry)) : Prop
  | listed {ls : List ListedOpcode} (h : Listed s answers (arms s answers) ls)
      (hl : ofAnswers s answers = .ok ls) (hf : fault? s answers = none)
      (hread : ∀ n, FlagsRead answers n)
  | rejected {i : Nat} {op : Opcode} {r : Record} (hi : i < (arms s answers).length)
      (hr : answers[i]? = some (.ok ⟨op, .record r⟩)) (hflags : FlagEffects.parse? r.flags = none)
      (hread : FlagsRead answers i) (hl : ofAnswers s answers = .error (.badFlags r.flags))
  | failed {f : Fault} (hf : fault? s answers = some f)
      (hread : FlagsRead answers (arms s answers).length) (hl : ofAnswers s answers = .error f)

theorem ofAnswers_ok (rest : List (Except Fault Entry)) (h : ListedOpcode.ofEntry s e = .ok l) :
    ofAnswers s (.ok e :: rest) = (ofAnswers s rest).map (l :: ·) := by
  rw [ofAnswers]
  simp only [bind, Except.bind, h]
  cases ofAnswers s rest <;> rfl

theorem ofAnswers_error (rest : List (Except Fault Entry)) (h : ListedOpcode.ofEntry s e = .error f) :
    ofAnswers s (.ok e :: rest) = .error f := by
  rw [ofAnswers]
  simp only [bind, Except.bind, h]

theorem Beside.cons (ha : Arm.orDiagnostic s e = .ok a) (hl : ListedOpcode.ofEntry s e = .ok l)
    (hshows : ListedOpcode.Shows s e a l)
    (hflags : ∀ r, e.slot = .record r → (FlagEffects.parse? r.flags).isSome = true)
    (h : Beside s answers) : Beside s (.ok e :: answers) := by
  have harms := Run.arms_ok answers ha
  have hfault := Run.fault?_ok answers ha
  have hlisting := ofAnswers_ok answers hl
  have hlength : (arms s (.ok e :: answers)).length = (arms s answers).length + 1 := by
    rw [harms, List.length_cons]
  have hhead : ∀ op r, (.ok e : Except Fault Entry) = .ok ⟨op, .record r⟩ →
      (FlagEffects.parse? r.flags).isSome = true := by
    intro op r he
    cases he
    exact hflags r rfl
  cases h with
  | listed h hls hf hread =>
    refine .listed (harms ▸ h.cons hshows) ?_ (hfault.trans hf) fun n => ?_
    · rw [hlisting, hls]
      rfl
    · cases n with
      | zero => exact flagsRead_zero
      | succ n => exact (hread n).cons hhead
  | rejected hi hr hbad hread hls =>
    rename_i i op r
    refine .rejected (i := i + 1) (by omega) hr hbad (hread.cons hhead) ?_
    rw [hlisting, hls]
    rfl
  | failed hf hread hls =>
    refine .failed (hfault.trans hf) (hlength ▸ hread.cons hhead) ?_
    rw [hlisting, hls]
    rfl

theorem beside {ph : Phase} (hs : s.isLenient = false) (h : Answers s.reservedSet false ph answers) :
    Beside s answers := by
  induction h with
  | entry hslot h ih =>
    rename_i op slot rest
    have hstrict := Arm.orDiagnostic_strict hs ⟨op, slot⟩
    cases ha : Arm.ofEntry s ⟨op, slot⟩ with
    | error f =>
      rw [ha] at hstrict
      refine .failed (Run.fault?_error rest hstrict) ?_ (ofAnswers_error rest (ListedOpcode.ofEntry_error ha))
      rw [Run.arms_error rest hstrict]
      exact flagsRead_zero
    | ok a =>
      rw [ha] at hstrict
      cases slot with
      | reserved =>
        cases ha
        cases hslot with
        | reserved hop =>
          exact ih.cons hstrict rfl (.reserved (OpcodeSet.mem_ofList.1 hop)) nofun
      | record r =>
        rcases ListedOpcode.ofEntry_record hslot ha with ⟨hbad, hl⟩ | ⟨hflags, l, hl, hshows⟩
        · refine .rejected (i := 0) ?_ rfl hbad flagsRead_zero (ofAnswers_error rest hl)
          rw [Run.arms_ok rest hstrict]
          exact Nat.succ_pos _
        · refine ih.cons hstrict hl hshows fun r' hr' => ?_
          cases hr'
          exact hflags
  | broken hf => exact .failed rfl flagsRead_zero rfl
  | early hop line => exact .failed rfl flagsRead_zero rfl
  | late line => exact .failed rfl flagsRead_zero rfl
  | complete => exact .listed .nil rfl rfl fun n i _ op r hr => nomatch hr

/-! ### Whole tables -/

/-- What the reader of a listing gives. -/
def answersOf (s : Settings) (table : List UInt8) : List (Except Fault Entry) :=
  (TableReader.ofTable table s.reservedSet false).all

/-- The flags line of `r` is the first that is not well formed, of the opcodes below `n`. -/
def FirstRejected (answers : List (Except Fault Entry)) (n : Nat) (r : Record) : Prop :=
  ∃ op : Opcode, op.val < n ∧ answers[op.val]? = some (.ok ⟨op, .record r⟩) ∧
    FlagEffects.parse? r.flags = none ∧ FlagsRead answers op.val

/-- Every component of a cost is divided, rounding down. -/
inductive Divided (d : UInt32) : CycleCost → CycleCost → Prop
  | fixed (n : UInt32) : Divided d (.fixed n) (.fixed (n / d))
  | conditional (t n : UInt32) : Divided d (.conditional t n) (.conditional (t / d) (n / d))

/-- A listing that covers a table, beside the run over the same table. -/
structure Covers (s : Settings) (table : List UInt8) (run : Run) (ls : List ListedOpcode) : Prop where
  succeeded : ∃ summary, run.result = .ok summary
  length : ls.length = 256
  opcode : ∀ i (l : ListedOpcode), ls[i]? = some l → l.opcode.val = i
  reserved : ∀ l ∈ ls, l.reserved = true ↔ l.opcode ∈ s.reserved
  output : run.output = String.join (ls.map (·.arm ++ "\n"))
  cycles : ∀ l ∈ ls, l.reserved = false → ∃ r ticks cycles,
    .ok ⟨l.opcode, .record r⟩ ∈ answersOf s table ∧ CycleCost.parse? r.cycleToken = some ticks ∧
    l.ticks = some ticks ∧ l.cycles = some cycles ∧ Divided s.ticksPerCycle ticks cycles
  cost : s.costStyle = .pair → ∀ l ∈ ls, l.reserved = false → ∃ a ∈ writtenArms s table, ∃ cycles,
    a.opcode = l.opcode ∧ a.render = l.arm ∧ l.cycles = some cycles ∧ a.cost = cycles.render

/-- How the listing of a table agrees with the strict run over it. A run that fails has come as far as
it has written lines: it fails at the answer with that number, whose flags do not count. -/
structure Agrees (s : Settings) (table : List UInt8) (run : Run)
    (listing : Except Fault (List ListedOpcode)) : Prop where
  listed : ∀ ls, listing = .ok ls → Covers s table run ls
  complete : ∀ summary, run.result = .ok summary →
    ((∃ ls, listing = .ok ls) ↔ FlagsRead (answersOf s table) 256)
  rejected : ∀ summary, run.result = .ok summary → ¬ FlagsRead (answersOf s table) 256 →
    ∃ r, FirstRejected (answersOf s table) 256 r ∧ listing = .error (.badFlags r.flags)
  failed : ∀ f, run.result = .error f → FlagsRead (answersOf s table) run.lines.length → listing = .error f
  failedRejected : ∀ f, run.result = .error f → ¬ FlagsRead (answersOf s table) run.lines.length →
    ∃ r, FirstRejected (answersOf s table) run.lines.length r ∧ listing = .error (.badFlags r.flags)
  failedAt : ∀ f, run.result = .error f → ∃ answer,
    (answersOf s table)[run.lines.length]? = some answer ∧ answer >>= Arm.ofEntry s = .error f

theorem divided_scaleDown (c : CycleCost) (d : UInt32) : Divided d c (c.scaleDown d) := by
  cases c with
  | fixed n => exact .fixed n
  | conditional t n => exact .conditional t n

section

variable {table : List UInt8}

theorem answersOf_eq (hs : s.isLenient = false) : Run.answers s table = answersOf s table := by
  rw [Run.answers, TableReader.ofSettings, hs]
  rfl

theorem answersOf_read (s : Settings) (table : List UInt8) :
    Answers s.reservedSet false (.entry .first) (answersOf s table) :=
  TableReader.all_read _ _ _

/-- A table that is listed has an arm for each opcode of the listing, and its strict run ends well. -/
theorem listed_of_ofTable (hs : s.isLenient = false) {ls : List ListedOpcode} (h : ofTable s table = .ok ls) :
    Listed s (answersOf s table) (writtenArms s table) ls ∧ endingFault? s table = none := by
  obtain ⟨u, hv, hls⟩ := bind_eq_ok h
  rw [writtenArms_valid hv, endingFault?_valid hv, answersOf_eq hs]
  cases beside hs (answersOf_read s table) with
  | listed hlisted hl hf hread =>
    cases hl.symm.trans hls
    exact ⟨hlisted, hf⟩
  | rejected hi hr hflags hread hl => cases hl.symm.trans hls
  | failed hf hread hl => cases hl.symm.trans hls

theorem covers (hv : s.validate = .ok ()) (hs : s.isLenient = false) {ls : List ListedOpcode}
    (h : Listed s (answersOf s table) (writtenArms s table) ls) (hf : endingFault? s table = none) :
    Covers s table (compile s table) ls := by
  have hlength := length_writtenArms hs hf
  constructor
  case succeeded =>
    rw [compile_eq, hf]
    exact ⟨_, rfl⟩
  case length => rw [h.length_eq, hlength]
  case opcode =>
    intro i l hl
    obtain ⟨e, a, -, ha, hshows⟩ := h.shows hl
    rw [hshows.opcode]
    exact opcode_of_getElem (writtenArms_opcodes s table) ha
  case reserved =>
    intro l hl
    obtain ⟨i, hl⟩ := List.getElem?_of_mem hl
    obtain ⟨e, a, -, -, hshows⟩ := h.shows hl
    exact hshows.reserved_iff
  case output =>
    have harms : ls.map (·.arm ++ "\n") = (ls.map (·.arm)).map (· ++ "\n") := by
      rw [List.map_map]
      rfl
    rw [compile_eq, Run.output_ofArms, harms, h.arms, List.map_map]
    rfl
  case cycles =>
    intro l hl hrecord
    obtain ⟨n, hl⟩ := List.getElem?_of_mem hl
    obtain ⟨e, a, he, -, hshows⟩ := h.shows hl
    cases hshows with
    | reserved => cases hrecord
    | record hop ha hticks hflags hcost =>
      exact ⟨_, _, _, List.mem_of_getElem? he, hticks, rfl, rfl, divided_scaleDown _ _⟩
  case cost =>
    intro hpair l hl hrecord
    obtain ⟨n, hl⟩ := List.getElem?_of_mem hl
    obtain ⟨e, a, -, ha, hshows⟩ := h.shows hl
    refine ⟨a, List.mem_of_getElem? ha, ?_⟩
    cases hshows with
    | reserved => cases hrecord
    | record hop hopcode hticks hflags hcost =>
      refine ⟨_, hopcode, rfl, rfl, ?_⟩
      rw [hcost, Settings.divisor_eq hv, Arm.costText, hpair]
      simp

theorem firstRejected {i n : Nat} (hi : i < n) (hr : (answersOf s table)[i]? = some (.ok ⟨op, .record r⟩))
    (hflags : FlagEffects.parse? r.flags = none) (hread : FlagsRead (answersOf s table) i) :
    FirstRejected (answersOf s table) n r := by
  obtain rfl : op.val = i := ((answersOf_read s table).opcode hr).trans (Nat.zero_add i)
  exact ⟨op, hi, hr, hflags, hread⟩

theorem FirstRejected.not_flagsRead {n : Nat} (h : FirstRejected answers n r) : ¬ FlagsRead answers n := by
  obtain ⟨op, hop, hr, hflags, -⟩ := h
  intro hread
  have hsome := hread op.val hop op r hr
  rw [hflags] at hsome
  cases hsome

theorem FirstRejected.mono {m n : Nat} (h : FirstRejected answers m r) (hmn : m ≤ n) : FirstRejected answers n r := by
  obtain ⟨op, hop, h⟩ := h
  exact ⟨op, Nat.lt_of_lt_of_le hop hmn, h⟩

end

/-- The listing of a table and the strict run over it agree. -/
theorem agrees_compile (hticks : 1 ≤ s.ticksPerCycle) (hstrict : s.strictness = .strict) (table : List UInt8) :
    Agrees s table (compile s table) (ofTable s table) := by
  have hv : s.validate = .ok () := by
    refine if_neg fun h => ?_
    rw [h] at hticks
    exact absurd hticks (by decide)
  have hs : s.isLenient = false := by
    rw [Settings.isLenient, hstrict]
    rfl
  have hlisting : ofTable s table = ofAnswers s (answersOf s table) := by
    rw [ofTable, hv]
    rfl
  have harms : writtenArms s table = arms s (answersOf s table) := by
    rw [writtenArms_valid hv, answersOf_eq hs]
  have hfault : endingFault? s table = fault? s (answersOf s table) := by
    rw [endingFault?_valid hv, answersOf_eq hs]
  have hlines : (compile s table).lines.length = (arms s (answersOf s table)).length := by
    rw [lines_compile, List.length_map, harms]
  have hle : (compile s table).lines.length ≤ 256 := by
    rw [hlines, ← harms]
    exact length_le_of_opcodes (writtenArms_opcodes s table)
  have hok : ∀ {summary}, (compile s table).result = .ok summary → fault? s (answersOf s table) = none := by
    intro summary h
    rw [compile_eq, Run.result_ofArms_ok, hfault] at h
    exact h.1
  have herror : ∀ {f}, (compile s table).result = .error f → fault? s (answersOf s table) = some f := by
    intro f h
    rwa [compile_eq, Run.result_ofArms_error, hfault] at h
  have hat : ∀ f, (compile s table).result = .error f → ∃ answer,
      (answersOf s table)[(compile s table).lines.length]? = some answer ∧ answer >>= Arm.ofEntry s = .error f := by
    intro f h
    rw [hlines, ← funext (Arm.orDiagnostic_strict hs)]
    exact Run.fault?_at (herror h)
  rw [hlisting]
  cases beside hs (answersOf_read s table) with
  | listed h hl hf hread =>
    rw [hl]
    constructor
    case listed =>
      intro ls hls
      cases hls
      exact covers hv hs (harms ▸ h) (hfault.trans hf)
    case complete => exact fun _ _ => iff_of_true ⟨_, rfl⟩ (hread 256)
    case rejected => exact fun _ _ h => absurd (hread 256) h
    case failed =>
      intro f hrun
      cases hf.symm.trans (herror hrun)
    case failedRejected =>
      intro f hrun
      cases hf.symm.trans (herror hrun)
    case failedAt => exact hat
  | rejected hi hr hflags hread hl =>
    have hfirst := firstRejected (hlines ▸ hi) hr hflags hread
    rw [hl]
    constructor
    case listed =>
      intro ls hls
      cases hls
    case complete =>
      intro _ _
      refine iff_of_false ?_ (hfirst.mono hle).not_flagsRead
      rintro ⟨ls, hls⟩
      cases hls
    case rejected => exact fun _ _ _ => ⟨_, hfirst.mono hle, rfl⟩
    case failed => exact fun f _ h => absurd h hfirst.not_flagsRead
    case failedRejected => exact fun f _ _ => ⟨_, hfirst, rfl⟩
    case failedAt => exact hat
  | failed hf hread hl =>
    rw [hl]
    constructor
    case listed =>
      intro ls hls
      cases hls
    case complete =>
      intro _ hrun
      cases hf.symm.trans (hok hrun)
    case rejected =>
      intro _ hrun
      cases hf.symm.trans (hok hrun)
    case failed =>
      intro f hrun _
      rw [Option.some.inj (hf.symm.trans (herror hrun))]
    case failedRejected => exact fun f _ h => absurd (hlines ▸ hread) h
    case failedAt => exact hat

/-- All opcodes but the first are reserved. -/
def sole : Settings := { reserved := Opcode.all.drop 1 }

/-- The record of a branch. -/
def branching : List UInt8 := bytesOfText "JR NZ,r8\n2  12/8\n- - - -\n"

/-- Two records, of which the first lacks a flag and the second an operand. -/
def flawed : List UInt8 := bytesOfText "NOP\n1  4\n- - -\n\nLD B\n1  4\n- - - -\n"

/-- A table that is listed; and one whose run fails at the second record, but its listing at the flags of the
first one. -/
theorem agrees_of_branching_and_flawed :
    ((1 ≤ sole.ticksPerCycle ∧ sole.strictness = .strict) ∧
      (∃ ls, ofTable sole branching = .ok ls ∧ Covers sole branching (compile sole branching) ls ∧
        (ls.map (·.cycles)).head? = some (some (.conditional 3 2))) ∧
      Agrees sole branching (compile sole branching) (ofTable sole branching)) ∧
    (1 ≤ Settings.default.ticksPerCycle ∧ Settings.default.strictness = .strict) ∧
      (compile .default flawed).result = .error (.missingOperand 1 "LD B") ∧
      ofTable .default flawed = .error (.badFlags "- - -") ∧
      Agrees .default flawed (compile .default flawed) (ofTable .default flawed) := by
  have hsole : 1 ≤ sole.ticksPerCycle := by decide
  have hagrees := agrees_compile hsole rfl branching
  have hlisted : ((ofTable sole branching).toOption.any fun ls =>
      (ls.map (·.cycles)).head? = some (some (.conditional 3 2))) = true := by decide +kernel
  have hticks : 1 ≤ Settings.default.ticksPerCycle := by decide
  have hrun : (compile .default flawed).result = .error (.missingOperand 1 "LD B") := by rfl
  have hlisting : ofTable .default flawed = .error (.badFlags "- - -") := by rfl
  refine ⟨⟨⟨hsole, rfl⟩, ?_, hagrees⟩, ⟨hticks, rfl⟩, hrun, hlisting, agrees_compile hticks rfl flawed⟩
  cases hls : ofTable sole branching with
  | error f =>
    rw [hls] at hlisted
    cases hlisted
  | ok ls =>
    rw [hls] at hlisted
    exact ⟨ls, rfl, hagrees.listed ls hls, of_decide_eq_true hlisted⟩

end Listing
end OpcodeDispatch
