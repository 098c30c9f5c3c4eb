import OpcodeDispatch.Command.Tool
import OpcodeDispatch.Proofs.CommandLines
import OpcodeDispatch.Proofs.ListingText
import OpcodeDispatch.Proofs.SettingsText
import OpcodeDispatch.Proofs.Strictness
import OpcodeDispatch.Proofs.Tallies

/-!
The verdicts of the command lines. On one table and one configuration that is strict, each of them
exits well exactly if the strict run over the table does, apart from what it says itself: a lenient
check lets a table run on, and a listing needs the flags as well.
-/

namespace OpcodeDispatch

/-- The run over the table ends well. -/
def Run.Ok (r : Run) : Prop := ∃ summary, r.result = .ok summary

/-- The flags of every record of the table can be read. -/
def FlagsRead (s : Settings) (table : List UInt8) : Prop :=
  ∀ op r, .ok ⟨op, .record r⟩ ∈ Run.answers s table → (FlagEffects.parse? r.flags).isSome = true

section

variable {s : Settings} {table : List UInt8}

theorem isLenient_of_strict (hs : s.strictness = .strict) : s.isLenient = false := by
  rw [Settings.isLenient, hs]
  rfl

theorem ok_iff : (compile s table).Ok ↔ endingFault? s table = none := by
  rw [Run.Ok, compile_eq]
  simp [Run.result_ofArms_ok]

theorem pieces_output : Text.pieces '\n' (compile s table).output = (compile s table).lines ++ [""] := by
  have hlines : ∀ l ∈ (writtenArms s table).map Arm.render, Text.IsLine l := by
    intro l hl
    obtain ⟨a, ha, rfl⟩ := List.mem_map.1 hl
    exact isLine_writtenArms s table a ha
  have hpieces := Text.pieces_ended hlines
  rw [List.map_map] at hpieces
  rw [lines_compile, compile_eq, Run.output_ofArms]
  exact hpieces

/-- A strict run that ends well has nothing to complain about. -/
theorem complaint_of_ok (hs : s.strictness = .strict) {summary : Summary}
    (h : (compile s table).result = .ok summary) : Command.Inspector.complaint summary = none := by
  have hlenient := isLenient_of_strict hs
  rw [compile_eq, Run.result_ofArms_ok] at h
  obtain ⟨hfault, rfl⟩ := h
  simp [Command.Inspector.complaint, Run.totals, length_writtenArms hlenient hfault,
    diagnostics_of_strict hlenient]

end

namespace Command

open Inspector (complaint)

/-! ### A lenient check -/

theorem complaint_eq_none {summary : Summary} :
    complaint summary = none ↔ summary.complete = true ∧ summary.diagnostics = 0 := by
  unfold complaint
  cases summary.complete <;> simp

/-- A run that a check accepts. -/
def Accepted (r : Run) : Prop := ∃ summary, r.result = .ok summary ∧ complaint summary = none

theorem accepted_ofArms {as : List Arm} {f? : Option Fault} : Accepted (.ofArms as f?) ↔
    f? = none ∧ as.length = 256 ∧ as.countP (·.kind = .diagnostic) = 0 := by
  simp only [Accepted, Run.result_ofArms_ok, complaint_eq_none]
  constructor
  · rintro ⟨summary, ⟨hf, rfl⟩, hcomplete, hdiagnostics⟩
    exact ⟨hf, of_decide_eq_true hcomplete, hdiagnostics⟩
  · rintro ⟨hf, hlength, hdiagnostics⟩
    exact ⟨_, ⟨hf, rfl⟩, decide_eq_true hlength, hdiagnostics⟩

theorem reached_eq {f : Fault} (hf : f.isLength = true) : f.reached = 256 ↔ ∃ line, f = .trailing line := by
  cases f with
  | endsEarly op line =>
    have hop := op.isLt
    simp only [Fault.reached, reduceCtorEq, exists_false, iff_false]
    omega
  | trailing line => simp [Fault.reached]
  | _ => cases hf

/-- Leniently a table is accepted if it is right, or right up to what follows the last opcode. -/
theorem accepted_lenient (s : Settings) (table : List UInt8) :
    Accepted (compile { s with strictness := .lenient } table) ↔
      (compile { s with strictness := .strict } table).Ok ∨
        ∃ line, (compile { s with strictness := .strict } table).result = .error (.trailing line) := by
  have hd := diagnostics_of_strict (s := { s with strictness := .strict }) rfl table
  have hlength := @length_writtenArms { s with strictness := .strict } table rfl
  rw [ok_iff, compile_eq, compile_eq, accepted_ofArms]
  simp only [Run.result_ofArms_error]
  cases hv : s.validate with
  | error f =>
    have hvS : Settings.validate { s with strictness := .strict } = .error f := hv
    have hvL : Settings.validate { s with strictness := .lenient } = .error f := hv
    rw [endingFault?_invalid hvS, endingFault?_invalid hvL]
    simp
  | ok u =>
    have hvS : Settings.validate { s with strictness := .strict } = .ok () := hv
    have hvL : Settings.validate { s with strictness := .lenient } = .ok () := hv
    rw [writtenArms_valid hvS] at hd
    rw [endingFault?_valid hvS, writtenArms_valid hvS] at hlength
    rw [endingFault?_valid hvS, endingFault?_valid hvL, writtenArms_valid hvL, answers_lenient]
    cases Run.compared (Run.answers_read { s with strictness := .strict } table) s with
    | alike harms hfault hf =>
      rw [harms, hfault]
      refine ⟨fun h => .inl h.1, fun h => ?_⟩
      rcases h with h | ⟨line, h⟩
      · exact ⟨h, hlength h, hd⟩
      · cases hf _ h
    | length hs hf harms hl hn =>
      rw [harms, hl, hs]
      simp only [Phase.index, show (Opcode.first : Opcode).val = 0 from rfl, Nat.zero_add] at hn
      rw [hn, hd, reached_eq hf]
      simp
    | diagnosed hs hf hop hn hr hrf harms =>
      obtain ⟨rest, harms⟩ := harms
      rw [hs, harms]
      refine iff_of_false (fun h => ?_) fun h => ?_
      · have hcount := h.2.2
        simp [Arm.diagnostic] at hcount
      · rcases h with h | ⟨line, h⟩
        · cases h
        · cases h
          cases hf

/-! ### Listings -/

section

variable {s : Settings} {table : List UInt8}

/-- There is a listing exactly if the run ends well and the flags can be read. -/
theorem listed_iff (hs : s.strictness = .strict) :
    (∃ ls, Listing.ofTable s table = .ok ls) ↔ (compile s table).Ok ∧ FlagsRead s table := by
  have hlenient := isLenient_of_strict hs
  rw [ok_iff]
  cases hv : s.validate with
  | error f =>
    rw [endingFault?_invalid hv, Listing.ofTable, hv]
    refine iff_of_false ?_ ?_
    · rintro ⟨ls, h⟩
      cases h
    · rintro ⟨h, -⟩
      cases h
  | ok u =>
    have hlisting : Listing.ofTable s table = Listing.ofAnswers s (Listing.answersOf s table) := by
      rw [Listing.ofTable, hv]
      rfl
    rw [hlisting, endingFault?_valid hv, FlagsRead, Listing.answersOf_eq hlenient]
    cases Listing.beside hlenient (Listing.answersOf_read s table) with
    | listed h hl hf hread =>
      refine iff_of_true ⟨_, hl⟩ ⟨hf, fun op r hr => ?_⟩
      obtain ⟨i, hi⟩ := List.getElem?_of_mem hr
      exact hread (i + 1) i (Nat.lt_succ_self i) op r hi
    | rejected hi hr hflags hread hl =>
      rw [hl]
      refine iff_of_false ?_ fun h => ?_
      · rintro ⟨ls, h⟩
        cases h
      · have hsome := h.2 _ _ (List.mem_of_getElem? hr)
        rw [hflags] at hsome
        cases hsome
    | failed hf hread hl =>
      rw [hl, hf]
      refine iff_of_false ?_ ?_
      · rintro ⟨ls, h⟩
        cases h
      · rintro ⟨h, -⟩
        cases h

/-- A listing has a line for every opcode, and its arms are the lines of the run. -/
theorem lines_of_listed (hs : s.strictness = .strict) {ls : List ListedOpcode} (h : Listing.ofTable s table = .ok ls) :
    ls.length = 256 ∧ ls.map (·.arm) = (compile s table).lines ∧ ∀ l ∈ ls, Text.IsLine l.columns := by
  have hlenient := isLenient_of_strict hs
  obtain ⟨hlisted, hfault⟩ := Listing.listed_of_ofTable hlenient h
  obtain ⟨u, hv, hls⟩ := bind_eq_ok h
  refine ⟨?_, ?_, Listing.isLine_columns hls⟩
  · rw [hlisted.length_eq, length_writtenArms hlenient hfault]
  · rw [hlisted.arms, lines_compile]

theorem pieces_listing (hs : s.strictness = .strict) {ls : List ListedOpcode} (h : Listing.ofTable s table = .ok ls)
    (arms : Bool) : Text.pieces '\n' (Listing.render arms ls) = Listing.lines arms ls ++ [""] := by
  obtain ⟨-, harms, hcolumns⟩ := lines_of_listed hs h
  refine Listing.pieces_render hcolumns fun l hl => ?_
  have hmem : l.arm ∈ (writtenArms s table).map Arm.render := by
    rw [← lines_compile, ← harms]
    exact List.mem_map_of_mem hl
  obtain ⟨a, ha, hrender⟩ := List.mem_map.1 hmem
  rw [← hrender]
  exact isLine_writtenArms s table a ha

end

/-! ### Command lines -/

variable (L : Library)

/-- The settings in a file that the command line names, or the defaults. -/
def Configured (w : World) (config : Option String) (s : Settings) : Prop :=
  match config with
  | none => s = Settings.default
  | some path => ∃ text, w.content path = .ok (.file (bytesOfText text)) ∧ Settings.parse L.deserializer text = .ok s

theorem loadSettings_of_configured {L : Library} {w : World} {config : Option String} {s : Settings}
    (h : Configured L w config s) : L.loadSettings w config = .ok s := by
  cases config with
  | none =>
    cases h
    rfl
  | some path =>
    obtain ⟨text, hcontent, hparse⟩ := h
    have hread : w.readText path = .ok text := by
      rw [World.readText, hcontent]
      simp [bind, Except.bind, Content.text, Line.ofBytes_bytesOfText]
    simp only [Library.loadSettings, hread, hparse]

/-- A strict configuration and the text of a table, in files of which the table's is named by a path. -/
structure Inputs (w : World) (config : Option String) (table : String) (s : Settings) (text : String) : Prop where
  settings : Configured L w config s
  strict : s.strictness = .strict
  content : w.content table = .ok (.file (bytesOfText text))

section

variable {L : Library} (hL : L.Documented) {w : World} {config : Option String} {table : String} {s : Settings}
  {text : String} (h : Inputs L w config table s text)

include hL h

theorem compiler_run (hplain : Plain table) {words : List String}
    (hwords : Compiler.Spelled {} words { config := config, table := some table }) :
    Compiler.run L w words = Compiler.outcome L (compile s (bytesOfText text)) := by
  have hargs := hL.compiler words _ table hwords rfl
  simp [Compiler.run, hargs, Compiler.execute, loadSettings_of_configured h.settings, Compiler.openTable,
    hplain.ne_dash, h.content, Content.lines, Compiler.adjust, compile]

theorem inspector_run {words : List String} {task : Inspector.Task}
    (hwords : Inspector.Spelled {} words ⟨config, table, task⟩) :
    Inspector.run L w words =
      match task with
      | .list format arms out => Inspector.list L w s table format arms out
      | .families format => Inspector.families L w s table format
      | .check lenient => Inspector.check L w s table lenient := by
  simp only [Inspector.run, hL.inspector words _ hwords, Inspector.execute, loadSettings_of_configured h.settings]
  cases task <;> rfl

theorem check_run {words : List String} {lenient : Bool}
    (hwords : Inspector.Spelled {} words ⟨config, table, .check lenient⟩) :
    (Inspector.run L w words).exit = 0 ↔
      Accepted (compile (if lenient then { s with strictness := .lenient } else s) (bytesOfText text)) := by
  simp only [inspector_run hL h hwords, Inspector.check, h.content, Content.lines, compile, Accepted]
  cases (Run.ofLines _ (Line.ofTable (bytesOfText text))).result with
  | error f => simp [Library.fail]
  | ok summary =>
    cases hc : complaint summary with
    | none => simp [hc, Outcome.success]
    | some reason => simp [hc, Library.fail]

omit hL in
theorem load_eq : Inspector.load w s table =
    match Listing.ofTable s (bytesOfText text) with
    | .error f => .error (.ofFault f)
    | .ok ls => .ok ls := by
  have hread : w.readText table = .ok text := by
    rw [World.readText, h.content]
    simp [bind, Except.bind, Content.text, Line.ofBytes_bytesOfText]
  simp only [Inspector.load, hread]
  cases Listing.ofTable s (bytesOfText text) <;> rfl

theorem list_run {words : List String} {format : Inspector.Format} {arms : Bool}
    (hwords : Inspector.Spelled {} words ⟨config, table, .list format arms none⟩) :
    ((Inspector.run L w words).exit = 0 ↔ ∃ ls, Listing.ofTable s (bytesOfText text) = .ok ls) ∧
      ∀ ls, Listing.ofTable s (bytesOfText text) = .ok ls →
        (Inspector.run L w words).stdout = Inspector.renderListing format arms ls := by
  simp only [inspector_run hL h hwords, Inspector.list, load_eq h]
  cases Listing.ofTable s (bytesOfText text) with
  | error f => simp [Library.fail]
  | ok ls => simp [Outcome.success]

theorem families_run {words : List String} {format : Inspector.Format}
    (hwords : Inspector.Spelled {} words ⟨config, table, .families format⟩)
    (hfits : ∀ ls, Listing.ofTable s (bytesOfText text) = .ok ls → Tally.Fits ls) :
    (Inspector.run L w words).exit = 0 ↔ ∃ ls, Listing.ofTable s (bytesOfText text) = .ok ls := by
  simp only [inspector_run hL h hwords, Inspector.families, load_eq h]
  cases hls : Listing.ofTable s (bytesOfText text) with
  | error f => simp [Library.fail]
  | ok ls =>
    obtain ⟨t, ht⟩ := Option.isSome_iff_exists.1 ((Tally.isSome_ofListing? ls).2 (hfits ls hls))
    simp [ht, Outcome.success]

end

/-- The verdicts of command lines that name the same two files, and what a listing of them prints. -/
structure OneVerdict (w : World) (config : Option String) (table : String) (s : Settings) (text : String) : Prop where
  check : ∀ words words', Inspector.Spelled {} words ⟨config, table, .check false⟩ →
    Compiler.Spelled {} words' { config := config, table := some table } →
    ((Inspector.run L w words).exit = 0 ↔ (Compiler.run L w words').exit = 0)
  checkLenient : ∀ words, Inspector.Spelled {} words ⟨config, table, .check true⟩ →
    ((Inspector.run L w words).exit = 0 ↔
      (compile s (bytesOfText text)).Ok ∨ ∃ line, (compile s (bytesOfText text)).result = .error (.trailing line))
  list : ∀ words format arms, Inspector.Spelled {} words ⟨config, table, .list format arms none⟩ →
    ((Inspector.run L w words).exit = 0 ↔ (compile s (bytesOfText text)).Ok ∧ FlagsRead s (bytesOfText text))
  /-- where the sums of cycles are below `2 ^ 32` -/
  families : ∀ words format, Inspector.Spelled {} words ⟨config, table, .families format⟩ →
    (∀ ls, Listing.ofTable s (bytesOfText text) = .ok ls → Tally.Fits ls) →
    ((Inspector.run L w words).exit = 0 ↔ (compile s (bytesOfText text)).Ok ∧ FlagsRead s (bytesOfText text))
  listed : ∀ words, Inspector.Spelled {} words ⟨config, table, .list .text false none⟩ →
    (Inspector.run L w words).exit = 0 →
    ∃ lines, Text.pieces '\n' (Inspector.run L w words).stdout = lines ++ [""] ∧ lines.length = 256
  /-- with arms, every second line is a line of the compiler behind six spaces -/
  listedArms : ∀ words words', Inspector.Spelled {} words ⟨config, table, .list .text true none⟩ →
    Compiler.Spelled {} words' { config := config, table := some table } →
    (Inspector.run L w words).exit = 0 →
    ∃ lines compiled, Text.pieces '\n' (Inspector.run L w words).stdout = lines ++ [""] ∧ lines.length = 512 ∧
      Text.pieces '\n' (Compiler.run L w words').stdout = compiled ++ [""] ∧ compiled.length = 256 ∧
      ∀ i < 256, lines[2 * i + 1]? = compiled[i]?.map ("      " ++ ·)

theorem one_verdict {L : Library} (hL : L.Documented) {w : World} {config : Option String} {table : String}
    {s : Settings} {text : String} (h : Inputs L w config table s text) : OneVerdict L w config table s text where
  check words words' hwords hwords' := by
    have hplain : Plain table := hwords.plain nofun
    rw [check_run hL h hwords, compiler_run hL h hplain hwords', Compiler.outcome]
    cases hrun : (compile s (bytesOfText text)).result with
    | error f => simp [Accepted, hrun, Library.fail]
    | ok summary => simp [Accepted, hrun, complaint_of_ok h.strict hrun]
  checkLenient words hwords := by
    have hstrict : { s with strictness := .strict } = s := by rw [← h.strict]
    rw [check_run hL h hwords, if_pos rfl, accepted_lenient, hstrict]
  list words format arms hwords := by rw [(list_run hL h hwords).1, listed_iff h.strict]
  families words format hwords hfits := by rw [families_run hL h hwords hfits, listed_iff h.strict]
  listed words hwords hexit := by
    obtain ⟨ls, hls⟩ := (list_run hL h hwords).1.1 hexit
    rw [(list_run hL h hwords).2 ls hls]
    refine ⟨Listing.lines false ls, pieces_listing h.strict hls false, ?_⟩
    rw [Listing.length_lines_false, (lines_of_listed h.strict hls).1]
  listedArms words words' hwords hwords' hexit := by
    obtain ⟨ls, hls⟩ := (list_run hL h hwords).1.1 hexit
    obtain ⟨summary, hrun⟩ := ((listed_iff h.strict).1 ⟨ls, hls⟩).1
    obtain ⟨hlength, harms, -⟩ := lines_of_listed h.strict hls
    have hplain : Plain table := hwords.plain nofun
    have hprinted : (Compiler.run L w words').stdout = (compile s (bytesOfText text)).output := by
      rw [compiler_run hL h hplain hwords', Compiler.outcome, hrun]
    rw [(list_run hL h hwords).2 ls hls, hprinted]
    refine ⟨Listing.lines true ls, _, pieces_listing h.strict hls true, ?_, pieces_output, ?_, fun i _ => ?_⟩
    · rw [Listing.length_lines_true, hlength]
    · rw [← harms, List.length_map, hlength]
    · rw [Listing.getElem?_lines_true, ← harms, List.getElem?_map, Option.map_map]
      rfl

/-- A table of one instruction, with all other opcodes reserved, and the same table with a record too many. -/
theorem one_verdict_of_one_record :
    let s : Settings := { reserved := Opcode.all.drop 1 }
    let one := "NOP\n1  4\n- - - -\n"
    let two := "NOP\n1  4\n- - - -\n\nNOP\n1  4\n- - - -\n"
    let w : World :=
      { stdin := []
        content := fun path => .ok (.file (bytesOfText
          (if path = "config.json" then s.toJson.compact else if path = "one.txt" then one else two)))
        create := fun _ => .error .notFound
        sameFile := fun a b => a == b }
    let exit (words : List String) := (Inspector.run .standard w (["--config", "config.json"] ++ words)).exit
    Library.standard.Documented ∧ Inputs .standard w (some "config.json") "one.txt" s one ∧
      Inputs .standard w (some "config.json") "two.txt" s two ∧
      OneVerdict .standard w (some "config.json") "one.txt" s one ∧
      OneVerdict .standard w (some "config.json") "two.txt" s two ∧
      (Compiler.run .standard w ["--config", "config.json", "one.txt"]).exit = 0 ∧
      exit ["one.txt", "check"] = 0 ∧ exit ["one.txt", "check", "--lenient"] = 0 ∧
      exit ["one.txt", "list", "--arms"] = 0 ∧ exit ["one.txt", "families"] = 0 ∧
      exit ["two.txt", "check"] ≠ 0 ∧ exit ["two.txt", "check", "--lenient"] = 0 := by
  intro s one two w exit
  have hstandard := Library.documented_standard
  have hconfig : Configured .standard w (some "config.json") s :=
    ⟨s.toJson.compact, rfl, (Settings.written Deserializer.documented_standard s).restored (by decide)⟩
  have hone : Inputs .standard w (some "config.json") "one.txt" s one := ⟨hconfig, rfl, rfl⟩
  have htwo : Inputs .standard w (some "config.json") "two.txt" s two := ⟨hconfig, rfl, rfl⟩
  have hverdict := one_verdict hstandard hone
  have hverdict' := one_verdict hstandard htwo
  have hlisted : ((Listing.ofTable s (bytesOfText one)).toOption.any fun ls =>
      Tally.totalCycles ls < UInt32.size) = true := by decide +kernel
  have hread : (compile s (bytesOfText one)).Ok ∧ FlagsRead s (bytesOfText one) := by
    rw [← listed_iff rfl]
    cases hls : Listing.ofTable s (bytesOfText one) with
    | error f =>
      rw [hls] at hlisted
      cases hlisted
    | ok ls => exact ⟨ls, rfl⟩
  have hfits : ∀ ls, Listing.ofTable s (bytesOfText one) = .ok ls → Tally.Fits ls := by
    intro ls hls
    rw [hls] at hlisted
    exact Tally.fits_of_totalCycles (of_decide_eq_true hlisted)
  have htrailing : (compile s (bytesOfText two)).result = .error (.trailing 5) := by decide +kernel
  have hwords : ∀ name ∈ ["one.txt", "two.txt"], Compiler.Spelled {} ["--config", "config.json", name]
      { config := some "config.json", table := some name } := by
    intro name hname
    exact .config rfl (by decide) (.table rfl (.inr ((by decide : ∀ name ∈ _, Plain name) name hname)) (.nil _))
  have htask : ∀ name ∈ ["one.txt", "two.txt"], ∀ task words t, Inspector.TaskSpelled task words t →
      Inspector.Spelled {} ("--config" :: "config.json" :: name :: task :: words) ⟨some "config.json", name, t⟩ := by
    intro name hname task words t h
    obtain ⟨hplain, hnone⟩ := (by decide : ∀ name ∈ _, Plain name ∧ name ∉ Inspector.taskNames) name hname
    exact .config rfl (by decide) (.table rfl hplain hnone (.task rfl h))
  have hcompiled : (Compiler.run .standard w ["--config", "config.json", "one.txt"]).exit = 0 := by
    obtain ⟨summary, hrun⟩ := hread.1
    rw [compiler_run hstandard hone (by decide) (hwords _ (by decide)), Compiler.outcome, hrun]
  have hfailed : (Compiler.run .standard w ["--config", "config.json", "two.txt"]).exit = 1 := by
    rw [compiler_run hstandard htwo (by decide) (hwords _ (by decide)), Compiler.outcome, htrailing]
    rfl
  refine ⟨hstandard, hone, htwo, hverdict, hverdict', hcompiled, ?_, ?_, ?_, ?_, ?_, ?_⟩
  · exact (hverdict.check _ _ (htask _ (by decide) _ _ _ .check) (hwords _ (by decide))).2 hcompiled
  · exact (hverdict.checkLenient _ (htask _ (by decide) _ _ _ .checkLenient)).2 (.inl hread.1)
  · exact (hverdict.list _ _ _ (htask _ (by decide) _ _ _ (.list (.arms rfl (.nil _))))).2 hread
  · exact (hverdict.families _ _ (htask _ (by decide) _ _ _ .families) hfits).2 hread
  · intro hexit
    have hzero := (hverdict'.check _ _ (htask _ (by decide) _ _ _ .check) (hwords _ (by decide))).1 hexit
    rw [hfailed] at hzero
    cases hzero
  · exact (hverdict'.checkLenient _ (htask _ (by decide) _ _ _ .checkLenient)).2 (.inr ⟨5, htrailing⟩)

end Command
end OpcodeDispatch
