import OpcodeDispatch.Command.Compiler
import OpcodeDispatch.Command.Directory
import OpcodeDispatch.Proofs.Verdicts

/-!
The routes through the compiler's command line. A table comes from a file or from standard input, and
its arms go to standard output or to a file; whichever it is, the arms are those of one run under the
settings of the file, with the command line's own on top.
-/

namespace OpcodeDispatch
namespace Command
namespace Compiler

/-! ### Calls -/

/-- The table that a name stands for: a dash is standard input. -/
def TableAt (w : World) (name : String) (table : List UInt8) : Prop :=
  if name = "-" then w.stdin = table else w.content name = .ok (.file table)

/-- The file for the arms, if there is one, can be created and is not the table's. -/
def Writable (w : World) (name : String) (out : Option String) : Prop :=
  ∀ path ∈ out, w.create path = .ok () ∧ (name ≠ "-" → w.sameFile path name = false)

/-- The words call the compiler for a table. The settings are those of the file, but lenient if the words
say so, and with the style that they name. -/
inductive Call (L : Library) (w : World) : List String → Settings → List UInt8 → Option String → Prop
  | intro {words : List String} {a : Arguments} {name : String} {loaded : Settings} {table : List UInt8}
      (hwords : Spelled {} words a) (hname : a.table = some name) (hconfig : Configured L w a.config loaded)
      (htable : TableAt w name table) (hout : Writable w name a.out) :
      Call L w words
        { loaded with
          strictness := if a.lenient then .lenient else loaded.strictness
          costStyle := a.costStyle.getD loaded.costStyle }
        table a.out

/-- What a run leaves behind when its arms go to `out`: all that it wrote, also if it ends in a fault. -/
structure Delivers (run : Run) (out : Option String) (o : Outcome) : Prop where
  stdout : o.stdout = if out.isSome then "" else run.output
  file : o.file = out.map fun path => (path, run.output)
  exit : o.exit = 0 ∧ run.Ok ∨ o.exit = 1 ∧ ¬ run.Ok
  quiet : o.stderr = "" ↔ ∃ summary, run.result = .ok summary ∧ summary.diagnostics = 0

theorem openTable_of_tableAt {w : World} {name : String} {table : List UInt8} (h : TableAt w name table) :
    openTable w name = .ok (.file table) := by
  unfold TableAt at h
  unfold openTable
  split at h
  · next hname => rw [if_pos hname, h]
  · next hname => rw [if_neg hname, h]

/-- The outcome of a run whose arms go where the command line says. -/
def sent (out : Option String) (o : Outcome) : Outcome := out.elim o o.toFile

section

variable {L : Library} {w : World} {words : List String} {s : Settings} {table : List UInt8} {out : Option String}

theorem run_of_call (hL : L.Documented) (h : Call L w words s table out) :
    run L w words = sent out (outcome L (compile s table)) := by
  cases h with
  | intro hwords hname hconfig htable hout =>
    rename_i a name loaded
    rw [run, hL.compiler words a name hwords hname]
    simp only [execute, loadSettings_of_configured hconfig, openTable_of_tableAt htable]
    cases hfile : a.out with
    | none => rfl
    | some path =>
      obtain ⟨hcreate, hother⟩ := hout path hfile
      have hkept : ¬ (name ≠ "-" ∧ w.sameFile path name = true) := by
        rintro ⟨hne, hsame⟩
        exact Bool.false_ne_true ((hother hne).symm.trans hsame)
      simp only [hcreate, if_neg hkept]
      rfl

end

theorem warning_eq_empty {summary : Summary} : warning summary = "" ↔ summary.diagnostics = 0 := by
  unfold warning
  split
  · next h => exact iff_of_true rfl h
  · next h => exact iff_of_false (by simp) h

section

variable {L : Library}

theorem outcome_stdout (r : Run) : (outcome L r).stdout = r.output := by
  unfold outcome
  split <;> rfl

theorem outcome_file (r : Run) : (outcome L r).file = none := by
  unfold outcome
  split <;> rfl

theorem outcome_exit (r : Run) : (outcome L r).exit = 0 ∧ r.Ok ∨ (outcome L r).exit = 1 ∧ ¬ r.Ok := by
  unfold outcome Run.Ok
  cases hr : r.result with
  | ok summary => exact .inl ⟨rfl, summary, rfl⟩
  | error f => exact .inr ⟨rfl, nofun⟩

theorem outcome_stderr (hL : L.Documented) (r : Run) :
    (outcome L r).stderr = "" ↔ ∃ summary, r.result = .ok summary ∧ summary.diagnostics = 0 := by
  unfold outcome
  cases hr : r.result with
  | ok summary => simp [warning_eq_empty]
  | error f => exact iff_of_false (hL.report _) nofun

theorem sent_exit (out : Option String) (o : Outcome) : (sent out o).exit = o.exit := by
  cases out <;> rfl

theorem sent_stderr (out : Option String) (o : Outcome) : (sent out o).stderr = o.stderr := by
  cases out <;> rfl

/-- Sending the arms to a file moves them there and changes nothing else. -/
theorem delivers_sent (hL : L.Documented) (r : Run) (out : Option String) :
    Delivers r out (sent out (outcome L r)) where
  stdout := by
    cases out with
    | none => exact outcome_stdout r
    | some path => rfl
  file := by
    cases out with
    | none => exact outcome_file r
    | some path => rw [sent, Option.elim, Outcome.toFile, outcome_stdout, Option.map]
  exit := by
    rw [sent_exit]
    exact outcome_exit r
  quiet := by
    rw [sent_stderr]
    exact outcome_stderr hL r

end

/-- Whatever way a table comes in and its arms go out, a call of the compiler is one run. -/
theorem routes_deliver {L : Library} (hL : L.Documented) {w : World} {words : List String} {s : Settings}
    {table : List UInt8} {out : Option String} (h : Call L w words s table out) :
    Delivers (compile s table) out (run L w words) ∧
      ∀ w' words' out', Call L w' words' s table out' →
        (run L w' words').exit = (run L w words).exit ∧ (run L w' words').stderr = (run L w words).stderr := by
  rw [run_of_call hL h]
  refine ⟨delivers_sent hL _ _, fun w' words' out' h' => ?_⟩
  rw [run_of_call hL h', sent_exit, sent_exit, sent_stderr, sent_stderr]
  exact ⟨rfl, rfl⟩

/-- A table in a file whose arms go to another one, and the same table from standard input. -/
theorem routes_of_bad_jump :
    let text := "JR\n2  12\n- - - -\n"
    let w := (Directory.mk [("ops.txt", text), ("plain.json", "\x7b\x7d")]).world (bytesOfText text)
    let s : Settings := { strictness := .lenient, costStyle := .notTaken }
    let words := ["--lenient", "ops.txt", "--out", "arms.rs", "--config", "plain.json", "--cost-style", "not-taken"]
    let words' := ["--cost-style", "not-taken", "-", "--lenient"]
    Library.standard.Documented ∧ Call .standard w words s (bytesOfText text) (some "arms.rs") ∧
      Call .standard w words' s (bytesOfText text) none ∧
      Delivers (compile s (bytesOfText text)) (some "arms.rs") (run .standard w words) ∧
      (run .standard w words').exit = (run .standard w words).exit ∧
      (run .standard w words').stderr = (run .standard w words).stderr := by
  intro text w s words words'
  have hwords : Spelled {} words ⟨some "plain.json", true, some .notTaken, some "arms.rs", some "ops.txt"⟩ :=
    .lenient rfl (.table rfl (.inr (by decide)) (.out rfl (by decide) (.config rfl (by decide)
      (.costStyle rfl (by decide) (.nil _)))))
  have hwords' : Spelled {} words' ⟨none, true, some .notTaken, none, some "-"⟩ :=
    .costStyle rfl (by decide) (.table rfl (.inl rfl) (.lenient rfl (.nil _)))
  have hconfig : Configured .standard w (some "plain.json") .default := ⟨"\x7b\x7d", rfl, by rfl⟩
  have htable : TableAt w "ops.txt" (bytesOfText text) := rfl
  have hout : Writable w "ops.txt" (some "arms.rs") := by
    intro path hpath
    cases hpath
    exact ⟨rfl, fun _ => by decide +kernel⟩
  have hcall : Call .standard w words s (bytesOfText text) (some "arms.rs") := .intro hwords rfl hconfig htable hout
  have hcall' : Call .standard w words' s (bytesOfText text) none := .intro hwords' rfl rfl rfl nofun
  have hstandard := Library.documented_standard
  obtain ⟨hdelivers, hsame⟩ := routes_deliver hstandard hcall
  exact ⟨hstandard, hcall, hcall', hdelivers, hsame w words' none hcall'⟩

end Compiler
end Command
end OpcodeDispatch
