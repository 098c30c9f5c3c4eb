import OpcodeDispatch.Command.Compiler
import OpcodeDispatch.Command.Grammar

/-!
Which words say what on the two command lines. Switches stand in any order, each of them once, and a value
stands behind its switch; the inspector's task comes last, with switches of its own. `Library.Documented` is
what the commands rely on, and the standard library keeps it.
-/

namespace OpcodeDispatch
namespace Command

/-- A name that cannot be taken for a switch. -/
def Plain (name : String) : Prop := name ≠ "" ∧ name.toList.head? ≠ some '-'

instance (name : String) : Decidable (Plain name) := inferInstanceAs (Decidable (_ ∧ _))

theorem Plain.ne_dash {name : String} (h : Plain name) : name ≠ "-" := by
  rintro rfl
  exact h.2 rfl

/-! ### The compiler -/

namespace Compiler

/-- The words that turn the arguments `a` into `b`, one switch after the other and in any order, each of
them at most once. -/
inductive Spelled : Arguments → List String → Arguments → Prop
  | nil (a : Arguments) : Spelled a [] a
  | config {a b : Arguments} {path : String} {words : List String} (hnew : a.config = none) (hpath : Plain path)
      (h : Spelled { a with config := some path } words b) : Spelled a ("--config" :: path :: words) b
  | lenient {a b : Arguments} {words : List String} (hnew : a.lenient = false)
      (h : Spelled { a with lenient := true } words b) : Spelled a ("--lenient" :: words) b
  | costStyle {a b : Arguments} {name : String} {style : CostStyle} {words : List String} (hnew : a.costStyle = none)
      (hname : (name, style) ∈ costStyleNames) (h : Spelled { a with costStyle := some style } words b) :
      Spelled a ("--cost-style" :: name :: words) b
  | out {a b : Arguments} {path : String} {words : List String} (hnew : a.out = none) (hpath : Plain path)
      (h : Spelled { a with out := some path } words b) : Spelled a ("--out" :: path :: words) b
  | table {a b : Arguments} {name : String} {words : List String} (hnew : a.table = none)
      (hname : name = "-" ∨ Plain name) (h : Spelled { a with table := some name } words b) :
      Spelled a (name :: words) b

end Compiler

/-! ### The inspector -/

namespace Inspector

/-- The switches of a list. -/
inductive ListSpelled : ListArguments → List String → ListArguments → Prop
  | nil (a : ListArguments) : ListSpelled a [] a
  | format {a b : ListArguments} {name : String} {format : Format} {words : List String} (hnew : a.format = none)
      (hname : (name, format) ∈ formatNames) (h : ListSpelled { a with format := some format } words b) :
      ListSpelled a ("--format" :: name :: words) b
  | arms {a b : ListArguments} {words : List String} (hnew : a.arms = false)
      (h : ListSpelled { a with arms := true } words b) : ListSpelled a ("--arms" :: words) b
  | out {a b : ListArguments} {path : String} {words : List String} (hnew : a.out = none) (hpath : Plain path)
      (h : ListSpelled { a with out := some path } words b) : ListSpelled a ("--out" :: path :: words) b

/-- A task: its name, and the words after it. Without a format it is text. -/
inductive TaskSpelled : String → List String → Task → Prop
  | list {words : List String} {a : ListArguments} (h : ListSpelled {} words a) :
      TaskSpelled "list" words (.list (a.format.getD .text) a.arms a.out)
  | families : TaskSpelled "families" [] (.families .text)
  | familiesFormat {name : String} {format : Format} (hname : (name, format) ∈ formatNames) :
      TaskSpelled "families" ["--format", name] (.families format)
  | check : TaskSpelled "check" [] (.check false)
  | checkLenient : TaskSpelled "check" ["--lenient"] (.check true)

/-- The words of an invocation when the arguments `a` have been said. The table has no name of a task. -/
inductive Spelled : Arguments → List String → Invocation → Prop
  | config {a : Arguments} {path : String} {words : List String} {i : Invocation} (hnew : a.config = none)
      (hpath : Plain path) (h : Spelled { a with config := some path } words i) :
      Spelled a ("--config" :: path :: words) i
  | table {a : Arguments} {name : String} {words : List String} {i : Invocation} (hnew : a.table = none)
      (hname : Plain name) (htask : name ∉ taskNames) (h : Spelled { a with table := some name } words i) :
      Spelled a (name :: words) i
  | task {a : Arguments} {table name : String} {words : List String} {task : Task} (htable : a.table = some table)
      (h : TaskSpelled name words task) : Spelled a (name :: words) ⟨a.config, table, task⟩

theorem Spelled.plain {a : Arguments} {words : List String} {i : Invocation} (h : Spelled a words i)
    (ha : ∀ name, a.table = some name → Plain name) : Plain i.table := by
  induction h with
  | config hnew hpath h ih => exact ih ha
  | table hnew hname htask h ih =>
    refine ih fun name hsome => ?_
    cases hsome
    exact hname
  | task htable h => exact ha _ htable

end Inspector

/-- What the commands rely on: the words give their arguments, and a failure is reported. -/
structure Library.Documented (L : Library) : Prop where
  compiler : ∀ words a name, Compiler.Spelled {} words a → a.table = some name →
    L.compilerArguments words = .ok (a, name)
  inspector : ∀ words i, Inspector.Spelled {} words i → L.inspectorArguments words = .ok i
  report : ∀ f, L.report f ≠ ""

/-! ### Scanning words -/

theorem form_plain {name : String} (h : Plain name) : Form.of name = .word name := by
  have hhead := h.2
  unfold Form.of Form.ofChars
  split <;> simp_all

theorem setPath_plain {σ : Type} {path : String} (h : Plain path) (set : String → σ) :
    setPath none path set = some (set path) := by
  simp [setPath, h.1]

namespace Grammar

variable {σ : Type} {g : Grammar σ} {s t : σ} {arg value word : String}

theorem scan_positional (hform : Form.of word = .word word) (hword : word ∉ g.subcommands)
    (hset : g.positional word s = some t) (words : List String) :
    g.scan none s (word :: words) = g.scan none t words := by
  simp only [scan, hform, if_neg hword, hset]
  rfl

theorem scan_subcommand (hform : Form.of word = .word word) (hword : word ∈ g.subcommands) (words : List String) :
    g.scan none s (word :: words) = .ok (s, some (word, words)) := by
  simp only [scan, hform, if_pos hword]

theorem scan_flag (name : String) {set : σ → Option σ} (hform : Form.of arg = .long name none)
    (hswitch : g.long? name = some (.flag set)) (hset : set s = some t) (words : List String) :
    g.scan none s (arg :: words) = g.scan none t words := by
  simp only [scan, hform, hswitch, hset]
  rfl

/-- A switch, and its value as the next word. -/
theorem scan_value (name : String) {set : String → σ → Option σ} (hform : Form.of arg = .long name none)
    (hswitch : g.long? name = some (.value set)) (hvalue : Form.of value = .word value)
    (hset : set value s = some t) (words : List String) :
    g.scan none s (arg :: value :: words) = g.scan none t words := by
  simp only [scan, hform, hswitch, hvalue, hset]
  rfl

end Grammar

namespace Compiler

theorem grammar_scan_spelled {a b : Arguments} {words : List String} (h : Spelled a words b) :
    grammar.scan none a words = .ok (b, none) := by
  induction h with
  | nil a => rfl
  | config hnew hpath h ih =>
    refine (Grammar.scan_value "config" (by decide) rfl (form_plain hpath) ?_ _).trans ih
    rw [hnew, setPath_plain hpath]
  | lenient hnew h ih =>
    refine (Grammar.scan_flag "lenient" (by decide) rfl ?_ _).trans ih
    rw [hnew]
    rfl
  | costStyle hnew hname h ih =>
    have hvalue : ∀ p ∈ costStyleNames, Form.of p.1 = .word p.1 ∧ costStyleNames.lookup p.1 = some p.2 := by decide
    obtain ⟨hform, hlookup⟩ := hvalue _ hname
    refine (Grammar.scan_value "cost-style" (by decide) rfl hform ?_ _).trans ih
    simp [hnew, hlookup]
  | out hnew hpath h ih =>
    refine (Grammar.scan_value "out" (by decide) rfl (form_plain hpath) ?_ _).trans ih
    rw [hnew, setPath_plain hpath]
  | table hnew hname h ih =>
    rename_i a b name words
    have hform : Form.of name = .word name := by
      rcases hname with rfl | hname
      · decide
      · exact form_plain hname
    refine (Grammar.scan_positional hform List.not_mem_nil ?_ _).trans ih
    exact if_neg (by simp [hnew])

theorem scan_spelled {a : Arguments} {name : String} {words : List String} (h : Spelled {} words a)
    (hname : a.table = some name) : scan words = .ok (a, name) := by
  simp only [scan, grammar_scan_spelled h, bind, Except.bind, hname]
  rfl

end Compiler

namespace Inspector

theorem format_name : ∀ p ∈ formatNames, Form.of p.1 = .word p.1 ∧ formatNames.lookup p.1 = some p.2 := by decide

theorem listGrammar_scan_spelled {a b : ListArguments} {words : List String} (h : ListSpelled a words b) :
    listGrammar.scan none a words = .ok (b, none) := by
  induction h with
  | nil a => rfl
  | format hnew hname h ih =>
    obtain ⟨hform, hlookup⟩ := format_name _ hname
    refine (Grammar.scan_value "format" (by decide) rfl hform ?_ _).trans ih
    simp [setFormat, hnew, hlookup]
  | arms hnew h ih =>
    refine (Grammar.scan_flag "arms" (by decide) rfl ?_ _).trans ih
    rw [hnew]
    rfl
  | out hnew hpath h ih =>
    refine (Grammar.scan_value "out" (by decide) rfl (form_plain hpath) ?_ _).trans ih
    rw [hnew, setPath_plain hpath]

theorem scanTask_spelled {name : String} {words : List String} {task : Task} (h : TaskSpelled name words task) :
    Form.of name = .word name ∧ name ∈ taskNames ∧ scanTask name words = .ok task := by
  cases h with
  | list h =>
    refine ⟨by decide, by decide, ?_⟩
    simp only [scanTask, if_pos, listGrammar_scan_spelled h]
    rfl
  | families => exact ⟨by decide, by decide, rfl⟩
  | familiesFormat hname =>
    rename_i name format
    obtain ⟨hform, hlookup⟩ := format_name _ hname
    have hscan : familiesGrammar.scan none none ["--format", name] = .ok (some format, none) := by
      refine (Grammar.scan_value "format" (by decide) rfl hform ?_ []).trans rfl
      simp [setFormat, hlookup]
    refine ⟨by decide, by decide, ?_⟩
    simp only [scanTask, hscan]
    rfl
  | check => exact ⟨by decide, by decide, rfl⟩
  | checkLenient => exact ⟨by decide, by decide, rfl⟩

/-- Scanning stops at the task, with the rest of the invocation said. -/
theorem grammar_scan_spelled {a : Arguments} {words : List String} {i : Invocation} (h : Spelled a words i) :
    ∃ name rest, grammar.scan none a words = .ok (⟨i.config, some i.table⟩, some (name, rest)) ∧
      scanTask name rest = .ok i.task := by
  induction h with
  | config hnew hpath h ih =>
    obtain ⟨name, rest, hscan, htask⟩ := ih
    refine ⟨name, rest, (Grammar.scan_value "config" (by decide) rfl (form_plain hpath) ?_ _).trans hscan, htask⟩
    rw [hnew, setPath_plain hpath]
  | table hnew hname htask h ih =>
    obtain ⟨name, rest, hscan, htask'⟩ := ih
    refine ⟨name, rest, (Grammar.scan_positional (form_plain hname) htask ?_ _).trans hscan, htask'⟩
    simp only [grammar, hnew, setPath_plain hname]
  | task htable h =>
    obtain ⟨hform, hname, htask⟩ := scanTask_spelled h
    refine ⟨_, _, ?_, htask⟩
    rw [Grammar.scan_subcommand hform hname, ← htable]

theorem scan_spelled {words : List String} {i : Invocation} (h : Spelled {} words i) : scan words = .ok i := by
  obtain ⟨name, rest, hscan, htask⟩ := grammar_scan_spelled h
  simp only [scan, hscan, bind, Except.bind, orMisuse, htask]
  rfl

end Inspector

theorem Failure.render_ne_empty (f : Failure) : f.render ≠ "" := by
  simp [Failure.render]

theorem Library.documented_standard : Library.standard.Documented where
  compiler words a name h hname := by
    simp only [standard, Compiler.scan_spelled h hname]
    rfl
  inspector words i h := by
    simp only [standard, Inspector.scan_spelled h]
    rfl
  report := Failure.render_ne_empty

end Command
end OpcodeDispatch
