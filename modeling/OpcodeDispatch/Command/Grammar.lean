import OpcodeDispatch.Command.Arguments
import OpcodeDispatch.Json.Deserializer

/-!
The standard library of the commands. A grammar gives the switches of a command, what it does with a word
that is no switch, and its subcommands. Arguments are taken from left to right, and the first that cannot
be taken ends the scan; so does a switch that asks for help or for the version.
-/

namespace OpcodeDispatch
namespace Command

/-- How a scan ends that gives no arguments. -/
inductive Ending where
  | help | version | misuse
  deriving DecidableEq

/-- What a switch does to the arguments `σ` so far; `none` refuses it. -/
inductive Effect (σ : Type) where
  | flag (set : σ → Option σ)
  | value (set : String → σ → Option σ)
  | stop (ending : Ending)

structure Switch (σ : Type) where
  long : String
  short : Option Char
  effect : Effect σ

structure Grammar (σ : Type) where
  switches : List (Switch σ)
  positional : String → σ → Option σ
  subcommands : List String

def Grammar.long? (g : Grammar σ) (name : String) : Option (Effect σ) :=
  (g.switches.find? (·.long == name)).map (·.effect)

def Grammar.short? (g : Grammar σ) (letter : Char) : Option (Effect σ) :=
  (g.switches.find? (·.short == some letter)).map (·.effect)

/-- The arguments of a scan, and the subcommand that ended it with the words after it. -/
abbrev Scanned (σ : Type) := σ × Option (String × List String)

/-- An argument by its form. -/
inductive Form where
  | long (name : String) (value : Option String)
  | short (letter : Char) (rest : String)
  /-- two dashes, after which every argument is a word -/
  | separator
  | word (w : String)
  deriving DecidableEq

def Form.ofChars : List Char → Form
  | ['-', '-'] => separator
  | '-' :: '-' :: cs =>
    long (String.ofList (cs.takeWhile (· ≠ '=')))
      (match cs.dropWhile (· ≠ '=') with
        | [] => none
        | _ :: value => some (String.ofList value))
  | '-' :: c :: cs => short c (String.ofList cs)
  | cs => word (String.ofList cs)

def Form.of (arg : String) : Form := ofChars arg.toList

def orMisuse : Option α → Except Ending α
  | some a => .ok a
  | none => .error .misuse

/-- Words only; a subcommand can no longer be named. -/
def Grammar.words (g : Grammar σ) (s : σ) : List String → Except Ending (Scanned σ)
  | [] => .ok (s, none)
  | w :: rest => do
    let s ← orMisuse (g.positional w s)
    g.words s rest

/-- The value in the letters after a short switch. -/
def attached (rest : String) : Option String :=
  match rest.toList with
  | [] => none
  | '=' :: value => some (String.ofList value)
  | value => some (String.ofList value)

/-- Scans arguments; `pending` is a switch whose value comes next. A value of its own may not look
like a switch. -/
def Grammar.scan (g : Grammar σ) (pending : Option (String → σ → Option σ)) (s : σ) :
    List String → Except Ending (Scanned σ)
  | [] => if pending.isSome then .error .misuse else .ok (s, none)
  | arg :: rest =>
    match pending, Form.of arg with
    | some set, .word w => do
      let s ← orMisuse (set w s)
      g.scan none s rest
    | some _, _ => .error .misuse
    | none, .separator => g.words s rest
    | none, .word w =>
      if w ∈ g.subcommands then .ok (s, some (w, rest))
      else do
        let s ← orMisuse (g.positional w s)
        g.scan none s rest
    | none, .long name value =>
      match g.long? name, value with
      | some (.stop ending), none => .error ending
      | some (.flag set), none => do
        let s ← orMisuse (set s)
        g.scan none s rest
      | some (.value set), none => g.scan (some set) s rest
      | some (.value set), some v => do
        let s ← orMisuse (set v s)
        g.scan none s rest
      | _, _ => .error .misuse
    | none, .short letter tail =>
      match g.short? letter with
      | some (.stop ending) => .error ending
      | some (.value set) =>
        match attached tail with
        | none => g.scan (some set) s rest
        | some v => do
          let s ← orMisuse (set v s)
          g.scan none s rest
      | _ => .error .misuse

def helpSwitch : Switch σ := ⟨"help", some 'h', .stop .help⟩

def versionSwitch : Switch σ := ⟨"version", some 'V', .stop .version⟩

/-- Sets a field once, to a value that is not empty. -/
def setPath (old : Option String) (path : String) (set : String → σ) : Option σ :=
  if old.isSome || path = "" then none else some (set path)

/-! ### The compiler -/

namespace Compiler

def grammar : Grammar Arguments where
  switches :=
    [⟨"config", none, .value fun v a => setPath a.config v fun v => { a with config := some v }⟩,
     ⟨"lenient", none, .flag fun a => if a.lenient then none else some { a with lenient := true }⟩,
     ⟨"cost-style", none, .value fun v a =>
       if a.costStyle.isSome then none
       else (costStyleNames.lookup v).map fun style => { a with costStyle := some style }⟩,
     ⟨"out", some 'o', .value fun v a => setPath a.out v fun v => { a with out := some v }⟩,
     helpSwitch, versionSwitch]
  positional v a := if a.table.isSome then none else some { a with table := some v }
  subcommands := []

def scan (args : List String) : Except Ending (Arguments × String) := do
  let (a, _) ← grammar.scan none {} args
  return (a, ← orMisuse a.table)

end Compiler

/-! ### The inspector -/

namespace Inspector

structure Arguments where
  config : Option String := none
  table : Option String := none
  deriving DecidableEq

structure ListArguments where
  format : Option Format := none
  arms : Bool := false
  out : Option String := none
  deriving DecidableEq

def taskNames : List String := ["list", "families", "check", "help"]

def grammar : Grammar Arguments where
  switches :=
    [⟨"config", none, .value fun v a => setPath a.config v fun v => { a with config := some v }⟩,
     helpSwitch, versionSwitch]
  positional v a := setPath a.table v fun v => { a with table := some v }
  subcommands := taskNames

def setFormat (old : Option Format) (v : String) : Option Format :=
  if old.isSome then none else formatNames.lookup v

def listGrammar : Grammar ListArguments where
  switches :=
    [⟨"format", none, .value fun v a => (setFormat a.format v).map fun f => { a with format := some f }⟩,
     ⟨"arms", none, .flag fun a => if a.arms then none else some { a with arms := true }⟩,
     ⟨"out", none, .value fun v a => setPath a.out v fun v => { a with out := some v }⟩,
     helpSwitch]
  positional _ _ := none
  subcommands := []

def familiesGrammar : Grammar (Option Format) where
  switches := [⟨"format", none, .value fun v a => (setFormat a v).map some⟩, helpSwitch]
  positional _ _ := none
  subcommands := []

def checkGrammar : Grammar Bool where
  switches := [⟨"lenient", none, .flag fun a => if a then none else some true⟩, helpSwitch]
  positional _ _ := none
  subcommands := []

def scanTask (name : String) (args : List String) : Except Ending Task :=
  if name = "list" then do
    let (a, _) ← listGrammar.scan none {} args
    return .list (a.format.getD .text) a.arms a.out
  else if name = "families" then do
    let (format, _) ← familiesGrammar.scan none none args
    return .families (format.getD .text)
  else if name = "check" then do
    let (lenient, _) ← checkGrammar.scan none false args
    return .check lenient
  else match args with
    | [] => .error .help
    | [topic] => .error (if topic ∈ taskNames then .help else .misuse)
    | _ => .error .misuse

def scan (args : List String) : Except Ending Invocation := do
  let (a, task) ← grammar.scan none {} args
  let (name, rest) ← orMisuse task
  let task ← scanTask name rest
  return ⟨a.config, ← orMisuse a.table, task⟩

end Inspector

/-! ### The library -/

/-- How a command ends that is given no arguments. -/
def Ending.outcome (helpText versionText : String) : Ending → Outcome
  | help => .success helpText
  | version => .success versionText
  | misuse => ⟨2, "", "error: invalid arguments\n", none⟩

def Failure.render (f : Failure) : String :=
  "Error: " ++ f.message ++ (f.cause.elim "" fun c => "\n\nCaused by:\n    " ++ c) ++ "\n"

def Library.standard : Library where
  deserializer := .standard
  compilerArguments args := (Compiler.scan args).mapError
    (Ending.outcome "Compile an SM83 opcode table into interpreter dispatch arms\n" "sm83-opgen 0.1.0\n")
  inspectorArguments args := (Inspector.scan args).mapError
    (Ending.outcome "SM83 opcode table inspector\n" "sm83-optable 0.1.0\n")
  report := Failure.render
  overflow message := ⟨101, "", message ++ "\n", none⟩

end Command
end OpcodeDispatch
