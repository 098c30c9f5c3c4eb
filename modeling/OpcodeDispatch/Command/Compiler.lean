import OpcodeDispatch.Command.Arguments
import OpcodeDispatch.Command.World
import OpcodeDispatch.Run

/-!
The compiler's command line: a table from a file or from standard input, its arms to standard
output or to a file.
-/

namespace OpcodeDispatch
namespace Command
namespace Compiler

/-- The settings with the arguments' own on top. -/
def adjust (a : Arguments) (s : Settings) : Settings :=
  { s with
    strictness := if a.lenient then .lenient else s.strictness
    costStyle := a.costStyle.getD s.costStyle }

def openTable (w : World) (name : String) : Except Failure Content :=
  if name = "-" then .ok (.file w.stdin)
  else match w.content name with
    | .ok table => .ok table
    | .error e => .error (.during ("opening table " ++ name) e.message)

def warning (summary : Summary) : String :=
  if summary.diagnostics = 0 then ""
  else "warning: " ++ Numeral.decimal summary.diagnostics ++
    " record(s) rendered as diagnostics; review the output before use\n"

section

variable (L : Library)

/-- The outcome of a run whose arms go to standard output. -/
def outcome (run : Run) : Outcome :=
  match run.result with
  | .ok summary => ⟨0, run.output, warning summary, none⟩
  | .error f => L.fail run.output (.ofFault f)

def execute (w : World) (a : Arguments) (name : String) : Outcome :=
  match L.loadSettings w a.config with
  | .error f => L.fail "" f
  | .ok s =>
    match openTable w name with
    | .error f => L.fail "" f
    | .ok table =>
      match a.out with
      | none => outcome L (.ofLines (adjust a s) table.lines)
      | some path =>
        match w.create path with
        | .error e => L.fail "" (.ofFile e)
        | .ok () =>
          -- creating the file empties it, also when the table is read from it
          let table := if name ≠ "-" ∧ w.sameFile path name then .file [] else table
          (outcome L (.ofLines (adjust a s) table.lines)).toFile path

def run (w : World) (args : List String) : Outcome :=
  match L.compilerArguments args with
  | .ok (a, name) => execute L w a name
  | .error ending => ending

end

end Compiler
end Command
end OpcodeDispatch
