import OpcodeDispatch.Command.Compiler
import OpcodeDispatch.Command.Inspector

/-!
The two tools by name, and the files that a command line of each means.
-/

namespace OpcodeDispatch
namespace Command

inductive Tool where
  | compiler | inspector
  deriving DecidableEq

namespace Tool

def name : Tool → String
  | compiler => "sm83-opgen"
  | inspector => "sm83-optable"

def ofName? (s : String) : Option Tool := [compiler, inspector].find? (·.name == s)

section

variable (L : Library)

def run (t : Tool) (w : World) (args : List String) : Outcome :=
  match t with
  | compiler => Compiler.run L w args
  | inspector => Inspector.run L w args

/-- The files that may be read. -/
def inputs (t : Tool) (args : List String) : List String :=
  match t with
  | compiler =>
    match L.compilerArguments args with
    | .ok (a, table) => a.config.toList ++ (if table = "-" then [] else [table])
    | .error _ => []
  | inspector =>
    match L.inspectorArguments args with
    | .ok i => i.config.toList ++ [i.table]
    | .error _ => []

def readsStdin (t : Tool) (args : List String) : Bool :=
  match t with
  | compiler =>
    match L.compilerArguments args with
    | .ok (_, table) => table == "-"
    | .error _ => false
  | inspector => false

end

end Tool
end Command
end OpcodeDispatch
