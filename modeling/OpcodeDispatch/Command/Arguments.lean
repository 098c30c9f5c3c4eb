import OpcodeDispatch.Command.World
import OpcodeDispatch.Settings.Json

/-!
What the command lines say, and the library that the commands rest on. The library reads command lines and
settings files, and it reports failures; the commands do all else. Where a command line gives no arguments,
because it asks for help or cannot be read, the library ends the command itself.
-/

namespace OpcodeDispatch
namespace Command

namespace Compiler

structure Arguments where
  config : Option String := none
  lenient : Bool := false
  costStyle : Option CostStyle := none
  out : Option String := none
  table : Option String := none
  deriving DecidableEq

def costStyleNames : List (String × CostStyle) := [("pair", .pair), ("not-taken", .notTaken)]

end Compiler

namespace Inspector

inductive Format where
  | text | json
  deriving DecidableEq

def formatNames : List (String × Format) := [("text", .text), ("json", .json)]

inductive Task where
  | list (format : Format) (arms : Bool) (out : Option String)
  | families (format : Format)
  | check (lenient : Bool)
  deriving DecidableEq

structure Invocation where
  config : Option String
  table : String
  task : Task
  deriving DecidableEq

end Inspector

structure Library where
  deserializer : Deserializer
  /-- the arguments of the compiler, with the name of the table -/
  compilerArguments : List String → Except Outcome (Compiler.Arguments × String)
  inspectorArguments : List String → Except Outcome Inspector.Invocation
  /-- what a command that fails writes to standard error -/
  report : Failure → String
  /-- how a command ends whose arithmetic overflows, in a build that checks for it -/
  overflow : String → Outcome

namespace Library

variable (L : Library)

def fail (stdout : String) (f : Failure) : Outcome := ⟨1, stdout, L.report f, none⟩

def settingsReason : SettingsError → String
  | .malformed reason => reason
  | .invalid f => f.message

/-- The settings in a file, or the defaults. -/
def loadSettings (w : World) : Option String → Except Failure Settings
  | none => .ok Settings.default
  | some path =>
    let attempt := "loading config " ++ path
    match w.readText path with
    | .error e => .error (.during attempt e.message)
    | .ok text =>
      match Settings.parse L.deserializer text with
      | .error e => .error (.during attempt (settingsReason e))
      | .ok s => .ok s

end Library
end Command
end OpcodeDispatch
