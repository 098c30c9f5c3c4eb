import OpcodeDispatch.Command.Grammar
import OpcodeDispatch.Command.Tool

/-!
The program: its first argument names the tool, the others are the tool's. The files a command
line means are read before the tool runs, and what the tool leaves is written afterwards; a file
that cannot be written is an answer the tool gets in a second run.
-/

namespace OpcodeDispatch
namespace Command

/-- The error of a system's code, which some actions report negated. -/
def ofCode (code : UInt32) (reason : String) : FileError :=
  match min code (0 - code) with
  | 20 => .notDirectory
  | 21 => .directory
  | 36 => .nameTooLong
  | _ => .other reason

def ofIOError (e : IO.Error) : FileError :=
  match e with
  | .noFileOrDirectory .. => .notFound
  | .inappropriateType _ code _ | .invalidArgument _ code _ => ofCode code (toString e)
  | _ => .other (toString e)

def attempt (action : IO α) : IO (Except FileError α) := do
  try
    return .ok (← action)
  catch e => return .error (ofIOError e)

def readContent (path : String) : IO (Except FileError Content) := do
  match ← attempt (IO.FS.readBinFile path) with
  | .ok bytes => return .ok (.file bytes.data.toList)
  | .error .directory => return .ok .directory
  | .error e => return .error e

def readStdin : IO (List UInt8) := do
  return (← (← IO.getStdin).readBinToEnd).data.toList

def realName (path : String) : IO String := do
  match ← attempt (IO.FS.realPath path) with
  | .ok real => return toString real
  | .error _ => return path

def worldOf (stdin : List UInt8) (contents : List (String × Except FileError Content))
    (realNames : List (String × String)) (writable : Except FileError Unit) : World where
  stdin := stdin
  content path := (contents.lookup path).getD (.error .notFound)
  create _ := writable
  sameFile a b := a == b || (realNames.lookup a).isSome && realNames.lookup a == realNames.lookup b

def runTool (L : Library) (tool : Tool) (args : List String) : IO Outcome := do
  let inputs := tool.inputs L args
  let contents ← inputs.mapM fun path => return (path, ← readContent path)
  let stdin ← if tool.readsStdin L args then readStdin else pure []
  let optimistic := tool.run L (worldOf stdin contents [] (.ok ())) args
  match optimistic.file with
  | none => return optimistic
  | some (path, _) =>
    let names ← (path :: inputs).mapM fun p => return (p, ← realName p)
    let outcome := tool.run L (worldOf stdin contents names (.ok ())) args
    let text := (outcome.file.map (·.2)).getD ""
    match ← attempt (IO.FS.writeFile path text) with
    | .ok () => return outcome
    | .error e => return tool.run L (worldOf stdin contents names (.error e)) args

end Command
end OpcodeDispatch

def main (args : List String) : IO UInt32 := do
  match args with
  | [] => IO.eprintln "the first argument names the tool"; return 2
  | name :: rest =>
    match OpcodeDispatch.Command.Tool.ofName? name with
    | none => IO.eprintln ("no tool is named " ++ name); return 2
    | some tool =>
      let outcome ← OpcodeDispatch.Command.runTool .standard tool rest
      IO.print outcome.stdout
      IO.eprint outcome.stderr
      return UInt32.ofNat outcome.exit
