import OpcodeDispatch.Fault
import OpcodeDispatch.Table.Line

/-!
What a command sees of its surroundings, and what it leaves behind.
-/

namespace OpcodeDispatch
namespace Command

/-- What a name that can be opened stands for. -/
inductive Content where
  | file (bytes : List UInt8)
  | directory
  deriving DecidableEq

namespace Content

/-- The lines of a table. That a directory is none shows when its first line is read. -/
def lines : Content → List Line
  | file bytes => Line.ofTable bytes
  | directory => [.unreadable .directory]

def text : Content → Except FileError String
  | file bytes =>
    match Line.ofBytes bytes with
    | .text s => .ok s
    | .unreadable e => .error e
  | directory => .error .directory

end Content

structure World where
  stdin : List UInt8
  content : String → Except FileError Content
  /-- whether a file of the name can be created -/
  create : String → Except FileError Unit
  /-- whether two names mean one file -/
  sameFile : String → String → Bool

def World.readText (w : World) (path : String) : Except FileError String := w.content path >>= Content.text

/-- Why a command fails: what it says, and the cause it gives. -/
structure Failure where
  message : String
  cause : Option String
  deriving DecidableEq

namespace Failure

def ofFault (f : Fault) : Failure :=
  match f with
  | .unreadable cause => ⟨f.message, some cause.message⟩
  | _ => ⟨f.message, none⟩

def ofFile (e : FileError) : Failure := ⟨e.message, none⟩

def ofText (message : String) : Failure := ⟨message, none⟩

/-- The failure, caused by another, of an attempt. -/
def during (attempt cause : String) : Failure := ⟨attempt, some cause⟩

end Failure

structure Outcome where
  exit : Nat
  stdout : String
  stderr : String
  /-- the file that was written -/
  file : Option (String × String)
  deriving DecidableEq

namespace Outcome

def success (stdout : String) : Outcome := ⟨0, stdout, "", none⟩

/-- The outcome with its standard output in a file instead. -/
def toFile (path : String) (o : Outcome) : Outcome := ⟨o.exit, "", o.stderr, some (path, o.stdout)⟩

end Outcome
end Command
end OpcodeDispatch
