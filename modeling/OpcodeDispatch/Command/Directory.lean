import OpcodeDispatch.Command.World
import OpcodeDispatch.Text.Blank

/-!
A directory that holds files and no further directories, as the surroundings of a command. A path
is followed part by part from the directory; `.` stays, `..` leaves to where nothing else is, and
nothing lies behind a file. Of the places outside, only the null device is known.
-/

namespace OpcodeDispatch
namespace Command

structure Directory where
  /-- names and texts; the first of a name counts -/
  files : List (String × String)

namespace Directory

/-- Where a path leads. -/
inductive Place where
  | directory
  /-- a name of the directory, which need not have a file -/
  | entry (name : String)
  | null
  deriving DecidableEq

/-- The octets that a name may have. -/
def nameLimit : Nat := 255

/-- The octets that a path may have. -/
def pathLimit : Nat := 4095

def fits (name : String) : Bool := name.utf8ByteSize ≤ nameLimit

def has (d : Directory) (name : String) : Bool := (d.files.lookup name).isSome

def nowhere : Directory := ⟨[]⟩

/-- Why nothing lies behind a name, nor at it if it has no file. -/
def obstacle (d : Directory) (name : String) : FileError :=
  if !fits name then .nameTooLong else if d.has name then .notDirectory else .notFound

/-- Follows the parts of a path; `outside` once they have left the directory. -/
def follow (d : Directory) (outside : Bool) : List String → Except FileError Place
  | [] => .ok .directory
  | part :: rest =>
    if part = "" ∨ part = "." then d.follow outside rest
    else if part = ".." then d.follow true rest
    else if outside then .error (nowhere.obstacle part)
    else if rest = [] then .ok (.entry part)
    else .error (d.obstacle part)

def place (d : Directory) (path : String) : Except FileError Place :=
  if path = "" then .error .notFound
  else if pathLimit < path.utf8ByteSize then .error .nameTooLong
  else if path = "/dev/null" then .ok .null
  else d.follow (path.toList.head? == some '/') (Text.pieces '/' path)

def content (d : Directory) (path : String) : Except FileError Content := do
  match ← d.place path with
  | .directory => return .directory
  | .null => return .file []
  | .entry name =>
    match d.files.lookup name with
    | some text => return .file (bytesOfText text)
    | none => .error (d.obstacle name)

/-- Whether a path can be written to. A slash at its end asks for a directory. -/
def create (d : Directory) (path : String) : Except FileError Unit := do
  let slashes := path.toList.reverse.takeWhile (· == '/')
  let stem := String.ofList (path.toList.take (path.length - slashes.length))
  match ← d.place (if stem = "" then path else stem), slashes with
  | .null, [] => return ()
  | .entry name, [] => if fits name then return () else .error .nameTooLong
  | _, _ => .error .directory

def world (d : Directory) (stdin : List UInt8) : World where
  stdin := stdin
  content := d.content
  create := d.create
  sameFile a b :=
    match d.place a, d.place b with
    | .ok (.entry m), .ok (.entry n) => m == n
    | _, _ => false

/-- The directory once a command has left its outcome. -/
def after (d : Directory) (o : Outcome) : Directory :=
  match o.file with
  | none => d
  | some (path, text) =>
    match d.place path with
    | .ok (.entry name) => ⟨(name, text) :: d.files⟩
    | _ => d

def text? (d : Directory) (path : String) : Option String :=
  (d.content path >>= Content.text).toOption

end Directory
end Command
end OpcodeDispatch
