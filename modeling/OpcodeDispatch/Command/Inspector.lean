import OpcodeDispatch.Command.Arguments
import OpcodeDispatch.Json.Printer
import OpcodeDispatch.Listing.Json
import OpcodeDispatch.Listing.Text
import OpcodeDispatch.Run

/-!
The inspector's command line: lists a table's opcodes, tallies its families, or checks that the
whole of it compiles.
-/

namespace OpcodeDispatch
namespace Command
namespace Inspector

def renderListing (format : Format) (arms : Bool) (listing : List ListedOpcode) : String :=
  match format with
  | .text => Listing.render arms listing
  | .json => (Listing.toJson listing).pretty

def renderTally (format : Format) (t : Tally) : String :=
  match format with
  | .text => t.render
  | .json => t.toJson.pretty ++ "\n"

/-- The listing of the table in a file. -/
def load (w : World) (s : Settings) (table : String) : Except Failure (List ListedOpcode) :=
  match w.readText table with
  | .error e => .error (.ofFile e)
  | .ok text =>
    match Listing.ofTable s (bytesOfText text) with
    | .ok listing => .ok listing
    | .error f => .error (.ofFault f)

/-- What is wrong with a table whose run ends well. -/
def complaint (summary : Summary) : Option String :=
  if !summary.complete then some "table does not cover every opcode"
  else if summary.diagnostics ≠ 0 then
    some (Numeral.decimal summary.diagnostics ++ " record(s) could not be compiled")
  else none

section

variable (L : Library)

def list (w : World) (s : Settings) (table : String) (format : Format) (arms : Bool)
    (out : Option String) : Outcome :=
  match load w s table with
  | .error f => L.fail "" f
  | .ok listing =>
    let text := renderListing format arms listing
    match out with
    | none => .success text
    | some path =>
      match w.create path with
      | .error e => L.fail "" (.ofFile e)
      | .ok () => (Outcome.success text).toFile path

def families (w : World) (s : Settings) (table : String) (format : Format) : Outcome :=
  match load w s table with
  | .error f => L.fail "" f
  | .ok listing =>
    match Tally.ofListing? listing with
    | none => L.overflow "attempt to add with overflow"
    | some t => .success (renderTally format t)

def check (w : World) (s : Settings) (table : String) (lenient : Bool) : Outcome :=
  let s := if lenient then { s with strictness := .lenient } else s
  match w.content table with
  | .error e => L.fail "" (.ofFile e)
  | .ok content =>
    match (Run.ofLines s content.lines).result with
    | .error f => L.fail "" (.ofFault f)
    | .ok summary =>
      let report := summary.toJson.pretty ++ "\n"
      match complaint summary with
      | none => .success report
      | some text => L.fail report (.ofText text)

def execute (w : World) (i : Invocation) : Outcome :=
  match L.loadSettings w i.config with
  | .error f => L.fail "" f
  | .ok s =>
    match i.task with
    | .list format arms out => list L w s i.table format arms out
    | .families format => families L w s i.table format
    | .check lenient => check L w s i.table lenient

def run (w : World) (args : List String) : Outcome :=
  match L.inspectorArguments args with
  | .ok i => execute L w i
  | .error ending => ending

end

end Inspector
end Command
end OpcodeDispatch
