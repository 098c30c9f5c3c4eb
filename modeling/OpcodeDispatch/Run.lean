import OpcodeDispatch.Arm.OfEntry
import OpcodeDispatch.Arm.Writer
import OpcodeDispatch.Table.Reader

/-!
A run over a table: what is written, also before a fault, and how the run ends.
-/

namespace OpcodeDispatch

structure Summary where
  arms : Nat
  code : Nat
  undefined : Nat
  diagnostics : Nat
  /-- every opcode has its arm -/
  complete : Bool
  deriving DecidableEq

structure Run where
  output : String
  result : Except Fault Summary

/-- The writer of a run, and how many arms of each kind it has written. -/
structure Progress where
  writer : ArmWriter
  code : Nat
  undefined : Nat
  diagnostics : Nat

namespace Progress

def start : Progress := ⟨.empty, 0, 0, 0⟩

def count (p : Progress) : ArmKind → Progress
  | .code => { p with code := p.code + 1 }
  | .undefined => { p with undefined := p.undefined + 1 }
  | .diagnostic => { p with diagnostics := p.diagnostics + 1 }

def write (p : Progress) (a : Arm) : Except Fault Progress := do
  let w ← p.writer.write a
  return { p.count a.kind with writer := w }

def summary (p : Progress) : Summary :=
  ⟨p.writer.written, p.code, p.undefined, p.diagnostics, p.writer.isComplete⟩

end Progress

/-- The cost of a diagnostic: that of the record, if the record has one. -/
def Arm.diagnosticCost? (s : Settings) (e : Entry) : Option String :=
  match e.slot with
  | .reserved => none
  | .record r => (renderCost s r (Family.ofMnemonic r.mnemonic).isBranch).toOption

/-- The arm of an entry, or the diagnostic that a lenient run puts in its place. -/
def Arm.orDiagnostic (s : Settings) (e : Entry) : Except Fault Arm :=
  match ofEntry s e with
  | .ok a => .ok a
  | .error f =>
    if s.isLenient && f.isRecoverable then .ok (diagnostic e.opcode f (diagnosticCost? s e))
    else .error f

namespace Run

/-- Writes the arms of the reader's answers, up to the first fault. -/
def ofAnswers (s : Settings) (p : Progress) : List (Except Fault Entry) → Run
  | [] => ⟨p.writer.output, .ok p.summary⟩
  | answer :: rest =>
    match answer >>= Arm.orDiagnostic s >>= p.write with
    | .ok p' => ofAnswers s p' rest
    | .error f => ⟨p.writer.output, .error f⟩

end Run

def TableReader.ofSettings (s : Settings) (lines : List Line) : TableReader :=
  ofLines lines s.reservedSet s.isLenient

def Run.ofLines (s : Settings) (lines : List Line) : Run :=
  match s.validate with
  | .ok () => ofAnswers s .start (TableReader.ofSettings s lines).all
  | .error f => ⟨"", .error f⟩

def compile (s : Settings) (table : List UInt8) : Run := Run.ofLines s (Line.ofTable table)

/-- The whole output for a table given as text, or the fault alone. -/
def compileText (s : Settings) (table : String) : Except Fault (String × Summary) :=
  let run := compile s (bytesOfText table)
  run.result.map fun summary => (run.output, summary)

end OpcodeDispatch
