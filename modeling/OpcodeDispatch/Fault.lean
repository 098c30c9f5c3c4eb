import OpcodeDispatch.FileError
import OpcodeDispatch.Opcode
import OpcodeDispatch.Text.Quoted

/-!
Everything that can be wrong with a table, a record or a run, with the message of each. A
recoverable fault concerns one record alone, so that a diagnostic can stand in its place.
-/

namespace OpcodeDispatch

inductive Fault where
  /-- a line cannot be read -/
  | unreadable (cause : FileError)
  /-- the table ends at a line, missing by name, that a record cannot do without -/
  | truncated (opcode : Opcode) (line : Nat) (missing : String)
  | endsEarly (opcode : Opcode) (line : Nat)
  | trailing (line : Nat)
  | misaligned (line : Nat) (found : String)
  | badCycles (opcode : Opcode) (token : String)
  | badFlags (line : String)
  | unsupportedOperand (opcode : Opcode) (instruction operand : String)
  | missingOperand (opcode : Opcode) (instruction : String)
  | badRestart (opcode : Opcode) (token : String)
  | outOfOrder (expected got : Opcode)
  | zeroTicks
  deriving DecidableEq

namespace Fault

def isRecoverable : Fault → Bool
  | badCycles .. | unsupportedOperand .. | missingOperand .. | badRestart .. => true
  | _ => false

def message : Fault → String
  | unreadable cause => "I/O error while reading the opcode table: " ++ cause.message
  | truncated op line missing =>
    "record for " ++ op.render ++ " truncated at line " ++ Numeral.decimal line ++ ": missing " ++ missing
  | endsEarly op line => "table ended at line " ++ Numeral.decimal line ++ " before " ++ op.render
  | trailing line => "record at line " ++ Numeral.decimal line ++ " follows the last opcode 0xff"
  | misaligned line found =>
    "line " ++ Numeral.decimal line ++ ": expected a blank separator, found " ++ Quoted.quote found
  | badCycles op token => op.render ++ ": invalid cycle token " ++ Quoted.quote token
  | badFlags line => "invalid flags line " ++ Quoted.quote line
  | unsupportedOperand op instruction operand =>
    op.render ++ ": unsupported operand " ++ Quoted.quote operand ++ " in `" ++ instruction ++ "`"
  | missingOperand op instruction => op.render ++ ": `" ++ instruction ++ "` is missing an operand"
  | badRestart op token => op.render ++ ": invalid restart target " ++ Quoted.quote token
  | outOfOrder expected got =>
    "arm for " ++ got.render ++ " written out of order (expected " ++ expected.render ++ ")"
  | zeroTicks => "ticks_per_cycle must be non-zero"

end Fault
end OpcodeDispatch
