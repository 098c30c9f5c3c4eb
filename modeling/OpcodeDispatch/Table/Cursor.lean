import OpcodeDispatch.Table.Record
import OpcodeDispatch.Table.Line
import OpcodeDispatch.Text.Case

/-!
A place in a table, and the reading of one record from it: the head with the mnemonic and the
operands, the line of the cycles, the line of the flags, and a blank line, which the end of the
table may replace.
-/

namespace OpcodeDispatch

structure Cursor where
  /-- the lines that are left -/
  rest : List Line
  /-- how many lines have been passed -/
  passed : Nat

namespace Cursor

def skipBlanks (c : Cursor) : Cursor :=
  ⟨c.rest.dropWhile Line.isBlank, c.passed + (c.rest.takeWhile Line.isBlank).length⟩

/-- The first line that is not blank, with the cursor before it. -/
def nonBlank? (c : Cursor) : Except Fault (Option String × Cursor) :=
  let c := c.skipBlanks
  match c.rest with
  | [] => .ok (none, c)
  | .text s :: _ => .ok (some s, c)
  | .unreadable cause :: _ => .error (.unreadable cause)

/-- A line that the record of `op` cannot do without, under the name that it has if it is missing. -/
def part (op : Opcode) (missing : String) (c : Cursor) : Except Fault (String × Cursor) :=
  match c.rest with
  | [] => .error (.truncated op (c.passed + 1) missing)
  | .text s :: rest => .ok (s, ⟨rest, c.passed + 1⟩)
  | .unreadable cause :: _ => .error (.unreadable cause)

def separator (c : Cursor) : Except Fault Cursor :=
  match c.rest with
  | [] => .ok c
  | .text s :: rest =>
    if Text.isBlank s then .ok ⟨rest, c.passed + 1⟩ else .error (.misaligned (c.passed + 1) s)
  | .unreadable cause :: _ => .error (.unreadable cause)

end Cursor

/-- The record of three lines, the first of them at `line`. -/
def Record.ofLines (op : Opcode) (line : Nat) (head cycles flags : String) : Record :=
  let (mnemonic, operands) := Text.cutAtSpace (Text.trim head)
  { opcode := op
    line := line
    mnemonic := Text.upper mnemonic
    operands := Text.trim operands
    label := (Text.words cycles)[0]?.getD ""
    cycleToken := (Text.words cycles)[1]?.getD ""
    flags := Text.trim flags }

namespace Cursor

/-- The record at the cursor, unless only blank lines are left. A blank line where a record should
begin is a fault of alignment. -/
def record? (op : Opcode) (c : Cursor) : Except Fault (Option Record × Cursor) :=
  match c.rest with
  | [] => .ok (none, c)
  | l :: _ =>
    if l.isBlank then do
      match ← c.nonBlank? with
      | (none, c) => return (none, c)
      | (some found, c) => .error (.misaligned (c.passed + 1) found)
    else do
      let (head, c) ← part op "mnemonic line" c
      let line := c.passed
      let (cycles, c) ← part op "cycle line" c
      let (flags, c) ← part op "flags line" c
      let c ← c.separator
      return (some (Record.ofLines op line head cycles flags), c)

/-- Whether the next line's first word marks the record of an opcode without an instruction. -/
def atPlaceholder (c : Cursor) : Bool :=
  match c.rest with
  | .text s :: _ => (Text.words s).head?.any fun w => Line.placeholders.contains (Text.upper w)
  | _ => false

end Cursor
end OpcodeDispatch
