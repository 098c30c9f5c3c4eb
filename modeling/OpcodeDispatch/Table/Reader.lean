import OpcodeDispatch.OpcodeSet
import OpcodeDispatch.Table.Cursor

/-!
The reader of a table: each call of `next` gives the entry of the next opcode, a fault, or nothing,
and the reader that goes on. A record belongs to an opcode by its position alone; a reserved opcode
takes no record, except for a placeholder that stands there.
-/

namespace OpcodeDispatch

inductive Phase where
  /-- the entry of the opcode comes next -/
  | entry (op : Opcode)
  /-- every opcode has its entry, and what follows has not been looked at -/
  | full
  | done
  deriving DecidableEq

namespace Phase

def after (op : Opcode) : Phase :=
  match op.next? with
  | some next => entry next
  | none => full

/-- A bound on the answers that are left. -/
def left : Phase → Nat
  | entry op => 257 - op.val
  | full => 1
  | done => 0

end Phase

structure TableReader where
  cursor : Cursor
  phase : Phase
  reserved : OpcodeSet
  /-- a table that ends early or runs on is no fault -/
  lenient : Bool

namespace TableReader

def ofLines (lines : List Line) (reserved : OpcodeSet) (lenient : Bool) : TableReader :=
  ⟨⟨lines, 0⟩, .entry .first, reserved, lenient⟩

def ofTable (table : List UInt8) (reserved : OpcodeSet) (lenient : Bool) : TableReader :=
  ofLines (Line.ofTable table) reserved lenient

def stop (r : TableReader) : TableReader := { r with phase := .done }

/-- What the table holds for an opcode, nothing if the table has ended. -/
def slot? (r : TableReader) (op : Opcode) : Except Fault (Option Slot × Cursor) := do
  if op ∈ r.reserved then
    if r.cursor.atPlaceholder then
      let (_, c) ← r.cursor.record? op
      return (some .reserved, c)
    else return (some .reserved, r.cursor)
  else
    let (found, c) ← r.cursor.record? op
    return (found.map .record, c)

/-- The next entry and the reader after it, or the end. -/
def step (r : TableReader) : Except Fault (Option (Entry × TableReader)) :=
  match r.phase with
  | .entry op => do
    match ← r.slot? op with
    | (some slot, c) => return some (⟨op, slot⟩, { r with cursor := c, phase := .after op })
    | (none, c) => if r.lenient then return none else .error (.endsEarly op (c.passed + 1))
  | .full => do
    match ← r.cursor.nonBlank? with
    | (some _, c) => if r.lenient then return none else .error (.trailing (c.passed + 1))
    | (none, _) => return none
  | .done => .ok none

def next (r : TableReader) : Option (Except Fault Entry) × TableReader :=
  match r.step with
  | .ok (some (e, r')) => (some (.ok e), r')
  | .ok none => (none, r.stop)
  | .error f => (some (.error f), r.stop)

/-- The answers of at most `n` calls, up to the first that gives nothing. -/
def answers : (n : Nat) → TableReader → List (Except Fault Entry)
  | 0, _ => []
  | n + 1, r =>
    match r.next with
    | (none, _) => []
    | (some a, r') => a :: answers n r'

/-- The reader after `n` calls. -/
def advance : (n : Nat) → TableReader → TableReader
  | 0, r => r
  | n + 1, r => advance n r.next.2

/-- Every answer of the reader. -/
def all (r : TableReader) : List (Except Fault Entry) := r.answers r.phase.left

theorem next_stop (r : TableReader) : r.stop.next = (none, r.stop) := rfl

end TableReader
end OpcodeDispatch
