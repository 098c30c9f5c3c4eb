import OpcodeDispatch.Text.Case

/-!
Mnemonic families: the mnemonics that are compiled alike. The table lists the mnemonics that have
a family of their own; any other belongs to `nullary`.
-/

namespace OpcodeDispatch

inductive Logic where
  | and | or | xor | compare
  deriving DecidableEq

inductive Family where
  | load | relativeJump | ret | call | jump | increment | decrement
  | add (carry : Bool)
  | subtract (carry : Bool)
  | logic (op : Logic)
  | push | pop | restart
  /-- the byte that opens the second opcode page -/
  | extension
  /-- a primitive of the mnemonic's own name, without arguments -/
  | nullary
  deriving DecidableEq

namespace Family

def table : List (String × Family) :=
  [("LD", load), ("LDH", load), ("JR", relativeJump), ("RET", ret), ("RETI", ret), ("CALL", call),
   ("JP", jump), ("INC", increment), ("DEC", decrement), ("ADD", add false), ("ADC", add true),
   ("SUB", subtract false), ("SBC", subtract true), ("AND", logic .and), ("OR", logic .or),
   ("XOR", logic .xor), ("CP", logic .compare), ("PUSH", push), ("POP", pop), ("RST", restart),
   ("PREFIX", extension)]

def find? (mnemonic : String) : Option Family := (table.find? (·.1 == mnemonic)).map (·.2)

/-- The family of a mnemonic in any case of ASCII letters. -/
def ofMnemonic (mnemonic : String) : Family := (find? (Text.upper mnemonic)).getD nullary

/-- Whether the family's primitive reports an extra cost when its branch is taken. -/
def isBranch : Family → Bool
  | relativeJump | ret | call | jump => true
  | _ => false

def name : Family → String
  | load => "load"
  | relativeJump => "relative_jump"
  | ret => "return"
  | call => "call"
  | jump => "jump"
  | increment => "increment"
  | decrement => "decrement"
  | add false => "add"
  | add true => "add_with_carry"
  | subtract false => "subtract"
  | subtract true => "subtract_with_carry"
  | logic .and => "and"
  | logic .or => "or"
  | logic .xor => "xor"
  | logic .compare => "compare"
  | push => "push"
  | pop => "pop"
  | restart => "restart"
  | extension => "prefix"
  | nullary => "nullary"

theorem name_injective {f g : Family} (h : f.name = g.name) : f = g := by
  revert h
  cases f <;> cases g <;> try (rename_i a b; cases a <;> cases b)
  all_goals first | decide | (rename_i a; cases a <;> decide)

example : ofMnemonic "HALT" = nullary := by decide

end Family
end OpcodeDispatch
