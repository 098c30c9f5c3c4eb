import OpcodeDispatch.Json

/-!
Writing JSON: `compact` on one line without blanks, `pretty` with two blanks a level and one item a
line.
-/

namespace OpcodeDispatch
namespace Json

def renderBool (b : Bool) : String := if b then "true" else "false"

def quoted (literal : String) : String := "\"" ++ literal ++ "\""

mutual

def compact : Json → String
  | null => "null"
  | bool b => renderBool b
  | number l => l
  | string l => quoted l
  | array items => "[" ++ ",".intercalate (compactItems items) ++ "]"
  | object members => "\x7b" ++ ",".intercalate (compactMembers members) ++ "\x7d"
termination_by structural j => j

def compactItems : List Json → List String
  | [] => []
  | j :: js => compact j :: compactItems js
termination_by structural js => js

def compactMembers : List (String × Json) → List String
  | [] => []
  | m :: ms => compactMember m :: compactMembers ms
termination_by structural ms => ms

def compactMember : String × Json → String
  | (k, v) => quoted k ++ ":" ++ compact v
termination_by structural m => m

end

def newline (depth : Nat) : String := "\n" ++ String.ofList (List.replicate (2 * depth) ' ')

/-- Items between brackets, each on a line one level deeper; nothing stands between the brackets of
an empty list. -/
def block (opening closing : String) (depth : Nat) (items : List String) : String :=
  if items.isEmpty then opening ++ closing
  else opening ++ newline (depth + 1) ++ ("," ++ newline (depth + 1)).intercalate items ++
    newline depth ++ closing

mutual

/-- The text of a value whose lines stand `depth` levels deep. -/
def prettyAt (depth : Nat) : Json → String
  | null => "null"
  | bool b => renderBool b
  | number l => l
  | string l => quoted l
  | array items => block "[" "]" depth (prettyItems (depth + 1) items)
  | object members => block "\x7b" "\x7d" depth (prettyMembers (depth + 1) members)
termination_by structural j => j

def prettyItems (depth : Nat) : List Json → List String
  | [] => []
  | j :: js => prettyAt depth j :: prettyItems depth js
termination_by structural js => js

def prettyMembers (depth : Nat) : List (String × Json) → List String
  | [] => []
  | m :: ms => prettyMember depth m :: prettyMembers depth ms
termination_by structural ms => ms

def prettyMember (depth : Nat) : String × Json → String
  | (k, v) => quoted k ++ ": " ++ prettyAt depth v
termination_by structural m => m

end

def pretty (j : Json) : String := prettyAt 0 j

end Json
end OpcodeDispatch
