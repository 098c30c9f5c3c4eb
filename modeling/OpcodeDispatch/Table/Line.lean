import OpcodeDispatch.FileError
import OpcodeDispatch.Text.Blank

/-!
The lines of a table. A line ends at a line feed, before which one carriage return is dropped; text
after the last line feed is a line too, as it stands.
-/

namespace OpcodeDispatch

inductive Line where
  | text (s : String)
  | unreadable (cause : FileError)
  deriving DecidableEq

namespace Line

def ofBytes (bytes : List UInt8) : Line :=
  match String.fromUTF8? ⟨bytes.toArray⟩ with
  | some s => text s
  | none => unreadable .notText

def dropReturn (bytes : List UInt8) : List UInt8 :=
  if bytes.getLast? = some 13 then bytes.dropLast else bytes

/-- The line of the bytes after the last line feed, if there are any. -/
def unfinished : List UInt8 → List Line
  | [] => []
  | bytes => [ofBytes bytes]

def ofTable (bytes : List UInt8) : List Line :=
  let pieces := bytes.splitOn 10
  pieces.dropLast.map (ofBytes ∘ dropReturn) ++ unfinished (pieces.getLastD [])

def isBlank : Line → Bool
  | text s => Text.isBlank s
  | unreadable _ => false

/-- The words that mark the record of an opcode without an instruction, in any case. -/
def placeholders : List String := ["-", "XX", "UNDEFINED", "ILLEGAL"]

/-- A line that is ended does not depend on what follows it. -/
theorem ofTable_append (p s : List UInt8) :
    ofTable (p ++ 10 :: s) = ofTable (p ++ [10]) ++ ofTable s := by
  have hs := List.splitOn_ne_nil (10 : UInt8) s
  unfold ofTable
  rw [List.splitOn_append_cons_self, List.splitOn_append_cons_self]
  dsimp only
  rw [List.dropLast_append_of_ne_nil hs, List.dropLast_append_of_ne_nil (by simp)]
  simp only [List.getLastD_eq_getLast?, List.getLast?_append]
  cases h : (s.splitOn 10).getLast? with
  | none => exact absurd (List.getLast?_eq_none_iff.1 h) hs
  | some l => simp [unfinished]

end Line

/-- The bytes of a table given as text. -/
def bytesOfText (s : String) : List UInt8 := s.toUTF8.data.toList

end OpcodeDispatch
