/-!
White space in the table's text: which characters it is, trimming, words, and the cut at the
first blank. A character is blank when it has the Unicode property White_Space.
-/

namespace OpcodeDispatch
namespace Text

/-- The code points with the property White_Space. -/
def spaces : List Nat :=
  [0x09, 0x0A, 0x0B, 0x0C, 0x0D, 0x20, 0x85, 0xA0, 0x1680,
   0x2000, 0x2001, 0x2002, 0x2003, 0x2004, 0x2005, 0x2006, 0x2007, 0x2008, 0x2009, 0x200A,
   0x2028, 0x2029, 0x202F, 0x205F, 0x3000]

def isSpace (c : Char) : Bool := spaces.contains c.toNat

def trimLeft (cs : List Char) : List Char := cs.dropWhile isSpace

def trimRight (cs : List Char) : List Char := (cs.reverse.dropWhile isSpace).reverse

/-- The text without its leading and trailing white space. -/
def trim (s : String) : String := String.ofList (trimRight (trimLeft s.toList))

def isBlank (s : String) : Bool := s.toList.all isSpace

/-- The maximal runs of characters that are not white space, in order. -/
def words (s : String) : List String :=
  ((s.toList.splitOnP isSpace).filter (!·.isEmpty)).map String.ofList

/-- The text before the first blank, and the text after that blank. -/
def cutAtSpace (s : String) : String × String :=
  (String.ofList (s.toList.takeWhile (!isSpace ·)),
   String.ofList ((s.toList.dropWhile (!isSpace ·)).drop 1))

/-- The pieces between the separators; a text without one is one piece. -/
def pieces (separator : Char) (s : String) : List String :=
  (s.toList.splitOn separator).map String.ofList

theorem intercalate_pieces (c : Char) (s : String) :
    (String.singleton c).intercalate (pieces c s) = s := by
  simp [String.ext_iff, pieces, List.map_map, Function.comp_def, List.intercalate_splitOn]

theorem words_empty : words "" = [] := by decide

theorem isBlank_append (s t : String) : isBlank (s ++ t) = (isBlank s && isBlank t) := by
  simp [isBlank]

end Text
end OpcodeDispatch
