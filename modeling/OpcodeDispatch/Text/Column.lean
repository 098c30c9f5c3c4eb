/-!
Text in columns: blanks that bring a text to a width, counted in characters. A text that is wider
already is left alone.
-/

namespace OpcodeDispatch
namespace Text

def blanks (n : Nat) : String := String.ofList (List.replicate n ' ')

def padRight (width : Nat) (s : String) : String := s ++ blanks (width - s.length)

def padLeft (width : Nat) (s : String) : String := blanks (width - s.length) ++ s

end Text
end OpcodeDispatch
