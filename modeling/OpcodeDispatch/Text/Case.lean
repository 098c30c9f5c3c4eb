/-!
The case of ASCII letters; every other character is left alone.
-/

namespace OpcodeDispatch
namespace Text

def upper (s : String) : String := String.ofList (s.toList.map Char.toUpper)

def lower (s : String) : String := String.ofList (s.toList.map Char.toLower)

theorem upper_append (s t : String) : upper (s ++ t) = upper s ++ upper t := by
  simp [upper]

end Text
end OpcodeDispatch
