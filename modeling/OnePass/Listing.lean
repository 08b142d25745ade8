import OnePass.Instruction
import OnePass.Text.Line
import OnePass.Token

/-!
Listings read back. Each line ends in a line feed and is read by itself: an instruction as a name
and perhaps a number, a token as its kind, perhaps a value, and a range of places, with runs of
spaces in between. The kind says how the value is to be read.
-/

namespace OnePass

namespace Text

/-- What stands between runs of spaces. -/
def fields (cs : List Char) : List String :=
  ((pieces ' ' cs).filter fun p => !p.isEmpty).map String.ofList

end Text

namespace Instruction

end Instruction

namespace Token

end Token
end OnePass
