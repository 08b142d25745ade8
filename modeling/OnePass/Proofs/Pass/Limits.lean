import OnePass.Proofs.Pass.FrontEnds
import OnePass.Proofs.Token.Spellings

/-!
Two limits. A text that is accepted under a limit is accepted under every greater one, and turned
into the same. Under a smaller one it is turned into the same as well, unless one of its numbers is
above the limit, and then the first such number is refused.
-/

namespace OnePass

variable {limit limit' : Int}

/-! ### Tokens under two limits -/

namespace Lexeme

end Lexeme

namespace Token

variable {c next : Cursor} {t : Token}

end Token

namespace Cursor

variable {file source : String} {c c' : Cursor} {ts us : List Token}

end Cursor

/-! ### Passes under two limits -/

namespace Options

variable {o o' : Options} {file source : String} {d : Diagnostic} {s : Pass} {ts : List Token}
  {c : Compilation} {t : Token}

end Options
end OnePass
