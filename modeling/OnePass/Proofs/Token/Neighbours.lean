import OnePass.Proofs.Token.Spellings

/-!
Which lexemes need a blank between them. With the blanks that they need, lexemes are read as they
are written. Without such a blank two of them are read as one, so there are fewer tokens then,
unless a numeral that is read becomes too large.
-/

namespace OnePass

namespace Lexeme

variable {limit : Int} {x y : Lexeme}

/-- The lexeme that is read where another one follows without a blank. -/
def joined : Lexeme → Lexeme → Lexeme
  | word cs, y => word (cs ++ y.spelling)
  | numeral ds, y => numeral (ds ++ y.spelling)
  | mark c, _ => mark c

end Lexeme

namespace Layout

variable {limit limit' : Int} {xs : List (List Char × Lexeme)} {tail : List Char} {l : Layout}

end Layout

namespace Options

variable {o : Options} {file : String} {xs : List (List Char × Lexeme)} {tail : List Char}
  {ts : List Token} {l : Layout}

end Options
end OnePass
