import OnePass.Instruction
import OnePass.Token

/-!
The marks that stand for operations between two operands. Those of `multiplicative?` bind more
tightly than those of `additive?`.
-/

namespace OnePass.Token.Kind

def additive? : Kind → Option Operation
  | plus => some .add
  | minus => some .sub
  | _ => none

def multiplicative? : Kind → Option Operation
  | times => some .mul
  | slash => some .div
  | _ => none

theorem ne_eof_of_additive? {k : Kind} {o : Operation} (h : k.additive? = some o) : k ≠ eof := by
  rintro rfl
  cases h

theorem ne_eof_of_multiplicative? {k : Kind} {o : Operation} (h : k.multiplicative? = some o) :
    k ≠ eof := by
  rintro rfl
  cases h

end OnePass.Token.Kind
