import OnePass.Instruction
import OnePass.Token

/-!
Programs as trees. The leaves are tokens, and every parenthesis and sign of the text has its node,
so a tree says exactly how a text is read.
-/

namespace OnePass

inductive Expression where
  | name (t : Token)
  | number (t : Token)
  | group (e : Expression)
  | positive (e : Expression)
  | negative (e : Expression)
  | binary (o : Operation) (left right : Expression)
  deriving DecidableEq

inductive Sign where
  | none
  | plus
  | minus
  deriving DecidableEq

structure ConstantDeclaration where
  name : Token
  sign : Sign
  number : Token
  deriving DecidableEq

structure VariableDeclaration where
  name : Token
  initial : Option Expression
  deriving DecidableEq

inductive Statement where
  | assign (target : Token) (e : Expression)
  | print (e : Expression)
  | empty
  deriving DecidableEq

structure Program where
  consts : List ConstantDeclaration
  vars : List VariableDeclaration
  statements : List Statement
  deriving DecidableEq

def ConstantDeclaration.value (c : ConstantDeclaration) : Int :=
  if c.sign = .minus then -c.number.number else c.number.number

/-- The declared names in the order of their declarations. -/
def Program.names (p : Program) : List String :=
  (p.consts.map fun c => c.name.spelling) ++ p.vars.map fun v => v.name.spelling

end OnePass
