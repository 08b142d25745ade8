import OnePass.Program
import OnePass.Scope

/-!
Trees with other tokens instead of theirs. A tree without the places of its tokens tells what a
program says, and not where a text says it; so do declarations without their places.
-/

namespace OnePass

def Token.unplaced (t : Token) : Token := { t with start := .start "", stop := .start "" }

def Declaration.unplaced (d : Declaration) : Declaration := { d with location := none }

def Entry.unplaced (e : Entry) : Entry := { e with declaration := e.declaration.unplaced }

def Expression.map (f : Token → Token) : Expression → Expression
  | .name t => .name (f t)
  | .number t => .number (f t)
  | .group e => .group (e.map f)
  | .positive e => .positive (e.map f)
  | .negative e => .negative (e.map f)
  | .binary o l r => .binary o (l.map f) (r.map f)

def ConstantDeclaration.map (f : Token → Token) (c : ConstantDeclaration) : ConstantDeclaration :=
  ⟨f c.name, c.sign, f c.number⟩

def VariableDeclaration.map (f : Token → Token) (v : VariableDeclaration) : VariableDeclaration :=
  ⟨f v.name, v.initial.map (.map f)⟩

def Statement.map (f : Token → Token) : Statement → Statement
  | .assign t e => .assign (f t) (e.map f)
  | .print e => .print (e.map f)
  | .empty => .empty

def Program.map (f : Token → Token) (p : Program) : Program where
  consts := p.consts.map (.map f)
  vars := p.vars.map (.map f)
  statements := p.statements.map (.map f)

def Program.unplaced (p : Program) : Program := p.map Token.unplaced

end OnePass
