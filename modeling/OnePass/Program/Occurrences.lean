import OnePass.Program.Names

/-!
The events of names without a tree. The token before a name tells its role: behind `const` and `var`
a name is introduced, behind `begin` and `;` it is the target of an assignment, and anywhere else it
is read. What is declared or assigned takes effect at the next `;`.
-/

namespace OnePass.NameEvent

/-- A name's role behind a token. -/
def ofName (previous : Token.Kind) (t : Token) : NameEvent :=
  match previous with
  | .constWord | .varWord => .introduced t
  | .beginWord | .semicolon => .targeted t
  | _ => .read t

/-- What takes effect at the next `;`, once a name has been passed. -/
def begun (previous : Token.Kind) (t : Token) (pending : Option NameEvent) : Option NameEvent :=
  match previous with
  | .constWord => some (.declared t true true)
  | .varWord => some (.declared t false false)
  | .beginWord | .semicolon => some (.assigned t)
  | _ => pending

/-- A variable that is declared with an initializer has a value. -/
def initialized : NameEvent → NameEvent
  | .declared t isConstant _ => .declared t isConstant true
  | e => e

/-- The events of tokens that stand behind a token. -/
def ofTokens (previous : Token.Kind) (pending : Option NameEvent) : List Token → List NameEvent
  | [] => []
  | t :: ts =>
    match t.kind with
    | .ident => ofName previous t :: ofTokens .ident (begun previous t pending) ts
    | .equals => ofTokens .equals (pending.map initialized) ts
    | .semicolon => pending.toList ++ ofTokens .semicolon none ts
    | k => ofTokens k pending ts

end OnePass.NameEvent
