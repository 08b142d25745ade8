import OnePass.Pass.Run

/-!
What can be done with a pass from outside: tokens are looked at or taken, a part of the grammar is
found by itself, and a name is added to the scope. What was done before a failure stays done, and
any other action may follow.
-/

namespace OnePass

/-- The parts of the grammar that can be found by themselves, a constant's value apart. -/
inductive Part where
  | program
  | body
  | consts
  | vars
  | statements
  | statement
  | assignment
  | output
  | expression
  | item
  | factor
  deriving DecidableEq

def Part.goals : Part → List Goal
  | program => Goal.program
  | body => Goal.body
  | consts => [.consts]
  | vars => [.vars]
  | statements => [.statements]
  | statement => [.statement]
  | assignment => [.assignment]
  | output => [.output]
  | expression => [.expression]
  | item => [.item]
  | factor => [.factor]

inductive Action where
  | peek
  | next
  | check (k : Token.Kind)
  | nextIf (k : Token.Kind)
  | expect (k : Token.Kind)
  | constantValue
  | find (part : Part)
  /-- Pass over a whole program. -/
  | pass
  /-- Add a name that no token stands for. -/
  | add (name : String) (isConstant isInitialized : Bool)
  deriving DecidableEq

namespace PassM

/-- Add a declaration without a place. -/
def add (name : String) (isConstant isInitialized : Bool) : PassM Unit := do
  let s ← get
  match s.scope.declare ⟨name, isConstant, isInitialized, none⟩ with
  | .ok scope => set { s with scope }
  | .error e => throw ⟨.redeclared name e.declaration.location, none, none⟩

/-- Do something, whatever it gives. -/
def act : Action → PassM Unit
  | .peek => discard peek
  | .next => discard next
  | .check k => discard (check k)
  | .nextIf k => discard (nextIf k)
  | .expect k => discard (expect k)
  | .constantValue => discard constantValue
  | .find part => run part.goals
  | .pass => program
  | .add name isConstant isInitialized => add name isConstant isInitialized

end PassM

end OnePass
