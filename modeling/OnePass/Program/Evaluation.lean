import OnePass.Arithmetic
import OnePass.Program

/-!
What a program does, from its tree: declarations, assignments and prints in order. A name has the
value that it was given last, and `-e` is `0 - e`.
-/

namespace OnePass

/-- The values of names, where they have one. -/
abbrev Store := String → Option Int

def Store.set (s : Store) (name : String) (n : Int) : Store :=
  fun x => if x = name then some n else s x

def Expression.evaluate (a : Arithmetic) (s : Store) : Expression → Except Fault Int
  | .name t =>
    match s t.spelling with
    | some n => .ok n
    | none => .error .unset
  | .number t => .ok t.number
  | .group e | .positive e => e.evaluate a s
  | .negative e => do a.apply .sub 0 (← e.evaluate a s)
  | .binary o l r => do
    let left ← l.evaluate a s
    let right ← r.evaluate a s
    a.apply o left right

/-- Give a name the value of an expression. -/
def Store.bind (s : Store) (a : Arithmetic) (name : String) (e : Expression) : Run Store :=
  .silent ((e.evaluate a s).map fun n => s.set name n)

def ConstantDeclaration.evaluate (s : Store) (c : ConstantDeclaration) : Store :=
  s.set c.name.spelling c.value

def VariableDeclaration.evaluate (a : Arithmetic) (s : Store) (v : VariableDeclaration) :
    Run Store :=
  match v.initial with
  | some e => s.bind a v.name.spelling e
  | none => .silent (.ok s)

def Statement.evaluate (a : Arithmetic) (s : Store) : Statement → Run Store
  | .assign t e => s.bind a t.spelling e
  | .print e =>
    match e.evaluate a s with
    | .ok n => ⟨[n], .ok s⟩
    | .error f => .silent (.error f)
  | .empty => .silent (.ok s)

/-- Evaluate one thing after the other. -/
def evaluateEach {α : Type} (evaluate : Store → α → Run Store) (s : Store) : List α → Run Store
  | [] => .silent (.ok s)
  | x :: xs => (evaluate s x).andThen fun s => evaluateEach evaluate s xs

def Program.evaluate (a : Arithmetic) (p : Program) : Run Store :=
  let constants := p.consts.foldl ConstantDeclaration.evaluate fun _ => none
  (evaluateEach (VariableDeclaration.evaluate a) constants p.vars).andThen fun s =>
    evaluateEach (Statement.evaluate a) s p.statements

end OnePass
