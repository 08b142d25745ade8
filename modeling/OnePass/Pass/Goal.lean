import OnePass.Pass.State
import OnePass.Token.Operator

/-!
Goals: what is to be found next in the text, or to be done once the tokens before it have been
found. `step` replaces a goal by the goals it consists of, guided by the one token ahead.

    program    = begin constants variables statements end
    constants  = { const name = [+ | -] number ; }
    variables  = { var name [= expression] ; }
    statements = { name = expression ; | print ( expression ) ; | ; }
    expression = item { (+ | -) item }
    item       = factor { (* | /) factor }
    factor     = [+ | -] (name | number | ( expression ))
-/

namespace OnePass

/-- A token to be found, an instruction to be emitted, or a part of the grammar. A goal that ends a
declaration or an assignment keeps what was found before. -/
inductive Goal where
  | expect (k : Token.Kind)
  | emit (i : Instruction)
  | consts
  | constantName
  | constantValue (name : Token)
  | constantEnd (name : Token) (value : Int)
  | vars
  | variableName
  | variableValue (name : Token)
  | variableEnd (name : Token) (hasValue : Bool)
  | statements
  | statement
  | assignment
  | assignmentEnd (name : Token) (target : Entry)
  | output
  | expression
  | moreItems
  | item
  | moreFactors
  | factor
  | operand
  deriving DecidableEq

namespace Goal

/-- What stands between the words that enclose a program. -/
def body : List Goal := [consts, vars, statements]

def program : List Goal := expect .beginWord :: body ++ [expect .endWord, expect .eof]

end Goal

namespace PassM

open Goal

/-- A constant's value: an optional sign and a number. -/
def constantValue : PassM Int := do
  if (← nextIf .minus).isSome then
    return -(← expect .uint).number
  else
    let _ ← nextIf .plus
    return (← expect .uint).number

/-- The entry of an assigned name, which must not be a constant. -/
def assignable (name : Token) : PassM Entry := do
  let e ← resolve name
  if e.declaration.isConstant then refuse name (.constantTarget name.spelling)
  else return e

/-- The entry of an operand, which must have a value. -/
def readable (name : Token) : PassM Entry := do
  let e ← resolve name
  if e.declaration.isInitialized then return e
  else refuse name (.uninitialized name.spelling)

def assignment : PassM (List Goal) := do
  let name ← expect .ident
  let e ← assignable name
  return [.expect .equals, expression, assignmentEnd name e]

def output : PassM (List Goal) := do
  let _ ← expect .printWord
  return [.expect .lparen, expression, .expect .rparen, .expect .semicolon, .emit .wrt]

def statement : PassM (List Goal) := do
  let t ← peek
  match t.kind with
  | .ident => assignment
  | .printWord => output
  | .semicolon =>
    drop
    return []
  | _ =>
    drop
    refuse t (.notAStatement t)

/-- Take up a goal, and leave the goals that it still consists of. -/
def step : Goal → PassM (List Goal)
  | .expect k => do
    let _ ← expect k
    return []
  | .emit i => do
    emit i
    return []
  | consts => do
    if (← nextIf .constWord).isSome then return [constantName, consts] else return []
  | constantName => do
    let name ← expect .ident
    checkNew name
    return [.expect .equals, .constantValue name]
  | .constantValue name => do
    let value ← constantValue
    return [constantEnd name value]
  | constantEnd name value => do
    let _ ← expect .semicolon
    let _ ← declare name true true
    emit (.lit value)
    return []
  | vars => do
    if (← nextIf .varWord).isSome then return [variableName, vars] else return []
  | variableName => do
    let name ← expect .ident
    checkNew name
    return [variableValue name]
  | variableValue name => do
    if (← nextIf .equals).isSome then return [expression, variableEnd name true]
    else return [variableEnd name false]
  | variableEnd name hasValue => do
    let _ ← expect .semicolon
    let slot ← declare name false hasValue
    if hasValue then storeFirst slot
    return []
  | statements => do
    let t ← peek
    if t.kind ∈ Token.Kind.statementStarts then return (← statement) ++ [statements]
    else return []
  | .statement => statement
  | .assignment => assignment
  | assignmentEnd name e => do
    let _ ← expect .semicolon
    if e.declaration.isInitialized then emit (.sto e.slot)
    else
      markInitialized name
      storeFirst e.slot
    return []
  | .output => output
  | expression => return [item, moreItems]
  | moreItems => do
    let t ← peek
    match t.kind.additive? with
    | some o =>
      drop
      return [item, .emit (.operate o), moreItems]
    | none => return []
  | item => return [factor, moreFactors]
  | moreFactors => do
    let t ← peek
    match t.kind.multiplicative? with
    | some o =>
      drop
      return [factor, .emit (.operate o), moreFactors]
    | none => return []
  | factor => do
    if (← nextIf .minus).isSome then
      emit (.lit 0)
      return [operand, .emit (.operate .sub)]
    else
      let _ ← nextIf .plus
      return [operand]
  | operand => do
    let t ← peek
    match t.kind with
    | .ident =>
      drop
      let e ← readable t
      emit (.lod e.slot)
      return []
    | .uint =>
      drop
      emit (.lit t.number)
      return []
    | .lparen =>
      drop
      return [expression, .expect .rparen]
    | _ => refuse t (.unexpected [.ident, .uint, .lparen] t)

end PassM
end OnePass
