import OnePass.Text.Numeral
import OnePass.Token

/-!
Diagnostics: why a text was refused, at which place, and the line of text to show there. The
wording follows from the cause.
-/

namespace OnePass

namespace Diagnostic

/-- The part of the work in which a cause arises. -/
inductive Phase where
  | any
  | lexical
  | syntactic
  deriving DecidableEq

/-- The kinds of refusal that callers can tell apart. -/
inductive Code where
  | invalidInput
  | invalidInteger
  | expectedToken
  | duplicateDeclaration
  | notDeclared
  | notInitialized
  | assignToConstant
  deriving DecidableEq

def Code.name : Code → String
  | .invalidInput => "INVALID_INPUT"
  | .invalidInteger => "INVALID_INTEGER"
  | .expectedToken => "EXPECTED_TOKEN"
  | .duplicateDeclaration => "DUPLICATE_DECLARATION"
  | .notDeclared => "NOT_DECLARED"
  | .notInitialized => "NOT_INITIALIZED"
  | .assignToConstant => "ASSIGN_TO_CONSTANT"

def Code.all : List Code :=
  [.invalidInput, .invalidInteger, .expectedToken, .duplicateDeclaration, .notDeclared,
   .notInitialized, .assignToConstant]

inductive Cause where
  /-- A cause that only its wording describes. -/
  | worded (phase : Phase) (message : String) (hint : Option String)
  | invalidCharacter (char : Char)
  | integerOutOfRange (literal : String) (limit : Int)
  /-- A literal that is too long to be read, although no longer than the limit's text. -/
  | tooManyDigits (count : Nat)
  | unexpected (expected : List Token.Kind) (actual : Token)
  | redeclared (name : String) (first : Option Location)
  | undeclared (name : String)
  | uninitialized (name : String)
  | constantTarget (name : String)
  | notAStatement (token : Token)
  deriving DecidableEq

namespace Cause

def phase : Cause → Phase
  | worded phase _ _ => phase
  | invalidCharacter _ => .lexical
  | integerOutOfRange _ _ => .lexical
  | tooManyDigits _ => .lexical
  | _ => .syntactic

def code? : Cause → Option Code
  | worded _ _ _ => none
  | invalidCharacter _ => some .invalidInput
  | integerOutOfRange _ _ => some .invalidInteger
  | tooManyDigits _ => none
  | unexpected _ _ => some .expectedToken
  | redeclared _ _ => some .duplicateDeclaration
  | undeclared _ => some .notDeclared
  | uninitialized _ => some .notInitialized
  | constantTarget _ => some .assignToConstant
  | notAStatement _ => some .invalidInput

/-- The number of a character in upper-case hexadecimal, with two digits at least. -/
def characterNumber (c : Char) : String :=
  "0x" ++ String.ofList ((Text.hex 2 c.toNat).map Char.toUpper)

def message : Cause → String
  | worded _ message _ => message
  | invalidCharacter c => "invalid character '" ++ c.toString ++ "' (" ++ characterNumber c ++ ")"
  | integerOutOfRange literal _ => "integer literal '" ++ literal ++ "' is out of range"
  | tooManyDigits count =>
    "Exceeds the limit (" ++ toString Text.Numeral.maxDigits ++
      " digits) for integer string conversion: value has " ++ toString count ++
      " digits; use sys.set_int_max_str_digits() to increase the limit"
  | unexpected expected actual =>
    "expected " ++ " or ".intercalate (expected.map Token.Kind.name) ++
      ", found " ++ actual.describe
  | redeclared name _ => "redeclaration of '" ++ name ++ "'"
  | undeclared name => "undeclared identifier '" ++ name ++ "'"
  | uninitialized name => "'" ++ name ++ "' is not initialized"
  | constantTarget name => "cannot assign to constant '" ++ name ++ "'"
  | notAStatement token => token.describe ++ " cannot start a statement"

def hint : Cause → Option String
  | worded _ _ hint => hint
  | integerOutOfRange _ limit => some ("the largest allowed literal is " ++ toString limit)
  | redeclared name first =>
    first.map fun l => "'" ++ name ++ "' was first declared at " ++ l.text
  | undeclared name =>
    some ("declare it with 'var " ++ name ++ ";' or 'const " ++ name ++ " = ...;'")
  | uninitialized name => some ("assign a value to '" ++ name ++ "' before reading it")
  | constantTarget name => some ("declare '" ++ name ++ "' with 'var' to make it assignable")
  | _ => none

/-- Whether the program's own means, and not the rules of the language, are the cause. -/
def isInternal : Cause → Bool
  | tooManyDigits _ => true
  | _ => false

end Cause
end Diagnostic

structure Diagnostic where
  cause : Diagnostic.Cause
  location : Option Location
  sourceLine : Option String
  deriving DecidableEq

namespace Diagnostic

def message (d : Diagnostic) : String := d.cause.message

def hint (d : Diagnostic) : Option String := d.cause.hint

/-- The source line, indented, and a caret under the column. -/
def excerpt (l : Location) (sourceLine : String) : List String :=
  ("    " ++ sourceLine) ::
    if l.column > 0 then [String.ofList (List.replicate (3 + l.column.toNat) ' ' ++ ['^'])] else []

def reportLines (d : Diagnostic) : List String :=
  let place :=
    match d.location with
    | some l => l.text ++ ": "
    | none => ""
  let shown :=
    match d.location, d.sourceLine with
    | some l, some line => excerpt l line
    | _, _ => []
  let advice :=
    match d.hint with
    | some hint => if hint = "" then [] else ["hint: " ++ hint]
    | none => []
  (place ++ "error: " ++ d.message) :: shown ++ advice

/-- The full report, without a newline at its end. An internal cause is reported by its message
alone. -/
def report (d : Diagnostic) : String :=
  if d.cause.isInternal then d.message else "\n".intercalate d.reportLines

end Diagnostic
end OnePass
