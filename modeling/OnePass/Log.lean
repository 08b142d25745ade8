import OnePass.Diagnostic

/-!
The log: what the work did, one event at a time, and the line that tells of it.
-/

namespace OnePass

inductive Event where
  | compiling (file : String) (characters : Nat)
  | declared (isConstant : Bool) (name : String) (slot : Nat)
  | unrecognized (char : Char) (place : Location)
  | analysed (file : String) (names instructions : Nat)
  | compiled (file : String) (instructions : Nat)
  | ignoredLimit (setting : String)
  deriving DecidableEq

namespace Event

inductive Level where
  | debug
  | warning
  deriving DecidableEq

def Level.name : Level → String
  | debug => "DEBUG"
  | warning => "WARNING"

def level : Event → Level
  | ignoredLimit _ => .warning
  | _ => .debug

/-- The part of the program that speaks. -/
def speaker : Event → String
  | declared _ _ _ | analysed _ _ _ => "miniplc0.analyser"
  | unrecognized _ _ => "miniplc0.tokenizer"
  | compiling _ _ | compiled _ _ | ignoredLimit _ => "miniplc0.compiler"

def message : Event → String
  | compiling file characters =>
    "Compiling " ++ file ++ " (" ++ toString characters ++ " characters)"
  | declared isConstant name slot =>
    "Declared " ++ (if isConstant then "const" else "var") ++ " '" ++ name ++ "' at offset " ++
      toString slot
  | unrecognized char place =>
    "Unrecognized character " ++ Text.quoted char.toString ++ " at " ++ place.text
  | analysed file names instructions =>
    "Analysed " ++ file ++ ": " ++ toString names ++ " symbols, " ++ toString instructions ++
      " instructions"
  | compiled file instructions =>
    "Compiled " ++ file ++ ": " ++ toString instructions ++ " instructions"
  | ignoredLimit setting => "Ignoring invalid MINIPLC0_MAX_INTEGER=" ++ Text.quoted setting

def line (e : Event) : String := e.level.name ++ " " ++ e.speaker ++ ": " ++ e.message

/-- The event of meeting a character that starts no token. -/
def ofDiagnostic? (d : Diagnostic) : Option Event :=
  match d.cause, d.location with
  | .invalidCharacter c, some l => some (.unrecognized c l)
  | _, _ => none

end Event
end OnePass
