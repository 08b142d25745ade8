/-!
What a command line asks for. Options may stand anywhere, a long option's value may follow `=`,
short options may be joined, and `--` ends the options. A later option overrides an earlier one
that contradicts it.
-/

namespace OnePass.CommandLine

/-- A request to list the instructions or the tokens of a file. -/
structure Invocation where
  input : String
  output : Option String
  listsTokens : Bool
  legacyStore : Bool
  verbose : Bool
  deriving DecidableEq

inductive Request where
  | list (i : Invocation)
  | version
  | help
  deriving DecidableEq

/-- Why a command line cannot be followed. -/
inductive Misuse where
  | unknownOption (option : String)
  | missingValue (option : String)
  | unexpectedValue (option : String)
  | noInput
  | extraArguments
  | inputMissing (path : String)
  | inputIsDirectory (path : String)
  | outputIsDirectory (path : String)
  deriving DecidableEq

inductive Switch where
  | tokens
  | instructions
  | legacyStore
  | verbose
  | version
  | help
  deriving DecidableEq

/-- The parts of a command line. -/
inductive Word where
  | switch (s : Switch)
  | output (path : String)
  | argument (text : String)
  deriving DecidableEq

/-- What an option is: a switch, or the one option that has a value. -/
inductive Meaning where
  | switch (s : Switch)
  | output
  deriving DecidableEq

def longOption? : String → Option Meaning
  | "--tokenize" => some (.switch .tokens)
  | "--analyse" => some (.switch .instructions)
  | "--output" => some .output
  | "--legacy-store" => some (.switch .legacyStore)
  | "--verbose" => some (.switch .verbose)
  | "--version" => some (.switch .version)
  | "--help" => some (.switch .help)
  | _ => none

def shortOption? : Char → Option Meaning
  | 't' => some (.switch .tokens)
  | 'l' => some (.switch .instructions)
  | 'o' => some .output
  | 'v' => some (.switch .verbose)
  | _ => none

/-- The words that one argument stands for. In `wantsValue` the next argument is still to come as
the value of the output option. -/
structure Reading where
  words : List Word
  wantsValue : Bool
  deriving DecidableEq

def readLong (text : String) : Except Misuse Reading :=
  let cs := text.toList
  let name := String.ofList (cs.takeWhile (· != '='))
  let value? :=
    match cs.dropWhile (· != '=') with
    | [] => none
    | _ :: value => some (String.ofList value)
  match longOption? name, value? with
  | none, _ => .error (.unknownOption name)
  | some .output, none => .ok ⟨[], true⟩
  | some .output, some value => .ok ⟨[.output value], false⟩
  | some (.switch s), none => .ok ⟨[.switch s], false⟩
  | some (.switch _), some _ => .error (.unexpectedValue name)

/-- Joined short options; what follows the output option is its value. -/
def readJoined : List Char → Except Misuse Reading
  | [] => .ok ⟨[], false⟩
  | c :: cs =>
    match shortOption? c with
    | none => .error (.unknownOption (String.ofList ['-', c]))
    | some .output => .ok (if cs = [] then ⟨[], true⟩ else ⟨[.output (String.ofList cs)], false⟩)
    | some (.switch s) => (readJoined cs).map fun r => { r with words := .switch s :: r.words }

def readArgument (text : String) : Except Misuse Reading :=
  match text.toList with
  | '-' :: '-' :: _ => readLong text
  | '-' :: c :: cs => readJoined (c :: cs)
  | _ => .ok ⟨[.argument text], false⟩

def readAll : List String → Except Misuse (List Word)
  | [] => .ok []
  | text :: rest =>
    if text = "--" then .ok (rest.map .argument)
    else
      match readArgument text with
      | .error m => .error m
      | .ok ⟨words, false⟩ => (readAll rest).map (words ++ ·)
      | .ok ⟨words, true⟩ =>
        match rest with
        | [] => .error (.missingValue "--output")
        | value :: rest => (readAll rest).map (words ++ .output value :: ·)

namespace Word

def argument? : Word → Option String
  | argument text => some text
  | _ => none

def output? : Word → Option String
  | output path => some path
  | _ => none

/-- Whether a word chooses tokens or instructions. -/
def listsTokens? : Word → Option Bool
  | switch .tokens => some true
  | switch .instructions => some false
  | _ => none

/-- Requests that are met before anything else is looked at. -/
def urgent? : Word → Option Request
  | switch .version => some .version
  | switch .help => some .help
  | _ => none

end Word

def Request.ofWords (words : List Word) : Except Misuse Request :=
  match words.findSome? Word.urgent? with
  | some request => .ok request
  | none =>
    match words.filterMap Word.argument? with
    | [] => .error .noInput
    | [input] =>
      .ok (.list
        { input
          output := (words.filterMap Word.output?).getLast?
          listsTokens := (words.filterMap Word.listsTokens?).getLast?.getD false
          legacyStore := words.contains (.switch .legacyStore)
          verbose := words.contains (.switch .verbose) })
    | _ => .error .extraArguments

def Request.ofArguments (arguments : List String) : Except Misuse Request :=
  readAll arguments >>= Request.ofWords

end OnePass.CommandLine
