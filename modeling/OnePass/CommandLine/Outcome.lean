import OnePass.CommandLine.Request
import OnePass.Failure
import OnePass.Text.Terminal

/-!
What comes of a command line: an exit code, what is printed, and the file that is written. The
whole listing exists before any of it goes anywhere, so a failure leaves nothing behind.
-/

namespace OnePass.CommandLine

structure Outcome where
  exit : ExitCode
  stdout : String
  stderr : String
  /-- The file written, with its text. -/
  written : Option (Path × String)
  deriving DecidableEq

def version : String := "1.0.0"

/-- What stands in a verbose report of an internal error for an account of the calls. -/
def trace : String := "<traceback>"

/-- Text on its way to a terminal, without control sequences. -/
def echo (s : String) : String := String.ofList (Text.plain s.toList)

/-- The log lines that are shown: all of them, or the warnings. -/
def shownLog (verbose : Bool) (events : List Event) : String :=
  String.join ((events.filter fun e => verbose || e.level == .warning).map fun e => e.line ++ "\n")

/-- What is printed of a failure. -/
def failureText (verbose : Bool) (f : Failure) : String :=
  echo (f.report ++ "\n") ++ if verbose && f.exit == .internalError then trace else ""

/-- The outcome of a failure after some text has been printed. -/
def failed (verbose : Bool) (printed : String) (f : Failure) : Outcome :=
  ⟨f.exit, "", printed ++ failureText verbose f, none⟩

/-- A listing, or why there is none; the log of the work; and remarks for a verbose run. -/
structure Work where
  listing : Except Failure String
  log : List Event
  remarks : List String

def tokenWork (o : Options) (file source : String) : Work where
  listing := ((o.tokens file source).map Token.listing).mapError .refused
  log := o.tokensLog file source
  remarks := []

def instructionWork (o : Options) (file source : String) : Work :=
  let compiled := o.compile file source
  { listing := (compiled.map fun c => Instruction.listing c.code).mapError .refused
    log := o.compileLog file source
    remarks :=
      match compiled with
      | .ok c =>
        ["Tokenized: " ++ toString c.scanned ++ " tokens", "Symbols: " ++ toString c.scope.size]
      | .error _ => [] }

def Invocation.options (i : Invocation) (settings : Settings) : Options :=
  { settings.options with storesFirst := settings.storesFirst && !i.legacyStore }

def Invocation.work (i : Invocation) (settings : Settings) (file source : String) : Work :=
  if i.listsTokens then tokenWork (i.options settings) file source
  else instructionWork (i.options settings) file source

/-- Read the text of a file. -/
def sourceOf (disk : Disk) (p : Path) : Except Failure String :=
  match disk.read p with
  | .error o => .error (.obstacle o)
  | .ok bytes => (Disk.textOf bytes).mapError .undecodable

/-- Give a listing to the terminal or to the output file. -/
def Invocation.deliver (i : Invocation) (disk : Disk) (printed listing : String) : Outcome :=
  match i.output with
  | none => ⟨.success, echo listing, printed, none⟩
  | some output =>
    let path := Path.ofString output
    match disk.obstacle? path with
    | some o => failed i.verbose printed (.obstacle o)
    | none =>
      let note := "Compiled " ++ (Path.ofString i.input).text ++ " -> " ++ path.text ++ "\n"
      ⟨.success, "", printed ++ echo note, some (path, listing)⟩

def Invocation.run (i : Invocation) (disk : Disk) (settings : Settings) : Outcome :=
  let path := Path.ofString i.input
  let warned := shownLog i.verbose settings.warnings
  match sourceOf disk path with
  | .error f => failed i.verbose warned f
  | .ok source =>
    let work := i.work settings path.text source
    let logged := warned ++ shownLog i.verbose work.log
    match work.listing with
    | .error f => failed i.verbose logged f
    | .ok listing =>
      let remarks :=
        if i.verbose then String.join (work.remarks.map fun remark => echo (remark ++ "\n")) else ""
      i.deliver disk (logged ++ remarks) listing

/-- Check that the input is a file and that the output is no directory. -/
def Invocation.check (i : Invocation) (disk : Disk) : Except Misuse Unit := do
  match disk.look i.input with
  | .file _ => .ok ()
  | .directory => .error (.inputIsDirectory i.input)
  | _ => .error (.inputMissing i.input)
  match i.output with
  | none => .ok ()
  | some output =>
    match disk.look output with
    | .directory => .error (.outputIsDirectory output)
    | _ => .ok ()

def usage : String :=
  "Usage: plc0 [-t | -l] [-o OUTPUT] [--legacy-store] [-v] INPUT\n" ++
  "\n" ++
  "  -t, --tokenize       list the tokens\n" ++
  "  -l, --analyse        list the instructions (default)\n" ++
  "  -o, --output FILE    write the listing to a file\n" ++
  "  --legacy-store       do not store first values\n" ++
  "  -v, --verbose        show the log\n" ++
  "  --version            show the version\n" ++
  "  --help               show this text\n"

/-- Follow a command line. -/
def run (disk : Disk) (settings : Settings) (arguments : List String) : Except Misuse Outcome := do
  match ← Request.ofArguments arguments with
  | .version => return ⟨.success, "plc0, version " ++ version ++ "\n", "", none⟩
  | .help => return ⟨.success, usage, "", none⟩
  | .list i =>
    i.check disk
    return i.run disk settings

end OnePass.CommandLine
