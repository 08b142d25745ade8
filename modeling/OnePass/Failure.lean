import OnePass.Compilation
import OnePass.Disk

/-!
Failures: everything that can keep a file from being compiled, with the wording of its report and
the exit code that it leads to.
-/

namespace OnePass

inductive ExitCode where
  | success
  | buildError
  | invalidArguments
  | internalError
  deriving DecidableEq

namespace ExitCode

def number : ExitCode → Nat
  | success => 0
  | buildError => 1
  | invalidArguments => 2
  | internalError => 3

def name : ExitCode → String
  | success => "SUCCESS"
  | buildError => "BUILD_ERROR"
  | invalidArguments => "INVALID_ARGS"
  | internalError => "INTERNAL_ERROR"

def all : List ExitCode := [success, buildError, invalidArguments, internalError]

end ExitCode

inductive Failure where
  | refused (d : Diagnostic)
  | absent (path : String)
  | obstacle (o : Disk.Obstacle)
  | undecodable (fault : Text.Utf8.Fault)
  /-- A failure of which only the wording and the exit code are known. -/
  | worded (exit : ExitCode) (message : String)
  deriving DecidableEq

namespace Failure

def message : Failure → String
  | refused d => d.report
  | absent path => "Source file not found: " ++ path
  | obstacle o => o.message
  | undecodable fault => fault.message
  | worded _ message => message

def exit : Failure → ExitCode
  | refused d => if d.cause.isInternal then .internalError else .buildError
  | absent _ => .invalidArguments
  | obstacle (.missing _) | obstacle (.forbidden _) => .invalidArguments
  | obstacle _ => .internalError
  | undecodable _ => .internalError
  | worded exit _ => exit

/-- What the command line prints of a failure. A diagnostic speaks for itself. -/
def report (f : Failure) : String :=
  match f, f.exit with
  | refused d, .buildError => d.report
  | f, .internalError => "Internal error: " ++ f.message
  | f, _ => "Error: " ++ f.message

end Failure

namespace Options

/-- Compile the file under a path. Diagnostics name the path as it is written. -/
def compileFile (o : Options) (disk : Disk) (path : String) : Except Failure Compilation := do
  let bytes ←
    match disk.read (.ofString path) with
    | .ok bytes => .ok bytes
    | .error (.missing _) | .error (.blocked _) => .error (.absent path)
    | .error o => .error (.obstacle o)
  let source ← (Disk.textOf bytes).mapError .undecodable
  (o.compile (o.nameFor path) source).mapError .refused

end Options
end OnePass
