import OnePass.CommandLine.Outcome

/-!
The command. It looks at the disk under the paths that the arguments name, and then does what the
library says.
-/

namespace OnePass.Main

/-- The paths that a command line makes the program look at. -/
def paths (arguments : List String) : List String :=
  match CommandLine.Request.ofArguments arguments with
  | .ok (.list i) =>
    let places (raw : String) := [raw, (Path.ofString raw).text, (Path.ofString raw).parent.text]
    (i.input :: i.output.toList).flatMap places
  | _ => []

/-- The error number of something that is a directory. -/
def directoryNumber : UInt32 := 21

/-- The error number of a path or name that is too long. -/
def overlongNumber : UInt32 := 36

def observe (path : String) : IO Disk.Item := do
  try
    return .file (← IO.FS.readBinFile path)
  catch
    | .noFileOrDirectory _ _ _ => return .missing
    | .inappropriateType _ number _ =>
      return if number == directoryNumber then .directory else .blocked
    | failure@(.invalidArgument _ number _) =>
      if number == overlongNumber || number == 0 - overlongNumber then return .overlong
      else throw failure
    | failure => throw failure

def snapshot (paths : List String) : IO Disk := do
  let items ← paths.mapM fun path => return (path, ← observe path)
  return ⟨fun path => (items.lookup path).getD .missing, fun _ => true⟩

def settings : IO Settings := do
  return ⟨← IO.getEnv "MINIPLC0_LEGACY_STORE", ← IO.getEnv "MINIPLC0_MAX_INTEGER"⟩

/-- Write the file and print what is to be printed. -/
def perform (o : CommandLine.Outcome) : IO UInt32 := do
  if let some (path, text) := o.written then IO.FS.writeFile path.text text
  IO.print o.stdout
  IO.eprint o.stderr
  return UInt32.ofNat o.exit.number

/-- Follow a command line on a disk. Wrong use is answered with the usage. -/
def follow (disk : Disk) (settings : Settings) (arguments : List String) : IO UInt32 := do
  match CommandLine.run disk settings arguments with
  | .ok outcome => perform outcome
  | .error _ =>
    IO.eprint CommandLine.usage
    return UInt32.ofNat ExitCode.invalidArguments.number

/-- Only the attempt to write shows whether it is allowed. -/
def command (arguments : List String) : IO UInt32 := do
  let settings ← settings
  let disk ← snapshot (paths arguments)
  try
    follow disk settings arguments
  catch
    | .permissionDenied _ _ _ => follow { disk with mayWrite := fun _ => false } settings arguments
    | failure => throw failure

end OnePass.Main

def main (arguments : List String) : IO UInt32 := OnePass.Main.command arguments
