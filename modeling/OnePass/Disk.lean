import OnePass.Path
import OnePass.Text.Line
import OnePass.Text.Utf8

/-!
What a program can see of a disk: what is found under a path as written. A file's text is its
bytes read as UTF-8, with every line end read as a line feed.
-/

namespace OnePass

namespace Disk

inductive Item where
  | missing
  /-- A file stands where the path needs a directory. -/
  | blocked
  /-- The path, or a name that the search for it comes to, is longer than the disk allows. -/
  | overlong
  | directory
  | file (bytes : ByteArray)

end Disk

structure Disk where
  look : String → Disk.Item
  /-- Whether a file may be made or changed under a path, if nothing is in the way. -/
  mayWrite : String → Bool

namespace Disk

/-- Why a path cannot be opened. -/
inductive Obstacle where
  | missing (path : Path)
  | blocked (path : Path)
  | overlong (path : Path)
  | directory (path : Path)
  | forbidden (path : Path)
  deriving DecidableEq

def Obstacle.message : Obstacle → String
  | .missing p => "[Errno 2] No such file or directory: " ++ Text.quoted p.text
  | .forbidden p => "[Errno 13] Permission denied: " ++ Text.quoted p.text
  | .blocked p => "[Errno 20] Not a directory: " ++ Text.quoted p.text
  | .directory p => "[Errno 21] Is a directory: " ++ Text.quoted p.text
  | .overlong p => "[Errno 36] File name too long: " ++ Text.quoted p.text

def read (disk : Disk) (p : Path) : Except Obstacle ByteArray :=
  match disk.look p.text with
  | .missing => .error (.missing p)
  | .blocked => .error (.blocked p)
  | .overlong => .error (.overlong p)
  | .directory => .error (.directory p)
  | .file bytes => .ok bytes

/-- What keeps a file from being written under a path: over a file, or new in a directory. -/
def obstacle? (disk : Disk) (p : Path) : Option Obstacle :=
  let allowed := if disk.mayWrite p.text then none else some (.forbidden p)
  match disk.look p.text with
  | .file _ => allowed
  | .directory => some (.directory p)
  | .blocked => some (.blocked p)
  | .overlong => some (.overlong p)
  | .missing =>
    match disk.look p.parent.text with
    | .directory => allowed
    | _ => some (.missing p)

/-- The text that bytes hold. -/
def textOf (bytes : ByteArray) : Except Text.Utf8.Fault String :=
  (Text.Utf8.decode bytes).map fun s => String.ofList (Text.normalizeNewlines s.toList)

/-- The most bytes that a name may have. -/
def nameLimit : Nat := 255

/-- The most bytes that a path may have. -/
def pathLimit : Nat := 4095

/-- What stands below the root of a disk, as far as every disk has it. -/
def standardItem : List String → Item
  | [] | ["bin"] | ["dev"] | ["etc"] | ["home"] | ["tmp"] | ["usr"] | ["var"] => .directory
  | ["dev", "null"] => .file .empty
  | _ => .missing

end Disk

/-- A tree of files and directories below the working directory. -/
structure Tree where
  files : List (List String × ByteArray)
  directories : List (List String)

namespace Tree

def item (t : Tree) (place : List String) : Disk.Item :=
  match t.files.lookup place with
  | some bytes => .file bytes
  | none =>
    if place = [] ∨ t.directories.any place.isPrefixOf ∨ t.files.any (place.isPrefixOf ·.1) then
      .directory
    else .missing

/-- Where a walk along a path has come. -/
inductive Spot where
  | within (place : List String)
  /-- Below the root of the disk, outside of the tree. -/
  | rooted (place : List String)
  /-- In a directory above the tree, of which nothing else is known. -/
  | above
  | lost
  | blocked
  | overlong

def Spot.down (segment : String) : Spot → Spot
  | within place => within (place ++ [segment])
  | rooted place => rooted (place ++ [segment])
  | _ => lost

def Spot.up : Spot → Spot
  | within [] => above
  | within place => within place.dropLast
  | rooted place => rooted place.dropLast
  | spot => spot

def found (t : Tree) : Spot → Disk.Item
  | .within place => t.item place
  | .rooted place => Disk.standardItem place
  | .above => .directory
  | .lost => .missing
  | .blocked => .blocked
  | .overlong => .overlong

/-- Only a directory can be entered. -/
def enter (t : Tree) (spot : Spot) (segment : String) : Spot :=
  match t.found spot with
  | .directory =>
    if Path.isIdle segment then spot
    else if segment = ".." then spot.up
    else if segment.utf8ByteSize ≤ Disk.nameLimit then spot.down segment
    else .overlong
  | .file _ | .blocked => .blocked
  | .missing => .lost
  | .overlong => .overlong

/-- Walk along a path, with every segment as written. -/
def walk (t : Tree) (path : String) : Spot :=
  if path = "" then .lost
  else if path.utf8ByteSize ≤ Disk.pathLimit then
    let origin := if path.startsWith "/" then .rooted [] else .within []
    (Path.rawSegments path).foldl t.enter origin
  else .overlong

def disk (t : Tree) : Disk where
  look path := t.found (t.walk path)
  mayWrite _ := true

/-- The tree with a file written. A file outside of the tree is not part of it. -/
def write (t : Tree) (path : String) (bytes : ByteArray) : Tree :=
  match t.walk path with
  | .within place =>
    { t with files := (place, bytes) :: t.files.filter fun f => f.1 != place }
  | _ => t

end Tree
end OnePass
