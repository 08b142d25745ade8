import OnePass.Text.Pieces

/-!
Paths as people write them. `Path.ofString` drops empty and `.` segments, which name the directory
that they stand in; a `..` segment stays, since it depends on what stands before it.
-/

namespace OnePass

structure Path where
  /-- The slashes in front: none, one, or exactly two. -/
  root : String
  segments : List String
  deriving DecidableEq

namespace Path

/-- The pieces between slashes. -/
def rawSegments (s : String) : List String := (Text.pieces '/' s.toList).map String.ofList

def isIdle (segment : String) : Bool := segment == "" || segment == "."

def ofString (s : String) : Path where
  root :=
    match s.toList.takeWhile (· == '/') with
    | [] => ""
    | ['/', '/'] => "//"
    | _ => "/"
  segments := (rawSegments s).filter fun segment => !isIdle segment

def text (p : Path) : String :=
  if p.segments = [] then (if p.root = "" then "." else p.root)
  else p.root ++ "/".intercalate p.segments

/-- The directory that a path's last segment stands in. -/
def parent (p : Path) : Path := { p with segments := p.segments.dropLast }

end Path
end OnePass
