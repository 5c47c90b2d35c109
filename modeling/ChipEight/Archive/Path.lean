/-!
# Archive/Path — resolving the names of members

A member's name is a path with `/` between its parts.  A part `.` and an empty part between two
slashes say nothing, and `..` takes back the part before it, or nothing at the top, so that no name
leads out of the archive.
-/

namespace ChipEight.Path

/-- The parts that remain, given those kept so far, newest first.  The first and the last part may
be empty: they are what a slash at an end of the path stands for. -/
def resolveParts (kept : List String) (first : Bool) : List String → List String
  | [] => kept.reverse
  | part :: rest =>
    if part = "." ∨ part = "" ∧ first = false ∧ rest ≠ [] then resolveParts kept false rest
    else if part = ".." then resolveParts kept.tail false rest
    else resolveParts (part :: kept) false rest

/-- The name that a path resolves to. -/
def resolve (path : String) : String :=
  String.intercalate "/" (resolveParts [] true (path.splitOn "/"))

/-- Does a name end with a slash, as those of directories do? -/
def isDirectory (name : String) : Bool := name.toList.getLast? = some '/'

/-- A directory's name, with its slash. -/
def asDirectory (name : String) : String := if isDirectory name then name else name ++ "/"

end ChipEight.Path
