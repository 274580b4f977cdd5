/-!
# Workspace paths

A workspace path is a text of segments divided by `/`, relative to the workspace root; the root
itself is the empty text. Nothing here looks at a file system: `.` and `..` are resolved by their
position alone.

* `segments` — the pieces between slashes, empty ones included;
* `resolve?` — a path written from inside a directory, `none` when it climbs above the root;
* `IsCanonical` — the form in which every segment is an ordinary name;
* `isWithin` — containment, decided at segment boundaries.
-/

namespace Cartograph.Path

/-! ### Segments -/

def segments (path : String) : List String :=
  (path.toList.splitOn '/').map String.ofList

def ofSegments (segments : List String) : String := "/".intercalate segments

def isOrdinary (segment : String) : Bool :=
  segment != "" && segment != "." && segment != ".."

def IsCanonical (path : String) : Prop :=
  path = "" ∨ ∀ s ∈ segments path, isOrdinary s = true

instance (path : String) : Decidable (IsCanonical path) :=
  inferInstanceAs (Decidable (_ ∨ _))

/-- The ordinary segments of a path, joined again: empty ones, `.`, `..` and a leading slash are
left out. -/
def ordinary (path : String) : String := ofSegments ((segments path).filter isOrdinary)

/-! ### Parts -/

def join (dir tail : String) : String :=
  if dir = "" then tail else if tail = "" then dir else dir ++ "/" ++ tail

def parent (path : String) : String :=
  match (segments path).dropLast with
  | [] => ""
  | front => ofSegments front

def fileName (path : String) : String := (segments path).getLastD ""

/-- What follows the last dot of the last segment, unless that dot opens the segment. -/
def extension? (path : String) : Option String :=
  match ((fileName path).toList.splitOn '.').reverse with
  | last :: front => if front = [] ∨ front = [[]] then none else some (String.ofList last)
  | [] => none

/-! ### Resolution -/

/-- One step of resolution: `.` and empty segments stay, `..` leaves the innermost directory, and a
name enters one. The directory is kept innermost first. -/
def step (stack : List String) (segment : String) : Option (List String) :=
  if segment = "" ∨ segment = "." then some stack
  else if segment = ".." then
    match stack with
    | [] => none
    | _ :: above => some above
  else some (segment :: stack)

/-- The path that `tail` names when it is written inside `dir`, or `none` when some `..` would
leave the root. -/
def resolve? (dir tail : String) : Option String :=
  let start := ((segments dir).filter (· != "")).reverse
  ((segments tail).foldlM step start).map fun stack => ofSegments stack.reverse

/-! ### Containment and display -/

def isWithin (path dir : String) : Bool :=
  dir == "" || path == dir || (dir ++ "/").toList.isPrefixOf path.toList

def display (dir : String) : String := if dir = "" then "." else dir

end Cartograph.Path
