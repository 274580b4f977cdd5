import Cartograph.Path.Order

/-!
# Spellings of paths

A path on a file system is spelled as a text: from the root when it starts with a slash, else from the
current directory. One place has many spellings, and what is shown to people is the spelling they gave.
These operations work on the spelling alone.

* `under` — a path as seen from a directory;
* `parent?`, `name?` — the directory part and the last name;
* `below?` — what follows a directory in a path, compared component by component.
-/

namespace Cartograph.Path.Spelling

def isAbsolute (path : String) : Bool := path.toList.head? == some '/'

def under (base path : String) : String :=
  if isAbsolute path || base == "" then path
  else if base.toList.getLast? == some '/' then base ++ path
  else base ++ "/" ++ path

def isIdle (segment : String) : Bool := segment == "" || segment == "."

def significant : List String → List String
  | [] => []
  | first :: rest => first :: (rest.reverse.dropWhile isIdle).reverse

/-- The directory part of a path, unless there is nothing in front of which it could stand. -/
def parent? (path : String) : Option String :=
  match significant (segments path) with
  | [] => none
  | [first] => if first = "" then none else some ""
  | parts =>
    match significant parts.dropLast with
    | [""] => some "/"
    | front => some (ofSegments front)

def name? (path : String) : Option String :=
  match (components path).getLast? with
  | some (.name text) => some text
  | _ => none

def dropComponents? : List Component → List Component → Option (List Component)
  | [], path => some path
  | _ :: _, [] => none
  | a :: dir, b :: path => if a = b then dropComponents? dir path else none

def Component.text : Component → String
  | .root => ""
  | .here => "."
  | .up => ".."
  | .name text => text

def below? (dir path : String) : Option String :=
  (dropComponents? (components dir) (components path)).map fun rest =>
    ofSegments (rest.map Component.text)

end Cartograph.Path.Spelling
