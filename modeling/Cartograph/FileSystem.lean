import Cartograph.Path.Spelling

/-!
# File systems

A file system is a finite map from places to files, directories and symbolic links, together with the
current directory. A place is the list of names that leads to it from the root, so a place has one form,
while a path is a text that has to be followed: segment by segment, `..` leaving a directory and links
being replaced by what they point at.

* `locate` — the place that a path leads to, which need not hold anything yet;
* `read`, `list`, `isFile`, `isDir` — what a path names;
* `write`, `makeDir`, `removeFile`, `removeDir`, `removeTree`, `rename`, `link` — the changes, each
  giving the changed file system or the reason for refusing it;
* `makeDirs` — several changes in a row, of which the first ones stay when a later one is refused.
-/

namespace Cartograph

inductive OsError where
  | notFound
  | alreadyExists
  | notADirectory
  | isADirectory
  | invalidArgument
  | nameTooLong
  | notEmpty
  | tooManyLinks
  /-- A path with a character that no name can hold. -/
  | nulInName
  deriving DecidableEq, Repr

namespace OsError

/-- The number of an error of the system; a path that never came to it has none. -/
def number? : OsError → Option Nat
  | notFound => some 2
  | alreadyExists => some 17
  | notADirectory => some 20
  | isADirectory => some 21
  | invalidArgument => some 22
  | nameTooLong => some 36
  | notEmpty => some 39
  | tooManyLinks => some 40
  | nulInName => none

def description : OsError → String
  | notFound => "No such file or directory"
  | alreadyExists => "File exists"
  | notADirectory => "Not a directory"
  | isADirectory => "Is a directory"
  | invalidArgument => "Invalid argument"
  | nameTooLong => "File name too long"
  | notEmpty => "Directory not empty"
  | tooManyLinks => "Too many levels of symbolic links"
  | nulInName => "file name contained an unexpected NUL byte"

def message (e : OsError) : String :=
  match e.number? with
  | some n => s!"{e.description} (os error {n})"
  | none => e.description

end OsError

inductive FileSystem.Node where
  | file (content : ByteArray)
  | dir
  | link (target : String)

abbrev FileSystem.Place := List String

structure FileSystem where
  nodes : List (FileSystem.Place × FileSystem.Node) := []
  /-- The place at which relative paths start. -/
  current : FileSystem.Place := []

namespace FileSystem

variable (fs : FileSystem)

/-! ### The map -/

def node? (place : Place) : Option Node :=
  if place = [] then some .dir else (fs.nodes.find? (·.1 == place)).map (·.2)

def put (place : Place) (node : Node) : FileSystem :=
  { fs with nodes := (place, node) :: fs.nodes.filter (·.1 != place) }

def drop (place : Place) : FileSystem :=
  { fs with nodes := fs.nodes.filter (·.1 != place) }

def dropBelow (place : Place) : FileSystem :=
  { fs with nodes := fs.nodes.filter fun e => !place.isPrefixOf e.1 }

@[simp] theorem node?_root : fs.node? [] = some .dir := rfl

@[simp] theorem node?_put_self {place : Place} (node : Node) (h : place ≠ []) :
    (fs.put place node).node? place = some node := by
  simp [node?, put, h]

theorem node?_put_of_ne {place other : Place} (node : Node) (h : other ≠ place) :
    (fs.put place node).node? other = fs.node? other := by
  simp only [node?, put, List.find?_cons, beq_eq_false_iff_ne.2 h.symm, List.find?_filter]
  congr 3
  funext e
  by_cases he : e.1 = other <;> simp [he, h]

@[simp] theorem node?_drop_self {place : Place} (h : place ≠ []) :
    (fs.drop place).node? place = none := by
  simp [node?, drop, h]

theorem node?_drop_of_ne {place other : Place} (h : other ≠ place) :
    (fs.drop place).node? other = fs.node? other := by
  simp only [node?, drop, List.find?_filter]
  congr 3
  funext e
  by_cases he : e.1 = other <;> simp [he, h]

def childName? (dir place : Place) : Option String :=
  if place.dropLast = dir then place.getLast? else none

def childNames (dir : Place) : List String :=
  (fs.nodes.filterMap (childName? dir ·.1)).mergeSort (· ≤ ·)

/-! ### Following a path -/

inductive Progress where
  | arrived (place : Place)
  | linked (dir : Place) (target : String) (rest : List String)

def nameLimit : Nat := 255

def pathLimit : Nat := 4095

/-- Follows segments from a directory up to the next link. A link at the end is followed only when
`follow` is set, and the last name need not exist. -/
def advance (follow : Bool) (here : Place) : List String → Except OsError Progress
  | [] => .ok (.arrived here)
  | segment :: rest =>
    if segment = "" ∨ segment = "." then advance follow here rest
    else if segment = ".." then advance follow here.dropLast rest
    else if nameLimit < segment.utf8ByteSize then .error .nameTooLong
    else
      match fs.node? (here ++ [segment]) with
      | none => if rest = [] then .ok (.arrived (here ++ [segment])) else .error .notFound
      | some (.file _) => if rest = [] then .ok (.arrived (here ++ [segment])) else .error .notADirectory
      | some .dir => advance follow (here ++ [segment]) rest
      | some (.link target) =>
        if rest = [] ∧ follow = false then .ok (.arrived (here ++ [segment]))
        else .ok (.linked here target rest)

def start (here : Place) (path : String) : Place :=
  if path.toList.head? = some '/' then [] else here

def follow (last : Bool) : Nat → Place → List String → Except OsError Place
  | links, here, segments =>
    match fs.advance last here segments with
    | .error e => .error e
    | .ok (.arrived place) => .ok place
    | .ok (.linked dir target rest) =>
      match links with
      | 0 => .error .tooManyLinks
      | links + 1 => follow last links (start dir target) (Path.segments target ++ rest)

def linkLimit : Nat := 40

def checkPath (path : String) : Except OsError Unit :=
  if path.toList.contains '\x00' then .error .nulInName
  else if path = "" then .error .notFound
  else if pathLimit < path.utf8ByteSize then .error .nameTooLong
  else .ok ()

def locate (path : String) (last : Bool) : Except OsError Place := do
  checkPath path
  fs.follow last linkLimit (start fs.current path) (Path.segments path)

def resolve (path : String) : Except OsError (Place × Node) := do
  let place ← fs.locate path true
  match fs.node? place with
  | some node => return (place, node)
  | none => throw .notFound

/-! ### Looking -/

def isThere (path : String) : Bool := (fs.resolve path).toOption.isSome

def isFile (path : String) : Bool :=
  match fs.resolve path with
  | .ok (_, .file _) => true
  | _ => false

def isDir (path : String) : Bool :=
  match fs.resolve path with
  | .ok (_, .dir) => true
  | _ => false

def read (path : String) : Except OsError ByteArray := do
  match (← fs.resolve path).2 with
  | .file content => return content
  | _ => throw .isADirectory

def list (path : String) : Except OsError (List String) := do
  let (place, node) ← fs.resolve path
  match node with
  | .dir => return fs.childNames place
  | _ => throw .notADirectory

def spell (place : Place) : String := "/" ++ Path.ofSegments place

def canonical (path : String) : Except OsError String := do
  return spell (← fs.resolve path).1

/-! ### Changing -/

def withoutSlashes (path : String) : String :=
  match (path.toList.reverse.dropWhile (· == '/')).reverse with
  | [] => path
  | cs => String.ofList cs

/-- Writes a file, replacing what it held. A path with a slash at its end names no file. -/
def write (path : String) (content : ByteArray) : Except OsError FileSystem := do
  let named := withoutSlashes path
  let place ← fs.locate named (named == path)
  match fs.node? place with
  | some .dir => throw .isADirectory
  | _ => if named == path then return fs.put place (.file content) else throw .isADirectory

def makeDir (path : String) : Except OsError FileSystem := do
  let place ← fs.locate (withoutSlashes path) false
  match fs.node? place with
  | some _ => throw .alreadyExists
  | none => return fs.put place .dir

def ensureDir (path : String) : Except OsError Unit × FileSystem :=
  match fs.makeDir path with
  | .ok made => (.ok (), made)
  | .error e => if fs.isDir path then (.ok (), fs) else (.error e, fs)

/-- A path and the directory parts above it, innermost first. The first argument bounds their number. -/
def upward : Nat → String → List String
  | 0, path => [path]
  | n + 1, path =>
    match Path.Spelling.parent? path with
    | some dir => path :: upward n dir
    | none => [path]

/-- Makes the first of several directories, of which each is the one above the one before it, and those
above it where they are missing. What was made stays when a later one cannot be made. -/
def makeDirsAlong (fs : FileSystem) : List String → Except OsError Unit × FileSystem
  | [] => (.ok (), fs)
  | path :: above =>
    if path = "" then (.ok (), fs)
    else
      match fs.ensureDir path with
      | (.error .notFound, _) =>
        match makeDirsAlong fs above with
        | (.error e, made) => (.error e, made)
        | (.ok (), made) => made.ensureDir path
      | result => result

def makeDirs (path : String) : Except OsError Unit × FileSystem :=
  makeDirsAlong fs (upward (Path.segments path).length path)

def removeFile (path : String) : Except OsError FileSystem := do
  let place ← fs.locate path false
  match fs.node? place with
  | none => throw .notFound
  | some .dir => throw .isADirectory
  | some _ => return fs.drop place

/-- Removes an empty directory. It has to be named: a path that ends in dots does not name one. -/
def removeDir (path : String) : Except OsError FileSystem := do
  let named := withoutSlashes path
  let place ← fs.locate named false
  match (Path.segments named).getLast? with
  | some "." => throw .invalidArgument
  | some ".." => throw .notEmpty
  | _ => pure ()
  match fs.node? place with
  | none => throw .notFound
  | some .dir => if fs.childNames place = [] then return fs.drop place else throw .notEmpty
  | some _ => throw .notADirectory

def removeTree (path : String) : Except OsError FileSystem := do
  let place ← fs.locate path false
  match fs.node? place with
  | none => throw .notFound
  | some _ => return fs.dropBelow place

def rename (source target : String) : Except OsError FileSystem := do
  let here ← fs.locate source false
  match fs.node? here with
  | none => throw .notFound
  | some node =>
    let there ← fs.locate target false
    match fs.node? there with
    | some .dir => throw .isADirectory
    | _ => return (fs.drop here).put there node

def link (path target : String) : Except OsError FileSystem := do
  checkPath target
  let place ← fs.locate path false
  match fs.node? place with
  | some _ => throw .alreadyExists
  | none => return fs.put place (.link target)

/-! ### Listing all -/

def placesBelow (dir : Place) : List (Place × Node) :=
  fs.nodes.filterMap fun e =>
    if dir.isPrefixOf e.1 ∧ e.1 ≠ dir then some (e.1.drop dir.length, e.2) else none

/-- The relative paths of all files and links below a directory, and of its empty directories with a
slash at the end, in ascending order; nothing when the path names no directory. -/
def listAll (path : String) : List String :=
  match fs.resolve path with
  | .ok (dir, .dir) =>
    let below := fs.placesBelow dir
    let shown := below.filterMap fun e =>
      match e.2 with
      | .dir =>
        if (fs.childNames (dir ++ e.1)).isEmpty then some (Path.ofSegments e.1 ++ "/") else none
      | _ => some (Path.ofSegments e.1)
    shown.mergeSort (· ≤ ·)
  | _ => []

end FileSystem

end Cartograph
