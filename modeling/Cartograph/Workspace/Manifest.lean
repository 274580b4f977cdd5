import Cartograph.Diagnostic
import Cartograph.Digest.Fingerprint
import Cartograph.FileSystem
import Cartograph.Json.Read
import Cartograph.Package
import Cartograph.Text.Decode

/-!
# Manifests

The manifest of a package is a JSON object. It gives the package its name, its entry points, and the names of
what it depends on, in four sections. For reports each dependency is given the line on which its key stands:
the first place behind the section's name where the quoted key is followed by a colon. A manifest that
cannot be used leaves a package without declared dependencies, and a finding that says so.
-/

namespace Cartograph.Manifest

/-- The sections that declare dependencies, in the order in which lines are taken from them. -/
def sections : List String :=
  ["dependencies", "devDependencies", "peerDependencies", "optionalDependencies"]

def entryFields : List String := ["source", "module", "main", "types"]

/-! ### Lines -/

def quoted (text : String) : List Char := '"' :: text.toList ++ ['"']

def isBeforeColon (text : List Char) : Bool := (Text.trimStart text).head? == some ':'

/-- The number of line feeds up to the first occurrence of `needle` that is followed by a colon, on top of
those counted before. An occurrence without one is passed over as a whole: `skip` counts its characters. -/
def keyOffset? (needle : List Char) : (count skip : Nat) → List Char → Option Nat
  | _, _, [] => none
  | count, skip + 1, c :: text => keyOffset? needle (if c = '\n' then count + 1 else count) skip text
  | count, 0, c :: text =>
    let next := if c = '\n' then count + 1 else count
    match Text.dropStart? needle (c :: text) with
    | some rest =>
      if isBeforeColon rest then some count else keyOffset? needle next (needle.length - 1) text
    | none => keyOffset? needle next 0 text

def keyLine (text : List Char) (section' key : String) : Nat :=
  let rest := (Text.dropUpTo? (quoted section') text).getD text
  let before := (text.take (text.length - rest.length)).count '\n'
  match keyOffset? (quoted key) before 0 rest with
  | some count => count + 1
  | none => 1

/-! ### Reading -/

inductive Defect where
  | unreadable (cause : OsError)
  | malformed (line : Nat) (message : String)
  | notAnObject
  deriving DecidableEq, Repr

namespace Defect

def message : Defect → String
  | unreadable cause => s!"cannot read manifest: {cause.message}"
  | malformed _ message => s!"invalid JSON: {message}"
  | notAnObject => "manifest is not a JSON object"

def line : Defect → Nat
  | malformed line _ => line
  | _ => 0

def diagnostic (d : Defect) (manifest : String) : Diagnostic :=
  { code := "AG303"
    rule := "invalid-manifest"
    category := .configuration
    severity := .warning
    location := { file := manifest, line := d.line }
    message := d.message
    help := some "dependency usage is not checked for this package" }

end Defect

def entries (text : List Char) : Except Defect (List (String × Json)) :=
  match Json.readChars text with
  | .ok (.object entries) => .ok entries
  | .ok _ => .error .notAnObject
  | .error fault => .error (.malformed (fault.place text).line (fault.message text))

def namesIn (manifest : Json) (section' : String) : List String :=
  match (manifest.get? section').bind Json.entries? with
  | some entries => (Names.ofList (entries.map (·.1))).toList
  | none => []

/-- The dependencies of a manifest, each with the section that declares it first. -/
def dependencies (manifest : Json) : List (String × String) :=
  sections.foldl (fun found section' =>
    found ++ ((namesIn manifest section').filter fun name =>
      found.all fun entry => entry.1 != name).map fun name => (name, section')) []

def describe (package : Package) (text : List Char) (manifest : Json) : Package :=
  let name := match (manifest.get? "name").bind Json.text? with
    | some name => if name = "" then package.name else name
    | none => package.name
  let declared := dependencies manifest
  let names := Names.ofList (declared.map (·.1))
  { package with
    name := name
    declared := some names
    dependencyLines := names.toList.filterMap fun key =>
      (declared.find? (·.1 == key)).map fun entry => (key, keyLine text entry.2 key)
    entryPoints := entryFields.filterMap fun field => (manifest.get? field).bind Json.text? }

/-- The package at a directory, from the path and the content of its manifest, with the defect of one that cannot be
used. The package is named for its directory unless the manifest names it. -/
def package (root manifest fallback : String) (content : Except OsError ByteArray) :
    Package × Option Defect :=
  let bare : Package := { name := fallback, root, manifest, declared := none }
  match content with
  | .error cause => (bare, some (.unreadable cause))
  | .ok bytes =>
    let hash := (({ domain := "manifest" } : Digest.Fingerprint).bytes bytes.data.toList).digest
    let hashed := { bare with manifestHash := hash }
    let text := (Text.lossy bytes).toList
    match entries text with
    | .error defect => (hashed, some defect)
    | .ok entries => (describe hashed text (.object entries), none)

end Cartograph.Manifest
