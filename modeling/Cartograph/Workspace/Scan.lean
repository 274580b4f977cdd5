import Cartograph.Config
import Cartograph.Workspace.Manifest
import Cartograph.Workspace.Walk

/-!
# Scanning a workspace

A scan picks from the files of a workspace its packages and its source files. A package is a directory with
a manifest that is not excluded and that some package pattern matches. A source file is included, is not
excluded, has one of the known extensions, and belongs to the package with the longest root that holds it.
A package pattern that matched nothing is a finding; a workspace without packages cannot be scanned.
-/

namespace Cartograph

structure Scan where
  /-- The source files in ascending order, each with the number of its package. -/
  files : List (String × Nat)
  /-- The packages in ascending order of their roots. -/
  packages : List Package
  diagnostics : List Diagnostic

inductive ScanError where
  | walk (root : String) (cause : OsError)
  | noPackages (root : String)
  deriving DecidableEq, Repr

def ScanError.message : ScanError → String
  | walk root cause => s!"failed to walk {root}: {cause.message}"
  | noPackages root => s!"no package roots found under {root}"

namespace Scan

def manifestName : String := "package.json"

/-! ### Packages -/

def isManifest (policy : AnalyzerPolicy) (path : String) : Bool :=
  Path.fileName path == manifestName && !Glob.anyMatches policy.excluded path

def hits (pattern : Glob.Pattern) (manifest : String) : Bool :=
  pattern.matches (Path.display (Path.parent manifest))

def packageManifests (policy : AnalyzerPolicy) (paths : List String) : List String :=
  paths.filter fun path => isManifest policy path && policy.packages.any (hits · path)

def fallbackName (root dir : String) : String :=
  if dir = "" then (Path.Spelling.name? root).getD "." else Path.fileName dir

def readPackage (read : String → Except OsError ByteArray) (root manifest : String) :
    Package × Option Diagnostic :=
  let dir := Path.parent manifest
  let (package, defect) := Manifest.package dir manifest (fallbackName root dir) (read manifest)
  (package, defect.map (·.diagnostic manifest))

def unmatched (policy : AnalyzerPolicy) (paths : List String) : List Glob.Pattern :=
  policy.packages.filter fun pattern =>
    !(paths.any fun path => isManifest policy path && hits pattern path)

def unmatchedDiagnostic (label : String) (pattern : Glob.Pattern) : Diagnostic :=
  { code := "AG302"
    rule := "unmatched-package-pattern"
    category := .configuration
    severity := .warning
    location := { file := label }
    message := s!"package pattern `{pattern.source}` matched no package root"
    help := some "package roots are directories containing package.json" }

/-! ### Source files -/

/-- The better owner of two: the one with the longer root, the later one of equals. -/
def longer (best : Option (Nat × Package)) (candidate : Nat × Package) : Option (Nat × Package) :=
  match best with
  | none => some candidate
  | some current =>
    if current.2.root.utf8ByteSize ≤ candidate.2.root.utf8ByteSize then some candidate
    else some current

def owner? (packages : List Package) (path : String) : Option Nat :=
  let numbered := packages.zipIdx.map fun entry => (entry.2, entry.1)
  ((numbered.filter fun entry => Path.isWithin path entry.2.root).foldl longer none).map (·.1)

def isSource (policy : AnalyzerPolicy) (extensions : List String) (path : String) : Bool :=
  !Glob.anyMatches policy.excluded path && Glob.anyMatches policy.included path &&
    (Path.extension? path).any extensions.contains

def sources (policy : AnalyzerPolicy) (extensions : List String) (packages : List Package)
    (paths : List String) : List (String × Nat) :=
  (paths.filter (isSource policy extensions)).filterMap fun path =>
    (owner? packages path).map (path, ·)

/-! ### The scan -/

/-- Picks packages and source files from the files of a workspace, or nothing when it has no packages. -/
def ofPaths? (read : String → Except OsError ByteArray) (root : String) (policy : AnalyzerPolicy)
    (extensions : List String) (label : String) (paths : List String) : Option Scan :=
  let found := (packageManifests policy paths).map (readPackage read root)
  let packages := (found.map (·.1)).mergeSort fun a b => decide (a.root ≤ b.root)
  if packages.isEmpty then none
  else
    some {
      files := sources policy extensions packages paths
      packages := packages
      diagnostics := found.filterMap (·.2) ++ (unmatched policy paths).map (unmatchedDiagnostic label) }

/-- Scans the workspace at a directory; `own` is the path of the user's own ignore file. -/
def scan (fs : FileSystem) (root : String) (policy : AnalyzerPolicy) (extensions : List String)
    (label : String) (own : Option String) : Except ScanError Scan :=
  match Workspace.walk fs root policy.respectIgnoreFiles own with
  | .error cause => .error (.walk root cause)
  | .ok paths =>
    let read := fun path => fs.read (Path.Spelling.under root path)
    match ofPaths? read root policy extensions label paths with
    | some found => .ok found
    | none => .error (.noPackages root)

end Scan

end Cartograph
