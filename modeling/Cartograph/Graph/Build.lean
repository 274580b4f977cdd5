import Std.Data.HashMap
import Cartograph.Config
import Cartograph.Graph

/-!
# Building import graphs

From files that were read to their graph, in four steps, each a list computed from the one before:

* `moduleOf` — one module for each file;
* `links` — every import with what it refers to, in the order of files and then of the text;
* `externalsOf` — the packages outside, each name once, with the origin of its first use;
* `edgeOf?` — the edge of a link, unless it refers to nothing.

A file that could not be read is a module without imports whose exports are unknown. It gives a
diagnostic, and so does every import that refers to nothing.
-/

namespace Cartograph

structure SourceFile where
  path : String
  package : Nat
  contentHash : String
  outcome : Outcome
  deriving DecidableEq, Repr

namespace SourceFile

def imports (f : SourceFile) : List Import :=
  match f.outcome with
  | .parsed m => m.imports
  | .failed _ => []

def diagnostic? (f : SourceFile) : Option Diagnostic :=
  match f.outcome with
  | .parsed _ => none
  | .failed failure => some {
      code := "AG301"
      rule := "parse-error"
      category := .configuration
      severity := .warning
      location := { file := f.path, line := failure.line }
      message := "cannot parse `" ++ f.path ++ "`: " ++ failure.message
      help := some "the file is analyzed as if it had no imports" }

end SourceFile

namespace Graph

def moduleOf (layers : LayerTable) (f : SourceFile) : ModuleNode :=
  let (exports, reexportOnly) :=
    match f.outcome with
    | .parsed m => (m.exports, m.reexportOnly)
    | .failed _ => (.unknown, false)
  { path := f.path, package := f.package, layer := layers.assign? f.path, exports
    contentHash := f.contentHash, reexportOnly }

/-- What a graph is known by: the packages, and the path, the package and the content of each file. -/
def frame (packages : List Package) (files : List SourceFile) : Digest.Fingerprint :=
  let start : Digest.Fingerprint := { domain := "graph" }
  let withPackages := packages.foldl (fun f p =>
    ((f.text p.name).text p.root).text p.manifestHash) start
  files.foldl (fun f file =>
    ((f.text file.path).bytes (Digest.eightBytes file.package)).text file.contentHash) withPackages

/-- The numbers of the modules by path; the last of several modules with one path counts. -/
def pathIndex (files : List SourceFile) : Std.HashMap String Nat :=
  files.zipIdx.foldl (fun index (f, i) => index.insert f.path i) {}

structure Link where
  source : Nat
  path : String
  item : Import
  resolution : Resolution
  deriving DecidableEq, Repr

def links (resolver : Resolver) (files : List SourceFile) : List Link :=
  files.zipIdx.flatMap fun (f, i) =>
    f.imports.map fun item =>
      { source := i, path := f.path, item, resolution := resolver.resolve f.path item.specifier }

def addExternal (found : List External) (e : External) : List External :=
  if found.any (·.name == e.name) then found else found ++ [e]

def externalsOf (links : List Link) : List External :=
  links.foldl (fun found link =>
    match link.resolution with
    | .external name origin => addExternal found ⟨name, origin⟩
    | _ => found) []

def targetOf? (index : String → Option Nat) (moduleCount : Nat) (externals : List External) :
    Resolution → Option Nat
  | .module path => index path
  | .external name _ => (externals.findIdx? (·.name == name)).map (moduleCount + ·)
  | .unresolved => none

def edgeOf? (index : String → Option Nat) (moduleCount : Nat) (externals : List External)
    (link : Link) : Option Edge :=
  (targetOf? index moduleCount externals link.resolution).map fun target =>
    { source := link.source, target, specifier := link.item.specifier, kind := link.item.kind
      line := link.item.line, column := link.item.column }

def unresolvedDiagnostic? (severity : Severity) (link : Link) : Option Diagnostic :=
  match link.resolution with
  | .unresolved => some {
      code := "AG203"
      rule := "unresolved-import"
      category := .dependency
      severity
      location := { file := link.path, line := link.item.line, column := link.item.column }
      message := "cannot resolve `" ++ link.item.specifier ++ "`"
      help := some "check the path, or add the package to the workspace" }
  | _ => none

def build (packages : List Package) (config : Config) (files : List SourceFile) :
    Graph × List Diagnostic :=
  let index := pathIndex files
  let links := links { modules := index.contains, packages } files
  let externals := externalsOf links
  ({ modules := (files.map (moduleOf config.layers)).toArray
     externals := externals.toArray
     edges := (links.filterMap (edgeOf? (index[·]?) files.length externals)).toArray
     packages
     fingerprint := (frame packages files).digest },
   files.filterMap SourceFile.diagnostic? ++
    links.filterMap (unresolvedDiagnostic? config.dependencies.unresolvedSeverity))

end Graph

end Cartograph
