import Cartograph.Package
import Cartograph.Specifier

/-!
# Resolving specifiers

What a specifier in a module refers to: a module of the workspace, something outside it, or nothing.
The answer depends only on the set of modules and the list of packages.

A path is looked for under several names, the first of which that is a module is taken: `candidates`
lists them in order.
-/

namespace Cartograph

inductive Origin where
  | registry
  | builtin
  /-- A package of the workspace in which the file was not found. -/
  | workspace
  deriving DecidableEq, Repr

def Origin.name : Origin → String
  | registry => "registry"
  | builtin => "builtin"
  | workspace => "workspace"

inductive Resolution where
  | module (path : String)
  | external (name : String) (origin : Origin)
  | unresolved
  deriving DecidableEq, Repr

namespace Resolution

/-- The extensions that a path may leave out, in the order in which they are tried. -/
def extensions : List String := ["ts", "tsx", "mts", "cts", "d.ts", "js", "jsx", "mjs", "cjs"]

/-- The extensions of source files that compile to a file with the given extension. -/
def siblings : String → List String
  | "js" => ["ts", "tsx"]
  | "jsx" => ["tsx"]
  | "mjs" => ["mts"]
  | "cjs" => ["cts"]
  | _ => []

def siblingCandidates (target : String) : List String :=
  match Path.extension? target with
  | none => []
  | some ext =>
    let stem := String.ofList (target.toList.take (target.length - ext.length - 1))
    (siblings ext).map fun sibling => stem ++ "." ++ sibling

def indexCandidates (dir : String) : List String :=
  extensions.map fun ext => Path.join dir ("index." ++ ext)

/-- The names under which a path is looked for: itself, its sources, with an extension, as a directory
with an index. The root is only a directory. -/
def candidates (target : String) : List String :=
  if target = "" then indexCandidates target
  else
    target :: siblingCandidates target ++ (extensions.map fun ext => target ++ "." ++ ext) ++
      indexCandidates target

end Resolution

structure Resolver where
  modules : String → Bool
  packages : List Package

namespace Resolver

open Resolution

def find? (r : Resolver) (target : String) : Option String := (candidates target).find? r.modules

def package? (r : Resolver) (name : String) : Option Package :=
  r.packages.find? (·.name == name)

/-- The module that a package itself stands for: one of its entry points, or its index. -/
def entry? (r : Resolver) (p : Package) : Option String :=
  ((p.entryPoints.filterMap (Path.resolve? p.root)).findSome? r.find?).or <|
    (r.find? (Path.join p.root "src/index")).or (r.find? (Path.join p.root "index"))

/-- The module at a path inside a package, from its root or from its sources. -/
def inside? (r : Resolver) (p : Package) (sub : String) : Option String :=
  (r.find? (Path.join p.root sub)).or (r.find? (Path.join p.root ("src/" ++ sub)))

def resolvePath (r : Resolver) (importer specifier : String) : Resolution :=
  let target :=
    match specifier.toList with
    | '/' :: rest => Path.resolve? "" (String.ofList rest)
    | _ => Path.resolve? (Path.parent importer) specifier
  match target.bind r.find? with
  | some path => .module path
  | none => .unresolved

def resolveName (r : Resolver) (specifier : String) : Resolution :=
  let (name, sub) := Specifier.split specifier
  match r.package? name with
  | none => .external name (if Specifier.builtins.contains name then .builtin else .registry)
  | some p =>
    let found :=
      match sub with
      | some sub => r.inside? p sub
      | none => r.entry? p
    match found with
    | some path => .module path
    | none => .external name .workspace

def resolve (r : Resolver) (importer specifier : String) : Resolution :=
  if specifier = "" then .unresolved
  else if !Specifier.isBare specifier then r.resolvePath importer specifier
  else
    match Text.dropStart? "node:".toList specifier.toList with
    | some rest => .external (Specifier.packageName (String.ofList rest)) .builtin
    | none =>
      if specifier.toList.head? == some '#' || specifier.toList.contains ':' then .unresolved
      else r.resolveName specifier

end Resolver

end Cartograph
