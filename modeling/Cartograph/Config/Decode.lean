import Cartograph.Config.Settings
import Cartograph.Toml.Read

/-!
# Settings from TOML

The sections of a configuration file and the types of their fields. A key that a section does not have
is a mistake, and so is a value of another type. Entries are looked at in the order of the document,
and the first mistake counts.
-/

namespace Cartograph.Settings

open Toml

abbrev Decoded (α : Type) := Except Fault α

def wrongType (v : Value) (expected : String) : Decoded α :=
  .error { mistake := .wrongType v.found expected, left := v.left }

def text : Value → Decoded String
  | .text _ s => .ok s
  | v => wrongType v "a string"

def flag : Value → Decoded Bool
  | .bool _ b => .ok b
  | v => wrongType v "a boolean"

def natural : Value → Decoded Nat
  | .integer _ (.ofNat n) => .ok n
  | v => wrongType v "a whole number"

def list (item : Value → Decoded α) : Value → Decoded (List α)
  | .array _ items => items.mapM item
  | .tables _ items => items.mapM item
  | v => wrongType v "a sequence"

def texts : Value → Decoded (List String) := list text

/-- A field of a section: its name, and how its value changes what was decoded so far. -/
abbrev Field (σ : Type) := String × (Value → σ → Decoded σ)

def field (name : String) (decode : Value → Decoded α) (put : α → σ → σ) : Field σ :=
  (name, fun v s => (decode v).map (put · s))

def entries (fields : List (Field σ)) : Entries → σ → Decoded σ
  | [], s => .ok s
  | (key, v) :: rest, s =>
    match fields.find? (·.1 == key.name) with
    | some (_, change) =>
      match change v s with
      | .ok s => entries fields rest s
      | .error f => .error f
    | none =>
      .error { mistake := .unknownField key.name (fields.map (·.1)), left := key.left,
               width := key.width }

def record (fields : List (Field σ)) (start : σ) : Value → Decoded σ
  | .table _ _ es => entries fields es start
  | v => wrongType v "a table"

def analyzerFields : List (Field AnalyzerSettings) := [
  field "root" text fun x s => { s with root := some x },
  field "include" texts fun x s => { s with included := some x },
  field "exclude" texts fun x s => { s with excluded := some x },
  field "packages" texts fun x s => { s with packages := some x },
  field "respect_gitignore" flag fun x s => { s with respectIgnoreFiles := some x },
  field "concurrency" natural fun x s => { s with concurrency := some x },
  field "min_severity" text fun x s => { s with minSeverity := some x }]

def cacheFields : List (Field CacheSettings) := [
  field "enabled" flag fun x s => { s with enabled := some x },
  field "dir" text fun x s => { s with dir := some x },
  field "strict" flag fun x s => { s with strict := some x }]

def categoryFields : List (Field CategorySettings) := [
  field "enabled" flag fun x s => { s with enabled := some x },
  field "severity" text fun x s => { s with severity := some x }]

def cycleFields : List (Field CycleSettings) := [
  field "granularity" text fun x s => { s with granularity := some x }]

def dependencyFields : List (Field DependencySettings) := [
  field "count_type_only" flag fun x s => { s with countTypeOnly := some x },
  field "unused_severity" text fun x s => { s with unusedSeverity := some x },
  field "missing_severity" text fun x s => { s with missingSeverity := some x },
  field "unresolved_severity" text fun x s => { s with unresolvedSeverity := some x },
  field "ignore" texts fun x s => { s with ignored := some x }]

def architectureFields : List (Field ArchitectureSettings) := [
  field "enforce_public_api" flag fun x s => { s with enforcePublicApi := some x },
  field "allow_barrel_exports" texts fun x s => { s with allowBarrelExports := some x }]

structure PartialLayer where
  name : Option String := none
  paths : Option (List String) := none
  allow : List String := []

def layerFields : List (Field PartialLayer) := [
  field "name" text fun x s => { s with name := some x },
  field "paths" texts fun x s => { s with paths := some x },
  field "allow" texts fun x s => { s with allow := x }]

def layer (v : Value) : Decoded LayerSettings :=
  match record layerFields {} v with
  | .error f => .error f
  | .ok l =>
    match l.name, l.paths with
    | some name, some paths => .ok { name, paths, allow := l.allow }
    | none, _ => .error { mistake := .missingField "name", left := v.left }
    | _, none => .error { mistake := .missingField "paths", left := v.left }

def categoryTable : Value → Decoded (List (String × CategorySettings))
  | .table _ _ es =>
    (es.mapM fun ((key, v) : Key × Value) => (record categoryFields {} v).map (key.name, ·)).map
      fun (l : List (String × CategorySettings)) => l.mergeSort fun a b => decide (a.1 ≤ b.1)
  | v => wrongType v "a map"

def fields : List (Field Settings) := [
  field "analyzer" (record analyzerFields {}) fun x s => { s with analyzer := x },
  field "cache" (record cacheFields {}) fun x s => { s with cache := x },
  field "categories" categoryTable fun x s => { s with categories := x },
  field "cycles" (record cycleFields {}) fun x s => { s with cycles := x },
  field "dependencies" (record dependencyFields {}) fun x s => { s with dependencies := x },
  field "architecture" (record architectureFields {}) fun x s => { s with architecture := x },
  field "layers" (list layer) fun x s => { s with layers := x }]

def read (text : String) : Decoded Settings :=
  match Toml.read text.toList with
  | .ok es => entries fields es {}
  | .error f => .error f

end Cartograph.Settings
