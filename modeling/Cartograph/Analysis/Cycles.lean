import Cartograph.Analysis
import Cartograph.Digraph.Cycle
import Cartograph.Graph.PackageView

/-!
# Circular imports

Modules that import each other, directly or not, are found as the strongly connected components of
the graph, and one shortest cycle of each is reported. The same is done for packages, on the graph of
packages, when the configuration says so. A module that imports itself is a finding of its own.
-/

namespace Cartograph.Cycles

inductive Unit where
  | module
  | package

def Unit.name : Unit → String
  | module => "module"
  | package => "package"

def selfImport (severity : Severity) (g : Graph) (e : Edge) : Diagnostic where
  code := "AG002"
  rule := "self-import"
  category := .circularImport
  severity := severity
  location := g.edgeLocation e
  message := "`" ++ g.label e.source ++ "` imports itself via `" ++ e.specifier ++ "`"
  help := some "remove the import"

def chain (names : List String) : String := " -> ".intercalate (names ++ names.take 1)

/-- The advice on a cycle, which tells the size of its component if that is larger. -/
def advice (unit : Unit) (component cycle : Nat) : String :=
  let move := "move the shared code into a " ++ unit.name ++ " that imports none of them"
  if component > cycle then
    "this cycle is part of a group of " ++ toString component ++ " mutually dependent " ++ unit.name ++ "s; " ++ move
  else move

/-- The finding on a cycle with the given names, one import for each of its hops. -/
def circularImport (severity : Severity) (g : Graph) (unit : Unit) (component : Nat)
    (names : List String) (hops : List Edge) : Diagnostic where
  code := "AG001"
  rule := "circular-import"
  category := .circularImport
  severity := severity
  location :=
    match hops with
    | e :: _ => g.edgeLocation e
    | [] => { file := names.headD "" }
  message := "circular import: " ++ chain names
  evidence := hops.map fun e =>
    { location := g.edgeLocation e
      message := "imports `" ++ g.label e.target ++ "` via `" ++ e.specifier ++ "`" }
  help := some (advice unit component names.length)

def fileGraph (g : Graph) : Digraph :=
  { size := g.size, edges := g.edges.toList.map fun e => (e.source, e.target) }

def fileCycles (severity : Severity) (g : Graph) : List Diagnostic :=
  let selfImports := g.edges.toList.filter fun e =>
    e.source == e.target && (g.module? e.source).isSome
  selfImports.map (selfImport severity g) ++
    (fileGraph g).knots.map fun knot =>
      circularImport severity g .module knot.members.length (knot.cycle.map g.label)
        (knot.hops.filterMap fun (v, w) => (g.outgoing v).find? (·.target == w))

def packageGraph (g : Graph) (edges : List PackageEdge) : Digraph :=
  { size := g.packages.length, edges := edges.map fun e => (e.source, e.target) }

def firstRealizing? (g : Graph) (edges : List PackageEdge) (source target : Nat) : Option Edge :=
  (edges.find? fun e => e.source == source && e.target == target).bind fun e =>
    e.realizing.head?.bind (g.edges[·]?)

def packageCycles (severity : Severity) (g : Graph) : List Diagnostic :=
  let edges := g.packageEdges
  (packageGraph g edges).knots.map fun knot =>
    circularImport severity g .package knot.members.length
      (knot.cycle.filterMap fun i => (g.packages[i]?).map (·.name))
      (knot.hops.filterMap fun (v, w) => firstRealizing? g edges v w)

def find (severity : Severity) (context : AnalysisContext) : List Diagnostic :=
  match context.config.granularity with
  | .file => fileCycles severity context.graph
  | .package => packageCycles severity context.graph

end Cycles

def circularImports (severity : Severity := .error) : Analyzer where
  name := "circular-imports"
  category := .circularImport
  codes := ["AG001", "AG002"]
  description := "Detects cycles in the module or package import graph"
  fingerprint := severity.name
  analyze context := { diagnostics := Cycles.find severity context }

end Cartograph
