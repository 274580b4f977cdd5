import Cartograph.Analysis
import Cartograph.Digraph.Cycle

/-!
# Layer boundaries

An import between two layers has to be allowed by the layer of the importing module. Modules that only
export again may be exempt. Layers that allow each other in a circle are reported as well, since they
act as one layer.
-/

namespace Cartograph.Layers

def indexOf? (layers : List Layer) (name : String) : Option Nat :=
  layers.findIdx? (·.name == name)

def allowGraph (layers : List Layer) : Digraph where
  size := layers.length
  edges := layers.zipIdx.flatMap fun (layer, i) =>
    (layer.allow.toList.filterMap (indexOf? layers)).filterMap fun j =>
      if i = j then none else some (i, j)

def layerCycle (configLabel : String) (names : List String) : Diagnostic where
  code := "AG102"
  rule := "layer-cycle"
  category := .configuration
  severity := .warning
  location := { file := configLabel }
  message := "allowed imports between layers form a cycle: " ++ " -> ".intercalate (names ++ names.take 1)
  help := some "layers that may import each other act as one layer; merge them or drop one direction"

def layerCycles (context : AnalysisContext) : List Diagnostic :=
  let layers := context.config.layers.layers
  (allowGraph layers).knots.map fun knot =>
    layerCycle context.configLabel (knot.cycle.filterMap fun i => (layers[i]?).map (·.name))

def advice (layers : LayerTable) (layer : String) : String :=
  match ((layers.get? layer).map (·.allow.toList)).getD [] with
  | [] => "layer `" ++ layer ++ "` may only import from itself"
  | allowed => "layer `" ++ layer ++ "` may import from itself and: " ++ ", ".intercalate allowed

def violation (severity : Severity) (layers : LayerTable) (e : Edge) (source target : ModuleNode)
    (sourceLayer targetLayer : String) : Diagnostic where
  code := "AG101"
  rule := "layer-violation"
  category := .architecture
  severity := severity
  location := { file := source.path, line := e.line, column := e.column }
  message := "layer `" ++ sourceLayer ++ "` must not import layer `" ++ targetLayer ++ "`: `" ++
    source.path ++ "` imports `" ++ target.path ++ "` via `" ++ e.specifier ++ "`"
  evidence := [{
    location := { file := target.path }
    message := "`" ++ target.path ++ "` belongs to layer `" ++ targetLayer ++ "`" }]
  help := some (advice layers sourceLayer)

/-- The finding on an import, if it crosses a boundary that it may not cross. -/
def violation? (severity : Severity) (context : AnalysisContext) (e : Edge) : Option Diagnostic :=
  match context.graph.module? e.source, context.graph.module? e.target with
  | some source, some target =>
    match source.layer, target.layer with
    | some a, some b =>
      if context.config.layers.allows a b then none
      else if context.config.architecture.exempts source.path source.reexportOnly then none
      else some (violation severity context.config.layers e source target a b)
    | _, _ => none
  | _, _ => none

def find (severity : Severity) (context : AnalysisContext) : List Diagnostic :=
  if context.config.layers.layers.isEmpty then []
  else
    layerCycles context ++ context.graph.edges.toList.filterMap (violation? severity context)

end Layers

def layerBoundaries (severity : Severity := .error) : Analyzer where
  name := "layer-boundaries"
  category := .architecture
  codes := ["AG101", "AG102"]
  description := "Checks imports against the declared layers and their allowed imports"
  fingerprint := severity.name
  analyze context := { diagnostics := Layers.find severity context }

end Cartograph
