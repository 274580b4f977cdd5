import Cartograph.Config
import Cartograph.Graph

/-!
# Analyzers

An analyzer finds something in a finished import graph. What it finds depends only on the graph, the
configuration, the label under which findings on the configuration are reported, and its own settings,
which its fingerprint stands for.
-/

namespace Cartograph

structure AnalysisContext where
  graph : Graph
  config : Config
  /-- The file that findings on the configuration are located at. -/
  configLabel : String := "archgraph.toml"

structure Findings where
  diagnostics : List Diagnostic := []
  cancels : Bool := false

structure Analyzer where
  name : String
  category : Category
  codes : List String
  description : String := ""
  version : String := "1"
  /-- The settings that change what it finds. -/
  fingerprint : String := ""
  analyze : AnalysisContext → Findings

def Graph.edgeLocation (g : Graph) (e : Edge) : Location :=
  { file := g.label e.source, line := e.line, column := e.column }

end Cartograph
