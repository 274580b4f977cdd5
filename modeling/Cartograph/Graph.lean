import Cartograph.Module
import Cartograph.Resolution

/-!
# Import graphs

The nodes of an import graph are the modules of a workspace and, behind them, the packages outside it
that modules import. Its edges are imports. Nodes and edges are known by their numbers: modules in the
order of the scan, other packages in the order of their first use, edges in the order of modules and
then of the text.
-/

namespace Cartograph

structure ModuleNode where
  path : String
  /-- The number of the package that owns it. -/
  package : Nat
  layer : Option String
  exports : Exports
  contentHash : String
  reexportOnly : Bool
  deriving DecidableEq, Repr

structure External where
  name : String
  origin : Origin
  deriving DecidableEq, Repr

inductive Node where
  | module (m : ModuleNode)
  | external (e : External)
  deriving DecidableEq, Repr

def Node.label : Node → String
  | module m => m.path
  | external e => e.name

structure Edge where
  source : Nat
  target : Nat
  specifier : String
  kind : ImportKind
  line : Nat
  column : Nat
  deriving DecidableEq, Repr

structure Graph where
  modules : Array ModuleNode
  externals : Array External
  edges : Array Edge
  packages : List Package
  fingerprint : String

namespace Graph

def size (g : Graph) : Nat := g.modules.size + g.externals.size

def module? (g : Graph) (i : Nat) : Option ModuleNode := g.modules[i]?

def node? (g : Graph) (i : Nat) : Option Node :=
  match g.modules[i]? with
  | some m => some (.module m)
  | none => (g.externals[i - g.modules.size]?).map .external

def label (g : Graph) (i : Nat) : String := ((g.node? i).map Node.label).getD ""

def outgoingIds (g : Graph) (i : Nat) : List Nat :=
  (g.edges.toList.zipIdx.filter (·.1.source == i)).map (·.2)

def outgoing (g : Graph) (i : Nat) : List Edge := g.edges.toList.filter (·.source == i)

def modulesOf (g : Graph) (package : Nat) : List Nat :=
  (g.modules.toList.zipIdx.filter (·.1.package == package)).map (·.2)

def owner? (g : Graph) (m : ModuleNode) : Option Package := g.packages[m.package]?

def indexOf? (g : Graph) (path : String) : Option Nat :=
  (g.modules.toList.zipIdx.reverse.find? (·.1.path == path)).map (·.2)

end Graph

end Cartograph
