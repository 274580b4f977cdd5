import Cartograph.Graph

/-!
# The graph of packages

An import graph seen from its packages: one package leads to another when one of its modules imports a
module of the other. The edge between them keeps the imports that make it up.
-/

namespace Cartograph

/-- An edge between packages, with the numbers of the imports behind it in ascending order. -/
structure PackageEdge where
  source : Nat
  target : Nat
  realizing : List Nat
  deriving DecidableEq, Repr

namespace Graph

def crossing? (g : Graph) (e : Edge) : Option (Nat × Nat) :=
  match g.module? e.source, g.module? e.target with
  | some a, some b => if a.package = b.package then none else some (a.package, b.package)
  | _, _ => none

/-- Adds an import to the edge between two packages, which is made if there is none. -/
def addCrossing (id source target : Nat) : List PackageEdge → List PackageEdge
  | [] => [⟨source, target, [id]⟩]
  | e :: rest =>
    if e.source = source ∧ e.target = target then { e with realizing := e.realizing ++ [id] } :: rest
    else e :: addCrossing id source target rest

def packageEdges (g : Graph) : List PackageEdge :=
  g.edges.toList.zipIdx.foldl (fun found (e, id) =>
    match g.crossing? e with
    | some (source, target) => addCrossing id source target found
    | none => found) []

end Graph

end Cartograph
