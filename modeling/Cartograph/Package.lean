import Cartograph.Names
import Cartograph.Path

/-!
# Packages

A package is a directory of the workspace with a manifest, which names the package, its entry points
and the packages that it depends on.
-/

namespace Cartograph

structure Package where
  name : String
  /-- The directory, empty for the workspace itself. -/
  root : String
  /-- The path of the manifest. -/
  manifest : String := Path.join root "package.json"
  /-- The declared dependencies, or `none` when the manifest could not be used. -/
  declared : Option Names := some .empty
  /-- The line of the manifest on which each dependency is declared, by name. -/
  dependencyLines : List (String × Nat) := []
  entryPoints : List String := []
  manifestHash : String := ""
  deriving DecidableEq, Repr

namespace Package

/-- The line on which a dependency is declared, or zero if none is known. -/
def lineOf (p : Package) (dependency : String) : Nat :=
  ((p.dependencyLines.find? (·.1 == dependency)).map (·.2)).getD 0

end Package

end Cartograph
