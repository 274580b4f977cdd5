import Cartograph.Module

/-!
# Languages

A language knows some extensions and reads the modules in files that have them. What it reads depends
only on the path, of which the extension counts, and on the text; its name and version stand for its
rules.
-/

namespace Cartograph

/-- What reading a file gave, and whether the reader asked for the run to be given up. -/
structure Reading where
  outcome : Outcome
  cancels : Bool := false

structure Language where
  id : String
  version : String := "1"
  extensions : List String
  /-- Reads the module in a file with a path and a text. -/
  read : (path source : String) → Reading

end Cartograph
