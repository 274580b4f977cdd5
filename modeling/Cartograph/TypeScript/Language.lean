import Cartograph.Language
import Cartograph.TypeScript.Reader

/-!
# TypeScript and JavaScript as a language

The language of the files that the reader of modules understands.
-/

namespace Cartograph.TypeScript

def extensions : List String := ["ts", "tsx", "mts", "cts", "js", "jsx", "mjs", "cjs"]

def readOutcome (path source : String) : Outcome :=
  match readModule path source with
  | .ok m => .parsed m
  | .error failure => .failed failure

def language : Language where
  id := "typescript"
  extensions := extensions
  read path source := { outcome := readOutcome path source }

end Cartograph.TypeScript
