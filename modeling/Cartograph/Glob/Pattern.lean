import Cartograph.Text.Chars
import Cartograph.Glob.Match

/-!
# Path patterns

A pattern of the configuration: a glob over workspace paths that keeps its source text. Beside the
glob itself, `dir/**` with no wildcard in `dir` claims everything below `dir`, however many slashes
stand before the stars.
-/

namespace Cartograph.Glob

structure Pattern where
  source : String
  tokens : List Token
  deriving DecidableEq, Repr

inductive PatternError where
  | empty
  | malformed (pattern : String) (why : Malformed)
  deriving DecidableEq, Repr

def PatternError.message : PatternError → String
  | empty => "glob pattern must not be empty"
  | malformed pattern why => "invalid glob pattern '" ++ pattern ++ "': " ++ why.message

def Pattern.ofString (source : String) : Except PatternError Pattern :=
  if source = "" then .error .empty
  else
    match compile source.toList with
    | .ok tokens => .ok ⟨source, tokens⟩
    | .error why => .error (.malformed source why)

/-- The directory that a pattern `dir/**` claims, when `dir` is free of wildcards. -/
def Pattern.claimed? (p : Pattern) : Option (List Char) :=
  match Text.dropEnd? ['/', '*', '*'] p.source.toList with
  | none => none
  | some dir =>
    let dir := Text.dropEndWhile (· == '/') dir
    if dir.any fun c => c == '*' || c == '?' || c == '[' then none else some dir

def Pattern.matches (p : Pattern) (path : String) : Bool :=
  run p.tokens path.toList == .matched ||
    match p.claimed? with
    | some dir => Text.startsWith (dir ++ ['/']) path.toList
    | none => false

def anyMatches (patterns : List Pattern) (path : String) : Bool :=
  patterns.any (·.matches path)

end Cartograph.Glob
