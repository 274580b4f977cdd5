import Cartograph.Ignore.Pattern
import Cartograph.Text.Chars

/-!
# Ignore files

An ignore file holds one rule per line. A rule is a pattern for paths relative to the file's directory; one
with a slash at its start or inside is anchored there, any other matches at every depth. A `!` in front
makes a rule that keeps paths, a `/` behind one that holds for directories only, `#` opens a comment, and
a backslash takes `!` and `#` their meaning. Of several rules that match a path the last one decides.
-/

namespace Cartograph.Ignore

inductive Verdict where
  | skip
  | keep
  deriving DecidableEq, Repr

structure Rule where
  pattern : List Piece
  verdict : Verdict
  directoriesOnly : Bool

abbrev Rules := List Rule

namespace Rule

def trimLine (line : List Char) : List Char :=
  if Text.endsWith ['\\', ' '] line then line else Text.dropEndWhile Text.isBlank line

/-- Cuts what comes in front of a pattern: gives the verdict, whether the pattern is anchored by a slash,
and the pattern. -/
def opening : List Char → Verdict × Bool × List Char
  | '\\' :: '!' :: rest => (.skip, false, '!' :: rest)
  | '\\' :: '#' :: rest => (.skip, false, '#' :: rest)
  | '!' :: '/' :: rest => (.keep, true, rest)
  | '!' :: rest => (.keep, false, rest)
  | '/' :: rest => (.skip, true, rest)
  | line => (.skip, false, line)

def closing (line : List Char) : Bool × List Char :=
  match Text.dropEnd? ['/'] line with
  | some front => (true, (Text.dropEnd? ['\\'] front).getD front)
  | none => (false, line)

def opensAnywhere (pattern : List Char) : Bool :=
  Text.startsWith "**/".toList pattern || pattern == "**".toList

/-- The whole pattern: at any depth unless it is anchored, and for the contents of a directory where it
ends in `/**`. -/
def complete (anchored : Bool) (pattern : List Char) : List Char :=
  let whole :=
    if anchored || pattern.contains '/' || opensAnywhere pattern then pattern
    else "**/".toList ++ pattern
  if Text.endsWith "/**".toList whole then whole ++ "/*".toList else whole

/-- Reads a line; comments, blank lines and lines that hold no pattern give no rule. -/
def ofLine? (line : List Char) : Option Rule :=
  if line.head? = some '#' then none
  else
    match trimLine line with
    | [] => none
    | c :: rest =>
      let (verdict, anchored, body) := opening (c :: rest)
      let (directoriesOnly, body) := closing body
      (pattern? (complete anchored body)).map fun pattern => ⟨pattern, verdict, directoriesOnly⟩

def applies (r : Rule) (path : String) (isDir : Bool) : Bool :=
  (isDir || !r.directoriesOnly) && matchesPath r.pattern path

end Rule

namespace Rules

def textLines (content : ByteArray) : List (List Char) :=
  let raw := content.data.toList.splitOn 10
  let raw := if raw.getLast? = some [] then raw.dropLast else raw
  let decoded := raw.map fun line => String.fromUTF8? ⟨line.toArray⟩
  ((decoded.takeWhile Option.isSome).filterMap id).map fun line =>
    (Text.dropEnd? ['\r'] line.toList).getD line.toList

def dropMark : List (List Char) → List (List Char)
  | first :: rest => first.dropWhile (· == '\ufeff') :: rest
  | [] => []

def ofContent (content : ByteArray) : Rules :=
  (dropMark (textLines content)).filterMap Rule.ofLine?

def verdict? (rules : Rules) (path : String) (isDir : Bool) : Option Verdict :=
  (rules.reverse.find? fun r => r.applies path isDir).map Rule.verdict

end Rules

end Cartograph.Ignore
