/-!
# TOML values

A TOML document as a tree. Every value and every key remembers where it stands, as the number of
characters that were left in the text at its start, so that a message about it can show its line.

Tables remember how they came about, because that decides what may still be added to them: a table
with a header of its own can be opened once, a table that only a longer header mentioned can be opened
later, a table made by dotted keys takes further dotted keys only, and an inline table takes nothing.
-/

namespace Cartograph.Toml

structure Key where
  name : String
  /-- The characters left at the start of the key. -/
  left : Nat
  /-- The bytes of the key as written, quotes included. -/
  width : Nat
  deriving DecidableEq, Repr

inductive Form where
  | explicit
  | implicit
  | dotted
  | inline
  deriving DecidableEq, Repr

inductive Value where
  | text (left : Nat) (value : String)
  | integer (left : Nat) (value : Int)
  | bool (left : Nat) (value : Bool)
  | float (left : Nat) (lexeme : String)
  | moment (left : Nat) (lexeme : String)
  | array (left : Nat) (items : List Value)
  | table (left : Nat) (form : Form) (entries : List (Key × Value))
  /-- Tables opened one after the other by double brackets. -/
  | tables (left : Nat) (items : List Value)
  deriving Repr, Inhabited

namespace Value

def left : Value → Nat
  | text left _ | integer left _ | bool left _ | float left _ | moment left _ | array left _
  | table left _ _ | tables left _ => left

def found : Value → String
  | text _ s => "string \"" ++ s ++ "\""
  | integer _ n => "integer `" ++ toString n ++ "`"
  | bool _ b => "boolean `" ++ toString b ++ "`"
  | float _ l => "floating point `" ++ l ++ "`"
  | moment _ _ => "map"
  | array _ _ => "sequence"
  | table _ _ _ => "map"
  | tables _ _ => "sequence"

end Value

inductive Mistake where
  /-- The text does not go on as it could. -/
  | unexpected
  /-- A key that already has a value, or a table that is not open for it. -/
  | duplicateKey (name : String)
  | unknownField (name : String) (expected : List String)
  | wrongType (found expected : String)
  | missingField (name : String)
  deriving DecidableEq, Repr

structure Fault where
  mistake : Mistake
  left : Nat
  /-- The bytes that are to be marked. -/
  width : Nat := 1
  deriving DecidableEq, Repr

def alternatives : List String → String
  | [a] => "`" ++ a ++ "`"
  | [a, b] => "`" ++ a ++ "` or `" ++ b ++ "`"
  | names => "one of " ++ ", ".intercalate (names.map fun n => "`" ++ n ++ "`")

def Mistake.message : Mistake → String
  | unexpected => "invalid document"
  | duplicateKey name => "duplicate key `" ++ name ++ "`"
  | unknownField name expected =>
    "unknown field `" ++ name ++ "`, expected " ++ alternatives expected
  | wrongType found expected => "invalid type: " ++ found ++ ", expected " ++ expected
  | missingField name => "missing field `" ++ name ++ "`"

/-- The wording of a fault in a text: its place, its line with the part in question marked, and what is
wrong. -/
def Fault.message (text : List Char) (f : Fault) : String :=
  let before := text.take (text.length - f.left)
  let line := before.count '\n' + 1
  let column := (before.reverse.takeWhile (· != '\n')).length
  let lineStart := before.length - column
  let content := (text.drop lineStart).takeWhile (· != '\n')
  let room := (String.ofList content).utf8ByteSize - column
  let number := toString line
  let gutter := String.ofList (List.replicate (number.length + 1) ' ')
  "TOML parse error at line " ++ number ++ ", column " ++ toString (column + 1) ++ "\n" ++
    gutter ++ "|\n" ++ number ++ " | " ++ String.ofList content ++ "\n" ++
    gutter ++ "|" ++ String.ofList (List.replicate (column + 1) ' ') ++
    String.ofList (List.replicate (max 1 (min f.width room)) '^') ++ "\n" ++
    f.mistake.message ++ "\n"

end Cartograph.Toml
