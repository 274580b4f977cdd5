import Cartograph.Path
import Cartograph.Text.Chars

/-!
# The names of a store's files

A store in a directory keeps an entry in a file named for its key, and writes it first to a temporary file
named for the key, the process and a running number. Both forms can be told from names that others gave:
`entryKey?` and `tempProcess?` read them back.
-/

namespace Cartograph.Cache

def isDigestDigit (c : Char) : Bool := decide ('0' ≤ c ∧ c ≤ '9') || decide ('a' ≤ c ∧ c ≤ 'f')

def isDigest (text : List Char) : Bool := text.length == 64 && text.all isDigestDigit

def entryEnding : String := ".json"

def entryName (key : String) : String := key ++ entryEnding

def entryKey? (name : String) : Option String :=
  match Text.dropEnd? entryEnding.toList name.toList with
  | some stem => if isDigest stem then some (String.ofList stem) else none
  | none => none

def tempName (stem : String) (process ticket : Nat) : String :=
  s!".{stem}.{process}.{ticket}.tmp"

/-- The stem of the file that tries out whether the directory can be written. -/
def probeStem : String := "writable"

def isDecimal (text : List Char) : Bool :=
  !text.isEmpty && text.all fun c => decide ('0' ≤ c ∧ c ≤ '9')

def decimalValue (digits : List Char) : Nat :=
  digits.foldl (fun n c => 10 * n + (c.toNat - '0'.toNat)) 0

def processLimit : Nat := 4294967296

/-- Reads the number of a process: digits, with a plus sign or without, below the limit. -/
def processNumber? (text : List Char) : Option Nat :=
  let digits := (Text.dropStart? ['+'] text).getD text
  if isDecimal digits && decide (decimalValue digits < processLimit) then some (decimalValue digits)
  else none

def tempProcess? (name : String) : Option Nat :=
  match (Text.dropStart? ['.'] name.toList).bind (Text.dropEnd? ".tmp".toList) with
  | none => none
  | some inner =>
    match inner.splitOn '.' with
    | [stem, process, ticket] =>
      if (stem == probeStem.toList || isDigest stem) && isDecimal ticket then processNumber? process
      else none
    | _ => none

def isOwnName (name : String) : Bool := (entryKey? name).isSome || (tempProcess? name).isSome

end Cartograph.Cache
