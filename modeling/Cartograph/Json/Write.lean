import Cartograph.Json

/-!
# Writing JSON

Two layouts of one value: `compact`, without any space, and `pretty`, with two spaces for each level
and a space after each colon. Both escape quotes, backslashes and control characters only, so text
outside ASCII stands as it is.
-/

namespace Cartograph.Json

def hexDigit (n : Nat) : Char := Nat.digitChar (n % 16)

def escape (c : Char) : List Char :=
  if c = '"' then ['\\', '"']
  else if c = '\\' then ['\\', '\\']
  else if c = '\x08' then ['\\', 'b']
  else if c = '\x0c' then ['\\', 'f']
  else if c = '\n' then ['\\', 'n']
  else if c = '\r' then ['\\', 'r']
  else if c = '\t' then ['\\', 't']
  else if c.toNat < 0x20 then ['\\', 'u', '0', '0', hexDigit (c.toNat / 16), hexDigit c.toNat]
  else [c]

def quote (s : String) : List Char := '"' :: (s.toList.flatMap escape ++ ['"'])

def integer (n : Int) : List Char := (toString n).toList

def scalar : Json → List Char
  | null => "null".toList
  | bool true => "true".toList
  | bool false => "false".toList
  | number n => integer n
  | decimal lexeme => lexeme.toList
  | text s => quote s
  | flawed => "null".toList
  | array _ => []
  | object _ => []

def commaSeparated : List (List Char) → List Char
  | [] => []
  | [a] => a
  | a :: rest => a ++ ',' :: commaSeparated rest

mutual

def compactChars : Json → List Char
  | array items => '[' :: (commaSeparated (compactItems items) ++ [']'])
  | object entries => '{' :: (commaSeparated (compactEntries entries) ++ ['}'])
  | null => scalar null
  | bool b => scalar (bool b)
  | number n => scalar (number n)
  | decimal l => scalar (decimal l)
  | text s => scalar (text s)
  | flawed => scalar flawed

def compactItems : List Json → List (List Char)
  | [] => []
  | v :: rest => compactChars v :: compactItems rest

def compactEntries : List (String × Json) → List (List Char)
  | [] => []
  | (k, v) :: rest => (quote k ++ ':' :: compactChars v) :: compactEntries rest

end

def compact (v : Json) : String := String.ofList (compactChars v)

def newline (level : Nat) : List Char := '\n' :: List.replicate (2 * level) ' '

/-- Brackets around texts, each on a line of its own; nothing between them when there are none. -/
def indented (opening closing : Char) (level : Nat) (parts : List (List Char)) : List Char :=
  if parts.isEmpty then [opening, closing]
  else opening :: (commaSeparated (parts.map (newline (level + 1) ++ ·)) ++ newline level ++ [closing])

mutual

def prettyChars (level : Nat) : Json → List Char
  | array items => indented '[' ']' level (prettyItems (level + 1) items)
  | object entries => indented '{' '}' level (prettyEntries (level + 1) entries)
  | null => scalar null
  | bool b => scalar (bool b)
  | number n => scalar (number n)
  | decimal l => scalar (decimal l)
  | text s => scalar (text s)
  | flawed => scalar flawed

def prettyItems (level : Nat) : List Json → List (List Char)
  | [] => []
  | v :: rest => prettyChars level v :: prettyItems level rest

def prettyEntries (level : Nat) : List (String × Json) → List (List Char)
  | [] => []
  | (k, v) :: rest => (quote k ++ ':' :: ' ' :: prettyChars level v) :: prettyEntries level rest

end

def pretty (v : Json) : String := String.ofList (prettyChars 0 v)

end Cartograph.Json
