import Cartograph.Text.Chars
import Cartograph.TypeScript.Token

/-!
# Spelling of tokens

For each class of tokens a function that says how many characters of a text the longest token at its
start takes, or `none`. Identifiers hold every character that is not white space, punctuation or a
control character. The character NUL ends whatever it stands in.

`Token.length?` puts the functions together. Keywords are spelled like identifiers, and the tokens
that depend on what stands around them are left to the search for them (`Scan`).
-/

namespace Cartograph.TypeScript

namespace Lexeme

/-! ### Characters -/

def isDigit (c : Char) : Bool := '0' ≤ c && c ≤ '9'

def isHex (c : Char) : Bool := isDigit c || ('a' ≤ c && c ≤ 'f') || ('A' ≤ c && c ≤ 'F')

def isOctal (c : Char) : Bool := '0' ≤ c && c ≤ '7'

def isLetter (c : Char) : Bool := ('a' ≤ c && c ≤ 'z') || ('A' ≤ c && c ≤ 'Z')

def isSeparator (c : Char) : Bool := c.toNat == 0x2028 || c.toNat == 0x2029

/-- White space between tokens: Unicode's without the next-line character, the byte-order mark, the
word joiner and the zero-width space. -/
def isSpace (c : Char) : Bool :=
  (Text.isBlank c && c.toNat != 0x85) || [0xfeff, 0x2060, 0x200b].contains c.toNat

def isPunctuation (c : Char) : Bool := ":;`\"'@#.,|^&<=>+-*/\\%?!~()[]\x7b\x7d".toList.contains c

def isWordPart (c : Char) : Bool := 0x20 ≤ c.toNat && !isSpace c && !isPunctuation c

def isWordStart (c : Char) : Bool := isWordPart c && !isDigit c

def run (p : Char → Bool) (text : List Char) : Nat := (text.takeWhile p).length

def positive? : Nat → Option Nat
  | 0 => none
  | n => some n

/-! ### Words -/

def codePointEscape? : List Char → Option Nat
  | '\\' :: 'u' :: '\x7b' :: rest =>
    let n := run isHex rest
    if n != 0 && (rest.drop n).head? == some '\x7d' then some (n + 4) else none
  | '\\' :: 'u' :: a :: b :: c :: d :: _ =>
    if isHex a && isHex b && isHex c && isHex d then some 6 else none
  | _ => none

def wordElement? (p : Char → Bool) : List Char → Option Nat
  | [] => none
  | c :: rest => if p c then some 1 else codePointEscape? (c :: rest)

/-- The length of the elements at the start of a text, behind `skip` characters that belong to one. -/
def wordTail : (skip : Nat) → List Char → Nat
  | _, [] => 0
  | skip + 1, _ :: rest => 1 + wordTail skip rest
  | 0, c :: rest =>
    match wordElement? isWordPart (c :: rest) with
    | some n => 1 + wordTail (n - 1) rest
    | none => 0

def word? (text : List Char) : Option Nat :=
  (wordElement? isWordStart text).map fun n => n + wordTail 0 (text.drop n)

def privateName? : List Char → Option Nat
  | '#' :: rest => (word? rest).map (· + 1)
  | _ => none

def isElementPart (c : Char) : Bool := isLetter c || isDigit c || c == '_' || c == '$'

def elementName? : List Char → Option Nat
  | [] => none
  | c :: rest =>
    let n := run isElementPart rest
    if isElementPart c && !isDigit c && (rest.drop n).head? == some '-' then
      some (1 + n + run (fun d => isElementPart d || d == '-') (rest.drop n))
    else none

/-! ### Strings and templates -/

def escape? : List Char → Option Nat
  | '\\' :: 'x' :: a :: b :: _ => if isHex a && isHex b then some 4 else none
  | '\\' :: 'x' :: _ => none
  | '\\' :: 'u' :: rest => codePointEscape? ('\\' :: 'u' :: rest)
  | '\\' :: c :: rest =>
    if c == '\x00' then none
    else if isOctal c then some (2 + run isOctal (rest.take 2))
    else if (c == '\r' || c == '?') && rest.head?.any fun d => d == '\n' || isSeparator d then some 3
    else some 2
  | _ => none

def quotedText? (quote : Char) (text : List Char) : Option Nat :=
  positive? (run (fun c => c != quote && !(['\\', '\r', '\n', '\x00'].contains c)) text)

/-- The length of template text up to a substitution, an escape or the end of the template. -/
def templateRun? : List Char → Option Nat
  | [] => none
  | '\x00' :: _ => none
  | '`' :: _ => some 0
  | '\\' :: _ => some 0
  | '$' :: '\x7b' :: _ => some 0
  | _ :: rest => (templateRun? rest).map (· + 1)

def templateText? (text : List Char) : Option Nat := (templateRun? text).bind positive?

/-! ### Numbers -/

def digits (p : Char → Bool) : List Char → Nat
  | c :: '_' :: rest =>
    if p c then
      match digits p rest with
      | 0 => 1
      | n => n + 2
    else 0
  | c :: rest => if p c then 1 + digits p rest else 0
  | [] => 0

def exponent : List Char → Nat
  | e :: rest =>
    if e == 'e' || e == 'E' then
      let sign := if rest.head? == some '-' || rest.head? == some '+' then 1 else 0
      match digits isDigit (rest.drop sign) with
      | 0 => 0
      | n => 1 + sign + n
    else 0
  | [] => 0

def bigMark (text : List Char) (n : Nat) : Nat :=
  if (text.drop n).head? == some 'n' then n + 1 else n

def basedDigit (mark : Char) : Char → Bool :=
  if mark == 'x' || mark == 'X' then isHex
  else if mark == 'o' || mark == 'O' then isOctal
  else if mark == 'b' || mark == 'B' then fun c => c == '0' || c == '1'
  else fun _ => false

def basedInteger : List Char → Nat
  | '0' :: mark :: rest =>
    match digits (basedDigit mark) rest with
    | 0 => 0
    | n => 2 + n
  | _ => 0

/-- The length of the whole part of a number with a fraction or an exponent, or zero. A zero in front
takes one digit that is not zero and what follows it. -/
def wholePart : List Char → Nat
  | '0' :: rest => if rest.head?.any fun c => '1' ≤ c && c ≤ '9' then 1 + digits isDigit rest else 1
  | text => digits isDigit text

def fractional (text : List Char) : Nat :=
  let whole := wholePart text
  match text.drop whole with
  | '.' :: rest =>
    let n := digits isDigit rest
    if whole == 0 && n == 0 then 0 else whole + 1 + n + exponent (rest.drop n)
  | rest => if whole == 0 || exponent rest == 0 then 0 else whole + exponent rest

def number? (text : List Char) : Option Nat :=
  let integer (n : Nat) := if n = 0 then 0 else bigMark text n
  positive? (max (max (integer (basedInteger text)) (integer (digits isDigit text))) (fractional text))

/-! ### Regular expressions -/

def regexClass? : List Char → Option Nat
  | [] => none
  | ']' :: _ => some 1
  | '\\' :: c :: rest =>
    if c == '\n' || c == '\x00' then none else (regexClass? rest).map (· + 2)
  | c :: rest =>
    if c == '\n' || c == '\\' || c == '\x00' then none else (regexClass? rest).map (· + 1)

/-- The length of the body of a regular expression; the fuel bounds the number of its elements. -/
def regexRun : (fuel : Nat) → List Char → Nat
  | 0, _ => 0
  | _, [] => 0
  | fuel + 1, c :: rest =>
    if c == '[' then
      match regexClass? rest with
      | some n => 1 + n + regexRun fuel (rest.drop n)
      | none => 0
    else if c == '\\' then
      match rest with
      | d :: more => if d == '\n' || d == '\x00' then 0 else 2 + regexRun fuel more
      | [] => 0
    else if c == '/' || c == '\n' || c == '\x00' then 0
    else 1 + regexRun fuel rest

def regexBody? (text : List Char) : Option Nat := positive? (regexRun text.length text)

def regexFlags? (text : List Char) : Option Nat :=
  positive? (run (fun c => 'a' ≤ c && c ≤ 'z') text)

/-! ### Elements -/

def closedRun? (p : Char → Bool) (most : Nat) (text : List Char) : Option Nat :=
  let n := run p text
  if n != 0 && n ≤ most && (text.drop n).head? == some ';' then some (n + 1) else none

def reference? : List Char → Option Nat
  | '&' :: '#' :: 'x' :: rest => (closedRun? isHex 6 rest).map (· + 3)
  | '&' :: '#' :: 'X' :: rest => (closedRun? isHex 6 rest).map (· + 3)
  | '&' :: '#' :: rest => (closedRun? isDigit 5 rest).map (· + 2)
  | '&' :: rest => (closedRun? isLetter 30 rest).map (· + 1)
  | _ => none

/-- The length of an attribute's text between quotes. An ampersand is text before anything that can
not go on a reference, whatever that is. -/
def valueRun (quote : Char) : List Char → Nat
  | '&' :: c :: rest =>
    if c == '#' || c == '\x00' || isLetter c then 0 else 2 + valueRun quote rest
  | c :: rest =>
    if c == quote || c == '&' || c == '\x00' then 0 else 1 + valueRun quote rest
  | [] => 0

/-! ### Comments -/

def blockTail? : List Char → Option Nat
  | [] => none
  | '\x00' :: _ => none
  | '*' :: '/' :: _ => some 2
  | _ :: rest => (blockTail? rest).map (· + 1)

def comment? : List Char → Option Nat
  | '/' :: '/' :: rest =>
    some (2 + run (fun c => !(['\r', '\n', '\x00'].contains c) && !isSeparator c) rest)
  | '/' :: '*' :: rest => (blockTail? rest).map (· + 2)
  | _ => none

def interpreterLine? : List Char → Option Nat
  | '#' :: '!' :: rest => some (2 + run (fun c => !(['\n', '\x00'].contains c)) rest)
  | _ => none

end Lexeme

open Lexeme

namespace Token

def length? (text : List Char) : Token → Option Nat
  | finish => if text.isEmpty then some 0 else none
  | mark m => if Text.startsWith m.toList text then some m.length else none
  | identifier => word? text
  | privateName => privateName? text
  | number => number? text
  | comment => comment? text
  | interpreterLine => interpreterLine? text
  | doubleText => quotedText? '"' text
  | singleText => quotedText? '\'' text
  | escape => escape? text
  | regexBody => regexBody? text
  | regexEnd => if text.head? == some '/' then some 1 else none
  | regexFlags => regexFlags? text
  | elementName => elementName? text
  | reference => reference? text
  | doubleValue => positive? (valueRun '"' text)
  | singleValue => positive? (valueRun '\'' text)
  | _ => none

def isTight : Token → Bool
  | doubleText | singleText | doubleValue | singleValue | escape => true
  | regexBody | regexEnd | regexFlags => true
  | _ => false

/-- Which of several tokens goes before longer ones: one of a higher level does. -/
def level : Token → Int
  | doubleText | singleText | doubleValue | singleValue | regexEnd => 1
  | regexBody => -1
  | _ => 0

def isFixed : Token → Bool
  | finish => true
  | mark _ => true
  | _ => false

end Token

end Cartograph.TypeScript
