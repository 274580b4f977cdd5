import Cartograph.Decimal.Double
import Cartograph.Json

/-!
# Reading JSON

A strict reader: one value, with nothing but blanks around it. Every reader takes the characters that
are left and returns what is left after it. A failure says what was wrong and how far the reader had
come, so that its place in the text, a line and a column in bytes, can be told afterwards.

Containers nest at most `depthLimit` deep, which also bounds the recursion of `value`. How texts and
numbers are taken is a `Style`; the strict one takes only what stands for something.
-/

namespace Cartograph.Json

/-! ### Failures -/

inductive Cause where
  | endOfValue
  | endOfObject
  | endOfArray
  | endOfText
  | noValue
  | noKey
  | noColon
  | noObjectEnd
  | noArrayEnd
  | trailingComma
  | trailingCharacters
  | misspelled
  | invalidEscape
  | controlCharacter
  | unpairedEscape
  | loneSurrogate
  | invalidNumber
  | numberOutOfRange
  | tooDeep
  deriving DecidableEq, Repr

def Cause.message : Cause → String
  | endOfValue => "EOF while parsing a value"
  | endOfObject => "EOF while parsing an object"
  | endOfArray => "EOF while parsing a list"
  | endOfText => "EOF while parsing a string"
  | noValue => "expected value"
  | noKey => "key must be a string"
  | noColon => "expected `:`"
  | noObjectEnd => "expected `,` or `\x7d`"
  | noArrayEnd => "expected `,` or `]`"
  | trailingComma => "trailing comma"
  | trailingCharacters => "trailing characters"
  | misspelled => "expected ident"
  | invalidEscape => "invalid escape"
  | controlCharacter => "control character (\\u0000-\\u001F) found while parsing a string"
  | unpairedEscape => "unexpected end of hex escape"
  | loneSurrogate => "lone leading surrogate in hex escape"
  | invalidNumber => "invalid number"
  | numberOutOfRange => "number out of range"
  | tooDeep => "recursion limit exceeded"

/-- A failure: its cause, the characters that were left, and how many bytes of them the place of the
failure still covers. -/
structure Fault where
  cause : Cause
  rest : List Char
  ahead : Nat := 0
  deriving DecidableEq, Repr

/-- A place in a text: a line, from one on, and the number of bytes passed on it. -/
structure Place where
  line : Nat := 1
  column : Nat := 0
  deriving DecidableEq, Repr

def Place.next (p : Place) (c : Char) : Place :=
  if c = '\n' then ⟨p.line + 1, 0⟩ else ⟨p.line, p.column + c.utf8Size⟩

def Place.forward (p : Place) : Nat → List Char → Place
  | 0, _ => p
  | _, [] => p
  | n + 1, c :: rest =>
    if c.utf8Size ≤ n + 1 then (p.next c).forward (n + 1 - c.utf8Size) rest
    else ⟨p.line, p.column + (n + 1)⟩

def Fault.place (text : List Char) (f : Fault) : Place :=
  let passed := text.take (text.length - f.rest.length)
  (passed.foldl Place.next {}).forward f.ahead f.rest

def Fault.message (text : List Char) (f : Fault) : String :=
  let p := f.place text
  f.cause.message ++ " at line " ++ toString p.line ++ " column " ++ toString p.column

abbrev Reading (α : Type) := Except Fault (α × List Char)

def fail (cause : Cause) (rest : List Char) : Reading α := .error ⟨cause, rest, 0⟩

def failAt (cause : Cause) (rest : List Char) : Reading α := .error ⟨cause, rest, 1⟩

/-! ### Lexemes -/

def isGap (c : Char) : Bool := c == ' ' || c == '\n' || c == '\t' || c == '\r'

def skipGap (cs : List Char) : List Char := cs.dropWhile isGap

def hexValue? (c : Char) : Option Nat :=
  if '0' ≤ c ∧ c ≤ '9' then some (c.toNat - '0'.toNat)
  else if 'a' ≤ c ∧ c ≤ 'f' then some (c.toNat - 'a'.toNat + 10)
  else if 'A' ≤ c ∧ c ≤ 'F' then some (c.toNat - 'A'.toNat + 10)
  else none

def fourHex? (a b c d : Char) : Option Nat := do
  return ((← hexValue? a) * 16 + (← hexValue? b)) * 256 + (← hexValue? c) * 16 + (← hexValue? d)

def byteCount (cs : List Char) : Nat := (String.ofList cs).utf8ByteSize

def hexEscape (cs : List Char) : Reading Nat :=
  if byteCount cs < 4 then fail .endOfText []
  else
    match cs with
    | a :: b :: c :: d :: rest =>
      match fourHex? a b c d with
      | some n => .ok (n, rest)
      | none => .error ⟨.invalidEscape, cs, 4⟩
    | _ => .error ⟨.invalidEscape, cs, 4⟩

def lowSurrogate (high : Nat) (cs : List Char) : Reading Char :=
  match cs with
  | [] => fail .endOfText []
  | '\\' :: [] => fail .endOfText []
  | '\\' :: 'u' :: digits =>
    match hexEscape digits with
    | .error f => .error f
    | .ok (low, rest) =>
      if 0xDC00 ≤ low ∧ low ≤ 0xDFFF then
        .ok (Char.ofNat ((high - 0xD800) * 1024 + (low - 0xDC00) + 0x10000), rest)
      else fail .loneSurrogate rest
  | '\\' :: rest => failAt .unpairedEscape rest
  | rest => failAt .unpairedEscape rest

def unicodeEscape (cs : List Char) : Reading Char :=
  match hexEscape cs with
  | .error f => .error f
  | .ok (n, rest) =>
    if 0xDC00 ≤ n ∧ n ≤ 0xDFFF then fail .loneSurrogate rest
    else if 0xD800 ≤ n ∧ n ≤ 0xDBFF then lowSurrogate n rest
    else .ok (Char.ofNat n, rest)

def escapeBody : List Char → Reading Char
  | [] => fail .endOfText []
  | '"' :: rest => .ok ('"', rest)
  | '\\' :: rest => .ok ('\\', rest)
  | '/' :: rest => .ok ('/', rest)
  | 'b' :: rest => .ok ('\x08', rest)
  | 'f' :: rest => .ok ('\x0c', rest)
  | 'n' :: rest => .ok ('\n', rest)
  | 'r' :: rest => .ok ('\r', rest)
  | 't' :: rest => .ok ('\t', rest)
  | 'u' :: rest => unicodeEscape rest
  | rest => failAt .invalidEscape rest

/-- Reads a text up to its closing quote. The first argument bounds the number of characters, the
second holds those read so far, last first. -/
def quoted : Nat → List Char → List Char → Reading String
  | 0, _, rest => fail .endOfText rest
  | _ + 1, _, [] => fail .endOfText []
  | _ + 1, done, '"' :: rest => .ok (String.ofList done.reverse, rest)
  | n + 1, done, '\\' :: rest =>
    match escapeBody rest with
    | .error f => .error f
    | .ok (c, rest) => quoted n (c :: done) rest
  | n + 1, done, c :: rest =>
    if c.toNat < 0x20 then failAt .controlCharacter (c :: rest) else quoted n (c :: done) rest

def readText (cs : List Char) : Reading String := quoted (cs.length + 1) [] cs

def ident (value : Json) : List Char → List Char → Reading Json
  | [], cs => .ok (value, cs)
  | _ :: _, [] => fail .endOfValue []
  | e :: expected, c :: cs =>
    if c = e then ident value expected cs else failAt .misspelled (c :: cs)

/-! ### Numbers -/

def isDigit (c : Char) : Bool := decide ('0' ≤ c ∧ c ≤ '9')

def digitsValue (cs : List Char) : Nat := cs.foldl (fun n c => 10 * n + (c.toNat - '0'.toNat)) 0

def exponentLimit : Nat := 2147483647

def doubleLimit : Nat := Nat.pow 2 1024 - Nat.pow 2 970

/-- The digits of a number that count, as a whole number, and the power of ten to multiply it by. -/
structure Significand where
  value : Nat
  exponent : Int
  deriving DecidableEq, Repr

/-- Takes in digits as long as the value fits in sixty-four bits, and gives the digits that are left. -/
def takeDigits (value : Nat) : List Char → Nat × List Char
  | [] => (value, [])
  | c :: rest =>
    let next := digitsValue [c] + 10 * value
    if next < 18446744073709551616 then takeDigits next rest else (value, c :: rest)

def Significand.ofDigits (digits places : List Char) : Significand :=
  let (value, dropped) := takeDigits 0 digits
  let (value, ignored) := takeDigits value places
  ⟨value, (dropped.length : Int) - (places.length - ignored.length : Nat)⟩

/-- Whether a number is too large for a double-precision number: whether the product of its
significand and the power of ten is, each of them and the product being rounded. -/
def Significand.overflows (s : Significand) : Bool :=
  match s.exponent with
  | .ofNat e =>
    s.value != 0 && (308 < e ||
      let a := Decimal.Quotient.ofNat s.value
      let b := Decimal.Quotient.ofNat (Nat.pow 10 e)
      decide (doubleLimit * (a.den * b.den) ≤ a.num * b.num))
  | .negSucc _ => false

def exponentCut? (digits : List Char) : Option Nat :=
  ((List.range digits.length).map (· + 1)).find? fun n => digitsValue (digits.take n) > exponentLimit

def exponent (s : Significand) (cs : List Char) : Reading Unit :=
  let (negative, cs) :=
    match cs with
    | '+' :: rest => (false, rest)
    | '-' :: rest => (true, rest)
    | rest => (false, rest)
  match cs with
  | [] => fail .endOfValue []
  | c :: rest =>
    if isDigit c then
      let digits := c :: rest.takeWhile isDigit
      let rest := rest.dropWhile isDigit
      match exponentCut? digits with
      | some n =>
        if s.value ≠ 0 && !negative then fail .numberOutOfRange (cs.drop n) else .ok ((), rest)
      | none =>
        let e : Int := if negative then - digitsValue digits else digitsValue digits
        if { s with exponent := s.exponent + e }.overflows then fail .numberOutOfRange rest
        else .ok ((), rest)
    else failAt .invalidNumber (c :: rest)

def exponentPart (s : Significand) (cs : List Char) : Reading Unit :=
  match cs with
  | 'e' :: rest => exponent s rest
  | 'E' :: rest => exponent s rest
  | rest => if s.overflows then fail .numberOutOfRange rest else .ok ((), rest)

/-- Reads what stands behind the digits of a whole number; `true` says that there was something. -/
def fraction (digits : List Char) (cs : List Char) : Reading Bool :=
  match cs with
  | '.' :: rest =>
    let places := rest.takeWhile isDigit
    let rest := rest.dropWhile isDigit
    if places.isEmpty then
      if rest.isEmpty then fail .endOfValue [] else failAt .invalidNumber rest
    else (exponentPart (.ofDigits digits places) rest).map fun r => (true, r.2)
  | rest =>
    (exponentPart (.ofDigits digits []) rest).map fun r => (r.2.length != rest.length, r.2)

/-- A whole number as a value: one that does not fit, and a zero with a sign, stays as written. -/
def wholeNumber (negative : Bool) (digits : List Char) : Json :=
  let n := digitsValue digits
  if negative then
    if n ≠ 0 && n ≤ 9223372036854775808 then number (- n) else decimal (String.ofList ('-' :: digits))
  else if n < 18446744073709551616 then number n
  else decimal (String.ofList digits)

def readNumber (negative : Bool) (cs : List Char) : Reading Json :=
  match cs with
  | [] => fail .endOfValue []
  | c :: rest =>
    if isDigit c then
      let digits := if c = '0' then [c] else cs.takeWhile isDigit
      let behind := cs.drop digits.length
      if c = '0' && (rest.head?.map isDigit).getD false then failAt .invalidNumber rest
      else
        (fraction digits behind).map fun (isDecimal, rest) =>
          if isDecimal then
            let lexeme := cs.take (cs.length - rest.length)
            (decimal (String.ofList (if negative then '-' :: lexeme else lexeme)), rest)
          else (wholeNumber negative digits, rest)
    else failAt .invalidNumber cs

/-! ### Values -/

def depthLimit : Nat := 127

/-- Reads the items of an array behind a first one or behind the opening bracket, with a reader of
values. The first argument bounds their number. -/
def items (read : List Char → Reading Json) : Nat → List Json → List Char → Reading (List Json)
  | 0, _, cs => fail .endOfArray cs
  | n + 1, done, cs =>
    match skipGap cs with
    | [] => fail .endOfArray []
    | ']' :: rest => .ok (done.reverse, rest)
    | c :: rest =>
      if done.isEmpty then
        match read (c :: rest) with
        | .error f => .error f
        | .ok (v, rest) => items read n (v :: done) rest
      else if c = ',' then
        match skipGap rest with
        | [] => fail .endOfValue []
        | ']' :: rest => failAt .trailingComma (']' :: rest)
        | rest =>
          match read rest with
          | .error f => .error f
          | .ok (v, rest) => items read n (v :: done) rest
      else failAt .noArrayEnd (c :: rest)

/-- How texts and numbers are taken. A text is read from behind its opening quote, a number from
behind its sign. -/
structure Style where
  text : List Char → Reading Json
  number : (negative : Bool) → List Char → Reading Json

def strict : Style where
  text cs := (readText cs).map fun (s, rest) => (.text s, rest)
  number := readNumber

def entry (style : Style) (read : List Char → Reading Json) (cs : List Char) :
    Reading (Json × Json) :=
  match style.text cs with
  | .error f => .error f
  | .ok (key, rest) =>
    match skipGap rest with
    | [] => fail .endOfObject []
    | ':' :: rest => (read rest).map fun (v, rest) => ((key, v), rest)
    | rest => failAt .noColon rest

def entries (style : Style) (read : List Char → Reading Json) :
    Nat → List (Json × Json) → List Char → Reading (List (Json × Json))
  | 0, _, cs => fail .endOfObject cs
  | n + 1, done, cs =>
    match skipGap cs with
    | [] => fail .endOfObject []
    | '}' :: rest => .ok (done.reverse, rest)
    | c :: rest =>
      if done.isEmpty then
        if c = '"' then
          match entry style read rest with
          | .error f => .error f
          | .ok (e, rest) => entries style read n (e :: done) rest
        else failAt .noKey (c :: rest)
      else if c = ',' then
        match skipGap rest with
        | [] => fail .endOfValue []
        | '"' :: rest =>
          match entry style read rest with
          | .error f => .error f
          | .ok (e, rest) => entries style read n (e :: done) rest
        | '}' :: rest => failAt .trailingComma ('}' :: rest)
        | rest => failAt .noKey rest
      else failAt .noObjectEnd (c :: rest)

def ofEntries (entries : List (Json × Json)) : Json :=
  match entries.mapM fun (key, v) => key.text?.map (·, v) with
  | some entries => object entries
  | none => flawed

/-- Reads a value whose containers nest at most as deep as the second argument says. -/
def value (style : Style) : Nat → List Char → Reading Json
  | depth, cs =>
    match skipGap cs with
    | [] => fail .endOfValue []
    | 'n' :: rest => ident .null ['u', 'l', 'l'] rest
    | 't' :: rest => ident (.bool true) ['r', 'u', 'e'] rest
    | 'f' :: rest => ident (.bool false) ['a', 'l', 's', 'e'] rest
    | '"' :: rest => style.text rest
    | '-' :: rest => style.number true rest
    | '[' :: rest =>
      match depth with
      | 0 => failAt .tooDeep ('[' :: rest)
      | depth + 1 => (items (value style depth) (rest.length + 1) [] rest).map
          fun (l, rest) => (.array l, rest)
    | '{' :: rest =>
      match depth with
      | 0 => failAt .tooDeep ('{' :: rest)
      | depth + 1 => (entries style (value style depth) (rest.length + 1) [] rest).map
          fun (l, rest) => (ofEntries l, rest)
    | c :: rest => if isDigit c then style.number false (c :: rest) else failAt .noValue (c :: rest)

def whole (style : Style) (depth : Nat) (cs : List Char) : Except Fault Json :=
  match value style depth cs with
  | .error f => .error f
  | .ok (v, rest) =>
    match skipGap rest with
    | [] => .ok v
    | rest => .error ⟨.trailingCharacters, rest, 1⟩

def readChars (cs : List Char) : Except Fault Json := whole strict depthLimit cs

def read? (s : String) : Option Json := (readChars s.toList).toOption

end Cartograph.Json
