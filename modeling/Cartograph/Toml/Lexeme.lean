import Cartograph.Json.Read
import Cartograph.Toml

/-!
# The lexemes of TOML

Blanks, comments, keys and the values that hold no others. Every reader takes the characters that are
left and returns what is left after it; it fails where the text does not go on as it could.
-/

namespace Cartograph.Toml

abbrev Reading (α : Type) := Except Fault (α × List Char)

def unexpected (rest : List Char) : Reading α := .error { mistake := .unexpected, left := rest.length }

/-! ### Between lexemes -/

def skipSpace (cs : List Char) : List Char := cs.dropWhile fun c => c == ' ' || c == '\t'

def lineBreak? : List Char → Option (List Char)
  | '\n' :: rest => some rest
  | '\r' :: '\n' :: rest => some rest
  | _ => none

/-- Whether a character may stand in a comment or a string: a tab, or no control character. -/
def isPrintable (c : Char) : Bool := c == '\t' || (0x20 ≤ c.toNat && c.toNat != 0x7f)

def skipComment : List Char → List Char
  | '#' :: rest => rest.dropWhile isPrintable
  | cs => cs

/-- Reads the rest of a line: blanks, a comment, and a line break unless the text ends. -/
def lineEnd (cs : List Char) : Reading Unit :=
  match skipComment (skipSpace cs) with
  | [] => .ok ((), [])
  | rest =>
    match lineBreak? rest with
    | some rest => .ok ((), rest)
    | none => unexpected rest

/-- Skips blanks, comments and line breaks; the first argument bounds the number of lines. -/
def skipLines : Nat → List Char → List Char
  | 0, cs => cs
  | n + 1, cs =>
    let rest := skipComment (skipSpace cs)
    match lineBreak? rest with
    | some rest => skipLines n rest
    | none => rest

def skipBlank (cs : List Char) : List Char := skipLines (cs.length + 1) cs

/-! ### Strings -/

def codePoint (count : Nat) (cs : List Char) : Reading Char :=
  let digits := cs.take count
  match digits.mapM Json.hexValue? with
  | some values =>
    let n := values.foldl (fun n d => 16 * n + d) 0
    if digits.length = count ∧ (n < 0xD800 ∨ (0xDFFF < n ∧ n < 0x110000)) then
      .ok (Char.ofNat n, cs.drop count)
    else unexpected cs
  | none => unexpected cs

def escapeBody : List Char → Reading Char
  | 'b' :: rest => .ok ('\x08', rest)
  | 't' :: rest => .ok ('\t', rest)
  | 'n' :: rest => .ok ('\n', rest)
  | 'f' :: rest => .ok ('\x0c', rest)
  | 'r' :: rest => .ok ('\r', rest)
  | '"' :: rest => .ok ('"', rest)
  | '\\' :: rest => .ok ('\\', rest)
  | 'u' :: rest => codePoint 4 rest
  | 'U' :: rest => codePoint 8 rest
  | rest => unexpected rest

/-- Reads a string in double quotes behind the first of them. The first argument bounds the number of
characters, the second holds those read so far, last first. -/
def basic : Nat → List Char → List Char → Reading String
  | 0, _, cs => unexpected cs
  | _ + 1, _, [] => unexpected []
  | _ + 1, done, '"' :: rest => .ok (String.ofList done.reverse, rest)
  | n + 1, done, '\\' :: rest =>
    match escapeBody rest with
    | .ok (c, rest) => basic n (c :: done) rest
    | .error f => .error f
  | n + 1, done, c :: rest =>
    if isPrintable c then basic n (c :: done) rest else unexpected (c :: rest)

def literal (cs : List Char) : Reading String :=
  let body := cs.takeWhile fun c => isPrintable c && c != '\''
  match cs.drop body.length with
  | '\'' :: rest => .ok (String.ofList body, rest)
  | rest => unexpected rest

/-- A run of quotes in a string of several lines: how many of them belong to it, and whether the
string ends with them. Three quotes end it, and up to two more may stand before these. -/
def quoteRun (count : Nat) : Nat × Bool :=
  if count < 3 then (count, false) else (min (count - 3) 2, true)

def skipFirstBreak (cs : List Char) : List Char := (lineBreak? cs).getD cs

def skipBreaks : List Char → List Char
  | ' ' :: rest => skipBreaks rest
  | '\t' :: rest => skipBreaks rest
  | '\n' :: rest => skipBreaks rest
  | '\r' :: '\n' :: rest => skipBreaks rest
  | cs => cs

/-- The characters behind a backslash that continues a line, if the line ends there. -/
def continuation? (cs : List Char) : Option (List Char) :=
  (lineBreak? (skipSpace cs)).map skipBreaks

/-- Reads a string of several lines behind its opening quotes; `escapes` says whether a backslash has a
meaning in it. -/
def multiline (quote : Char) (escapes : Bool) : Nat → List Char → List Char → Reading String
  | 0, _, cs => unexpected cs
  | _ + 1, _, [] => unexpected []
  | n + 1, done, c :: rest =>
    if c = quote then
      let run := (c :: rest).takeWhile (· == quote)
      let (own, ends) := quoteRun run.length
      let done := List.replicate own quote ++ done
      if ends then .ok (String.ofList done.reverse, (c :: rest).drop (own + 3))
      else multiline quote escapes n done ((c :: rest).drop run.length)
    else if escapes && c == '\\' then
      match continuation? rest with
      | some rest => multiline quote escapes n done rest
      | none =>
        match escapeBody rest with
        | .ok (c, rest) => multiline quote escapes n (c :: done) rest
        | .error f => .error f
    else
      match lineBreak? (c :: rest) with
      | some rest => multiline quote escapes n ('\n' :: done) rest
      | none =>
        if isPrintable c then multiline quote escapes n (c :: done) rest else unexpected (c :: rest)

def string (cs : List Char) : Reading String :=
  match cs with
  | '"' :: '"' :: '"' :: rest => multiline '"' true (rest.length + 1) [] (skipFirstBreak rest)
  | '\'' :: '\'' :: '\'' :: rest => multiline '\'' false (rest.length + 1) [] (skipFirstBreak rest)
  | '"' :: rest => basic (rest.length + 1) [] rest
  | '\'' :: rest => literal rest
  | _ => unexpected cs

/-! ### Keys -/

def isBareKey (c : Char) : Bool := c.isAlphanum || c == '_' || c == '-'

def simpleKey (cs : List Char) : Reading Key :=
  let name : Reading String :=
    match cs with
    | '"' :: rest => basic (rest.length + 1) [] rest
    | '\'' :: rest => literal rest
    | _ =>
      let bare := cs.takeWhile isBareKey
      if bare.isEmpty then unexpected cs else .ok (String.ofList bare, cs.drop bare.length)
  name.map fun (name, rest) =>
    let written := cs.take (cs.length - rest.length)
    ({ name, left := cs.length, width := Json.byteCount written }, rest)

/-- Reads the parts of a key, divided by dots. The first argument bounds their number. -/
def keyParts : Nat → List Char → Reading (List Key)
  | 0, cs => unexpected cs
  | n + 1, cs =>
    match simpleKey (skipSpace cs) with
    | .error f => .error f
    | .ok (key, rest) =>
      match skipSpace rest with
      | '.' :: rest => (keyParts n rest).map fun (keys, rest) => (key :: keys, rest)
      | rest => .ok ([key], rest)

def key (cs : List Char) : Reading (List Key) := keyParts (cs.length + 1) cs

/-! ### Numbers and moments -/

def underscoresOk (isDigit : Char → Bool) : List Char → Bool
  | [] => false
  | [c] => isDigit c
  | c :: '_' :: rest => isDigit c && underscoresOk isDigit rest
  | c :: rest => isDigit c && underscoresOk isDigit rest

def digitsIn (base : Nat) (cs : List Char) : Nat :=
  (cs.filterMap Json.hexValue?).foldl (fun n d => base * n + d) 0

def isDigitIn (base : Nat) (c : Char) : Bool :=
  match Json.hexValue? c with
  | some n => decide (n < base)
  | none => false

def basedInteger? : List Char → Option Nat
  | '0' :: 'x' :: digits => based 16 digits
  | '0' :: 'o' :: digits => based 8 digits
  | '0' :: 'b' :: digits => based 2 digits
  | _ => none
where
  /-- The value of digits in a base. -/
  based (base : Nat) (digits : List Char) : Option Nat :=
    if underscoresOk (isDigitIn base) digits then some (digitsIn base digits) else none

/-- A whole number in base ten without a sign: no zero stands before other digits. -/
def decimal? (cs : List Char) : Option Nat :=
  if underscoresOk (isDigitIn 10) cs && (cs.length == 1 || cs.head? != some '0') then
    some (digitsIn 10 cs)
  else none

def sign : List Char → Bool × List Char
  | '+' :: rest => (false, rest)
  | '-' :: rest => (true, rest)
  | cs => (false, cs)

def integer? (cs : List Char) : Option Int :=
  let (negative, digits) := sign cs
  match basedInteger? cs with
  | some n => some n
  | none => (decimal? digits).map fun n => if negative then - (n : Int) else n

/-- Whether a lexeme is a number with a fraction or an exponent, or one of the special ones. -/
def isFloat (cs : List Char) : Bool :=
  let digits := (sign cs).2
  if digits == "inf".toList || digits == "nan".toList then true
  else
    let whole := digits.takeWhile fun c => isDigitIn 10 c || c == '_'
    let rest := digits.drop whole.length
    let (fractionOk, rest) :=
      match rest with
      | '.' :: rest =>
        let fraction := rest.takeWhile fun c => isDigitIn 10 c || c == '_'
        (underscoresOk (isDigitIn 10) fraction, rest.drop fraction.length)
      | _ => (true, rest)
    let exponentOk :=
      match rest with
      | [] => true
      | e :: rest => (e == 'e' || e == 'E') && underscoresOk (isDigitIn 10) (sign rest).2
    (decimal? whole).isSome && fractionOk && exponentOk && digits.length > whole.length

def pair? (a b : Char) : Option Nat :=
  if isDigitIn 10 a && isDigitIn 10 b then some (digitsIn 10 [a, b]) else none

def isDay (year month day : Nat) : Bool :=
  let leap := year % 4 == 0 && (year % 100 != 0 || year % 400 == 0)
  let days := match month with
    | 2 => if leap then 29 else 28
    | 4 | 6 | 9 | 11 => 30
    | _ => 31
  1 ≤ month && month ≤ 12 && 1 ≤ day && day ≤ days

def afterDate? : List Char → Option (List Char)
  | a :: b :: c :: d :: '-' :: e :: f :: '-' :: g :: h :: rest => do
    let century ← pair? a b
    let year ← pair? c d
    let month ← pair? e f
    let day ← pair? g h
    if isDay (100 * century + year) month day then some rest else none
  | _ => none

def afterTime? : List Char → Option (List Char)
  | a :: b :: ':' :: c :: d :: ':' :: e :: f :: rest => do
    let hour ← pair? a b
    let minute ← pair? c d
    let second ← pair? e f
    if hour ≤ 23 && minute ≤ 59 && second ≤ 60 then
      match rest with
      | '.' :: digits =>
        let digits' := digits.dropWhile (isDigitIn 10)
        if digits'.length < digits.length then some digits' else none
      | rest => some rest
    else none
  | _ => none

def afterOffset? : List Char → Option (List Char)
  | 'Z' :: rest => some rest
  | 'z' :: rest => some rest
  | s :: a :: b :: ':' :: c :: d :: rest =>
    if s == '+' || s == '-' then do
      let hour ← pair? a b
      let minute ← pair? c d
      if hour ≤ 23 && minute ≤ 59 then some rest else none
    else some (s :: a :: b :: ':' :: c :: d :: rest)
  | rest => some rest

def afterMoment? (cs : List Char) : Option (List Char) :=
  match afterDate? cs with
  | some (t :: rest) =>
    if t == 'T' || t == 't' then (afterTime? rest).bind afterOffset?
    else if t == ' ' then
      match afterTime? rest with
      | some rest => afterOffset? rest
      | none => some (t :: rest)
    else some (t :: rest)
  | some [] => some []
  | none => afterTime? cs

def isNumberChar (c : Char) : Bool := c.isAlphanum || c == '_' || c == '+' || c == '-' || c == '.'

/-- Reads a number or a moment. Whole numbers have sixty-four bits with their sign. -/
def numeric (cs : List Char) : Reading Value :=
  match afterMoment? cs with
  | some rest =>
    .ok (.moment cs.length (String.ofList (cs.take (cs.length - rest.length))), rest)
  | none =>
    let lexeme := cs.takeWhile isNumberChar
    let rest := cs.drop lexeme.length
    match integer? lexeme with
    | some n =>
      if -9223372036854775808 ≤ n ∧ n < 9223372036854775808 then .ok (.integer cs.length n, rest) else unexpected cs
    | none =>
      if isFloat lexeme then .ok (.float cs.length (String.ofList lexeme), rest) else unexpected cs

end Cartograph.Toml
