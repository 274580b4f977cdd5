import Cartograph.Json.Read

/-!
# Reading JSON leniently

Where only some entries of an object are looked at, what stands in the others has to be written
correctly and need not stand for anything: a number may be out of range, a text may hold half a pair of
surrogates or bytes that are no characters, and containers may nest as deep as they like. Such values
become `Json.flawed`, so a decoder that does look at one fails.

The bytes are read one by one as the first characters of Unicode, because all that JSON itself is
written in is among them; the bytes between two quotes are decoded afterwards.
-/

namespace Cartograph.Json

def bytesOf (cs : List Char) : ByteArray := ⟨(cs.map fun c => c.toNat.toUInt8).toArray⟩

/-- The characters of a text up to its closing quote, with the quote, and what is left. The first
argument bounds their number. Of an escape only the form counts. -/
def skipText : Nat → List Char → Reading (List Char)
  | 0, rest => fail .endOfText rest
  | _ + 1, [] => fail .endOfText []
  | _ + 1, '"' :: rest => .ok (['"'], rest)
  | n + 1, '\\' :: 'u' :: a :: b :: c :: d :: rest =>
    match fourHex? a b c d with
    | some _ => (skipText n rest).map fun (l, rest) => ('\\' :: 'u' :: a :: b :: c :: d :: l, rest)
    | none => fail .invalidEscape rest
  | n + 1, '\\' :: c :: rest =>
    if ['"', '\\', '/', 'b', 'f', 'n', 'r', 't'].contains c then
      (skipText n rest).map fun (l, rest) => ('\\' :: c :: l, rest)
    else fail .invalidEscape (c :: rest)
  | n + 1, c :: rest =>
    if c.toNat < 0x20 || c == '\\' then failAt .controlCharacter (c :: rest)
    else (skipText n rest).map fun (l, rest) => (c :: l, rest)

def textOf? (quoted : List Char) : Option String := do
  let decoded ← String.fromUTF8? (bytesOf quoted)
  let (s, _) ← (readText decoded.toList).toOption
  return s

def lenientText (cs : List Char) : Reading Json :=
  (skipText (cs.length + 1) cs).map fun (quoted, rest) =>
    (match textOf? quoted with
    | some s => text s
    | none => flawed, rest)

def lenientNumber (negative : Bool) (cs : List Char) : Reading Json :=
  match readNumber negative cs with
  | .ok r => .ok r
  | .error f =>
    if f.cause = .numberOutOfRange then .ok (flawed, f.rest.dropWhile isDigit) else .error f

def lenient : Style where
  text := lenientText
  number := lenientNumber

def ofBytes? (bytes : ByteArray) : Option Json :=
  match (String.fromUTF8? bytes).bind read? with
  | some v => some v
  | none =>
    let cs := bytes.data.toList.map fun b => Char.ofNat b.toNat
    (whole lenient (cs.length + 1) cs).toOption

end Cartograph.Json
