/-!
# The setting that names an ignore file

The user's settings for version control may name an ignore file of their own, on a line such as
`excludesFile = "~/.ignored"`. The name of the setting is read in any case, and the first line that names a
file counts, whatever section it stands in. The value is one word, in quotes or not; settings are bytes, so
a value that is no text names nothing.

* `valueAt?` — the shortest word behind which the line ends;
* `excludesFile?` — the file that the settings name.
-/

namespace Cartograph.Ignore.Setting

def byte (c : Char) : UInt8 := c.toNat.toUInt8

/-- White space in settings: a space, or one of the five bytes from the tab to the carriage return. -/
def isBlank (b : UInt8) : Bool := b == byte ' ' || (9 ≤ b && b ≤ 13)

def isInline (b : UInt8) : Bool := isBlank b && b != byte '\n'

def isLineEnd (bytes : List UInt8) : Bool := bytes.head?.all (· == byte '\n')

/-- Whether nothing but white space and one quote stands in front of the end of the line. -/
def closes (bytes : List UInt8) : Bool :=
  let rest := bytes.dropWhile isInline
  isLineEnd rest || (rest.head? == some (byte '"') && isLineEnd (rest.tail.dropWhile isInline))

def valueAt? (bytes : List UInt8) : Option (List UInt8) :=
  let word := bytes.takeWhile fun b => !isBlank b
  ((List.range word.length).find? fun n => closes (bytes.drop (n + 1))).map fun n => bytes.take (n + 1)

/-- The value of the setting, read from what follows its name: a quote in front belongs to the value only
when there is no value without it. -/
def valueBehind? (bytes : List UInt8) : Option (List UInt8) :=
  match bytes.dropWhile isBlank with
  | [] => none
  | sign :: rest =>
    if sign != byte '=' then none
    else
      let start := rest.dropWhile isBlank
      let quoted :=
        if start.head? == some (byte '"') then valueAt? (start.tail.dropWhile isBlank) else none
      quoted.or (valueAt? start)

def name : List UInt8 := "excludesfile".toList.map byte

def lower (b : UInt8) : UInt8 := if byte 'A' ≤ b && b ≤ byte 'Z' then b + 32 else b

def setting? (bytes : List UInt8) : Option (List UInt8) :=
  let start := bytes.dropWhile isBlank
  if (start.take name.length).map lower == name then valueBehind? (start.drop name.length) else none

def laterLines : List UInt8 → List (List UInt8)
  | [] => []
  | b :: rest => if b == byte '\n' then rest :: laterLines rest else laterLines rest

def first? (bytes : List UInt8) : Option (List UInt8) :=
  (bytes :: laterLines bytes).findSome? setting?

/-- The file that the settings name; a tilde in its path stands for the home directory, if there is one. -/
def excludesFile? (home : Option String) (settings : ByteArray) : Option String := do
  let value ← first? settings.data.toList
  let path ← String.fromUTF8? ⟨value.toArray⟩
  match home with
  | some home => return String.ofList (path.toList.flatMap fun c => if c = '~' then home.toList else [c])
  | none => return path

end Cartograph.Ignore.Setting
