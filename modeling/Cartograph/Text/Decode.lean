import Cartograph.Text.Chars

/-!
# From bytes to text

Source text is decoded strictly: bytes that are not UTF-8 are no text. A byte-order mark at the start
is dropped, and a line may end in a carriage return with a line feed as well as in a line feed alone.

Manifests are decoded leniently: `lossy` replaces each sequence that is no character by one
replacement character.
-/

namespace Cartograph.Text

def dropMark : List Char → List Char
  | '\ufeff' :: rest => rest
  | cs => cs

def unixLines : List Char → List Char
  | '\r' :: '\n' :: rest => '\n' :: unixLines rest
  | c :: rest => c :: unixLines rest
  | [] => []

def normalized (s : String) : String := String.ofList (unixLines (dropMark s.toList))

def decode? (bytes : ByteArray) : Option String := (String.fromUTF8? bytes).map normalized

/-! ### Lenient decoding -/

def isContinuation (b : UInt8) : Bool := decide (0x80 ≤ b ∧ b ≤ 0xBF)

/-- The number of bytes after a leading byte, and the range of the first of them. -/
def lead? (b : UInt8) : Option (Nat × UInt8 × UInt8) :=
  if 0xC2 ≤ b ∧ b ≤ 0xDF then some (1, 0x80, 0xBF)
  else if b = 0xE0 then some (2, 0xA0, 0xBF)
  else if b = 0xED then some (2, 0x80, 0x9F)
  else if 0xE1 ≤ b ∧ b ≤ 0xEF then some (2, 0x80, 0xBF)
  else if b = 0xF0 then some (3, 0x90, 0xBF)
  else if 0xF1 ≤ b ∧ b ≤ 0xF3 then some (3, 0x80, 0xBF)
  else if b = 0xF4 then some (3, 0x80, 0x8F)
  else none

def leadBits (count : Nat) (b : UInt8) : Nat :=
  match count with
  | 1 => b.toNat % 32
  | 2 => b.toNat % 16
  | _ => b.toNat % 8

def continuation (count : Nat) (bytes : List UInt8) : List UInt8 :=
  (bytes.take count).takeWhile isContinuation

/-- One character of a lenient reading and the number of bytes that it stands for. A sequence that
breaks off is one replacement character for all its bytes up to there. -/
def lossyStep (b : UInt8) (rest : List UInt8) : Char × Nat :=
  if b < 0x80 then (Char.ofNat b.toNat, 1)
  else
    match lead? b, rest with
    | some (count, low, high), next :: _ =>
      if low ≤ next ∧ next ≤ high then
        let tail := continuation count rest
        if tail.length = count then
          (Char.ofNat (tail.foldl (fun n t => 64 * n + t.toNat % 64) (leadBits count b)), count + 1)
        else ('\ufffd', tail.length + 1)
      else ('\ufffd', 1)
    | _, _ => ('\ufffd', 1)

def lossyFrom : Nat → List UInt8 → List Char
  | 0, _ => []
  | _, [] => []
  | n + 1, b :: rest =>
    let (c, used) := lossyStep b rest
    c :: lossyFrom n (rest.drop (used - 1))

/-- The text that bytes encode, with replacement characters where they encode none. -/
def lossy (bytes : ByteArray) : String :=
  match String.fromUTF8? bytes with
  | some s => s
  | none => String.ofList (lossyFrom bytes.size bytes.data.toList)

end Cartograph.Text
