import Cartograph.Digest.Sha256

/-!
# Fingerprints

A fingerprint is the hash of a list of fields in a domain. Each field is preceded by its length in
eight bytes, so that neighbouring fields cannot run together: the stream of bytes determines the
fields. The schema and the domain are the first two fields.

* `Fingerprint.stream` — the bytes that are hashed;
* `Fingerprint.digest` — the hash in lower-case hexadecimal digits.
-/

namespace Cartograph.Digest

def utf8 (text : String) : List UInt8 := text.toByteArray.data.toList

def eightBytes (n : Nat) : List UInt8 :=
  (List.range 8).map fun i => (n >>> (8 * i)).toUInt8

def frame (field : List UInt8) : List UInt8 := eightBytes field.length ++ field

def hexDigit (n : Nat) : Char :=
  if n < 10 then Char.ofNat (48 + n) else Char.ofNat (87 + n)

def hex (bytes : List UInt8) : String :=
  String.ofList (bytes.flatMap fun b => [hexDigit (b.toNat / 16), hexDigit (b.toNat % 16)])

def schema : String := "archgraph-cache-v1"

structure Fingerprint where
  domain : String
  fields : List (List UInt8) := []
  deriving DecidableEq, Repr

namespace Fingerprint

def bytes (f : Fingerprint) (field : List UInt8) : Fingerprint :=
  { f with fields := f.fields ++ [field] }

def text (f : Fingerprint) (field : String) : Fingerprint := f.bytes (utf8 field)

def texts (f : Fingerprint) (fields : List String) : Fingerprint :=
  { f with fields := f.fields ++ fields.map utf8 }

def stream (f : Fingerprint) : List UInt8 :=
  (utf8 schema :: utf8 f.domain :: f.fields).flatMap frame

def digest (f : Fingerprint) : String := hex (Sha256.hash f.stream)

@[simp] theorem fields_bytes (f : Fingerprint) (field : List UInt8) :
    (f.bytes field).fields = f.fields ++ [field] := rfl

@[simp] theorem domain_bytes (f : Fingerprint) (field : List UInt8) :
    (f.bytes field).domain = f.domain := rfl

end Fingerprint

end Cartograph.Digest
