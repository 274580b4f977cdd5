import Cartograph.Diagnostic.Json
import Cartograph.Json.Lenient
import Cartograph.Json.Write
import Cartograph.Module.Json

/-!
# Stored results

A store keeps results under keys. A key is a digest of everything that the result depends on, so a result
found under a key can be used without looking further. `encode` writes an entry as bytes and `decode?`
reads it again; bytes that are not an entry are read as nothing.
-/

namespace Cartograph

inductive CachedValue where
  /-- What reading a file gave. -/
  | parse (outcome : Outcome)
  /-- What one analyzer found in one graph. -/
  | analysis (found : List Diagnostic)
  deriving DecidableEq

structure CacheEntry where
  key : String
  cachedAt : String
  value : CachedValue
  deriving DecidableEq

namespace CachedValue

def toJson : CachedValue → Json
  | parse outcome => .object [("parse", outcome.toJson)]
  | analysis found => .object [("analysis", .ofList Diagnostic.toJson found)]

def ofJson? (j : Json) : Option CachedValue :=
  match j.variant? with
  | some ("parse", data) => (Outcome.ofJson? data).map parse
  | some ("analysis", data) => (data.list? Diagnostic.ofJson?).map analysis
  | _ => none

end CachedValue

namespace CacheEntry

def toJson (e : CacheEntry) : Json :=
  .object [("key", .text e.key), ("cached_at", .text e.cachedAt), ("value", e.value.toJson)]

def ofJson? (j : Json) : Option CacheEntry :=
  match j.fields? ["key", "cached_at", "value"] with
  | some [some key, some cachedAt, some value] => do
    return {
      key := ← key.text?
      cachedAt := ← cachedAt.text?
      value := ← CachedValue.ofJson? value }
  | _ => none

def encode (e : CacheEntry) : ByteArray := e.toJson.compact.toByteArray

/-- Reads an entry from bytes. What it does not look at need not stand for anything. -/
def decode? (bytes : ByteArray) : Option CacheEntry := (Json.ofBytes? bytes).bind ofJson?

end CacheEntry

end Cartograph
