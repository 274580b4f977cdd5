import Cartograph.Json.Decode
import Cartograph.Json.Read
import Cartograph.Module

/-!
# Modules as JSON

The JSON form of what was read from a file. A set of exports is an object with its kind and, when it is
known, its names; a failure is an object with its kind and its data; an outcome is an object with one
entry, named for which of the two it is.
-/

namespace Cartograph

def ImportKind.ofJson? (j : Json) : Option ImportKind := j.name?.bind ofName?

def Import.toJson (i : Import) : Json :=
  .object [("specifier", .text i.specifier), ("kind", .text i.kind.name), ("line", .ofNat i.line),
    ("column", .ofNat i.column)]

def Import.ofJson? (j : Json) : Option Import :=
  match j.fields? ["specifier", "kind", "line", "column"] with
  | some [some specifier, some kind, some line, some column] => do
    return {
      specifier := ← specifier.text?
      kind := ← ImportKind.ofJson? kind
      line := ← line.natural?
      column := ← column.natural? }
  | _ => none

namespace Exports

def toJson : Exports → Json
  | known names => .object [("kind", .text "known"), ("names", .ofList .text names.toList)]
  | unknown => .object [("kind", .text "unknown")]

def ofKind? (kind : String) (names : Option Json) : Option Exports :=
  match kind, names with
  | "known", some names => (names.list? Json.text?).map fun l => known (.ofList l)
  | "unknown", none => some unknown
  | "unknown", some .null => some unknown
  | _, _ => none

def ofJson? (j : Json) : Option Exports :=
  match j, j.fields? ["kind", "names"] with
  | .array _, some [some kind, some names] => kind.name?.bind (ofKind? · (some names))
  | .object _, some [some kind, names] => kind.name?.bind (ofKind? · names)
  | _, _ => none

end Exports

namespace Module

def toJson (m : Module) : Json :=
  .object [("imports", .ofList Import.toJson m.imports), ("exports", m.exports.toJson),
    ("reexport_only", .bool m.reexportOnly)]

def ofJson? (j : Json) : Option Module :=
  match j.fields? ["imports", "exports", "reexport_only"] with
  | some [some imports, some exports, some reexportOnly] => do
    return {
      imports := ← imports.list? Import.ofJson?
      exports := ← Exports.ofJson? exports
      reexportOnly := ← reexportOnly.bool? }
  | _ => none

end Module

namespace ReadFailure

def toJson : ReadFailure → Json
  | malformed line column =>
    .object [("kind", .text "syntax"), ("line", .ofNat line), ("column", .ofNat column)]
  | encoding => .object [("kind", .text "encoding")]
  | unreadable message => .object [("kind", .text "unreadable"), ("message", .text message)]
  | internal message => .object [("kind", .text "internal"), ("message", .text message)]

def ofKind? (kind : String) (data : Json) : Option ReadFailure :=
  match kind with
  | "syntax" =>
    match data.fields? ["line", "column"] with
    | some [some line, some column] => do
      return malformed (← line.natural?) (← column.natural?)
    | _ => none
  | "encoding" =>
    match data.fields? [] with
    | some _ => some encoding
    | none => none
  | "unreadable" =>
    match data.fields? ["message"] with
    | some [some message] => message.text?.map unreadable
    | _ => none
  | "internal" =>
    match data.fields? ["message"] with
    | some [some message] => message.text?.map internal
    | _ => none
  | _ => none

/-- How deep the entries of a failure may nest: a stored one has four containers around them. -/
def depthLimit : Nat := Json.depthLimit - 4

/-- Reads a failure: an object that holds the kind beside the data, or an array that starts with the
kind. All entries of the object have to stand for something, also those that are not looked at. -/
def ofJson? : Json → Option ReadFailure
  | .object entries =>
    match Json.valuesOf "kind" entries with
    | [.text kind] =>
      if Json.entriesAreSound depthLimit entries then
        ofKind? kind (.object (entries.filter (·.1 != "kind")))
      else none
    | _ => none
  | .array (.text kind :: data) => ofKind? kind (.array data)
  | _ => none

end ReadFailure

namespace Outcome

def toJson : Outcome → Json
  | parsed m => .object [("parsed", m.toJson)]
  | failed f => .object [("failed", f.toJson)]

def ofJson? (j : Json) : Option Outcome :=
  match j.variant? with
  | some ("parsed", data) => (Module.ofJson? data).map parsed
  | some ("failed", data) => (ReadFailure.ofJson? data).map failed
  | _ => none

end Outcome

end Cartograph
