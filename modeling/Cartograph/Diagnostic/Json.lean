import Cartograph.Diagnostic
import Cartograph.Json.Decode

/-!
# Diagnostics as JSON

The JSON form of findings, written by `toJson` and read by `ofJson?`. A floor, a hint and evidence are
written only when there are any.
-/

namespace Cartograph

def Severity.ofJson? (j : Json) : Option Severity := j.name?.bind ofName?

def Category.ofJson? (j : Json) : Option Category := j.name?.bind ofName?

def Location.toJson (l : Location) : Json :=
  .object [("file", .text l.file), ("line", .ofNat l.line), ("column", .ofNat l.column)]

def Location.ofJson? (j : Json) : Option Location :=
  match j.fields? ["file", "line", "column"] with
  | some [some file, some line, some column] => do
    return { file := ← file.text?, line := ← line.natural?, column := ← column.natural? }
  | _ => none

def Label.toJson (l : Label) : Json :=
  .object [("location", l.location.toJson), ("message", .text l.message)]

def Label.ofJson? (j : Json) : Option Label :=
  match j.fields? ["location", "message"] with
  | some [some location, some message] => do
    return { location := ← Location.ofJson? location, message := ← message.text? }
  | _ => none

namespace Diagnostic

def toJson (d : Diagnostic) : Json :=
  .object <|
    [("code", .text d.code), ("rule", .text d.rule), ("category", .text d.category.name),
      ("severity", .text d.severity.name)] ++
    (d.floor.toList.map fun floor => ("floor", .text floor.name)) ++
    [("location", d.location.toJson), ("message", .text d.message)] ++
    (d.help.toList.map fun help => ("help", .text help)) ++
    if d.evidence.isEmpty then [] else [("evidence", .ofList Label.toJson d.evidence)]

def ofJson? (j : Json) : Option Diagnostic :=
  let names := ["code", "rule", "category", "severity", "floor", "location", "message", "help",
    "evidence"]
  match j.fields? names with
  | some [some code, some rule, some category, some severity, floor, some location, some message,
      help, evidence] => do
    return {
      code := ← code.text?
      rule := ← rule.text?
      category := ← Category.ofJson? category
      severity := ← Severity.ofJson? severity
      floor := ← Json.orDefault none (Json.nullable? Severity.ofJson?) floor
      location := ← Location.ofJson? location
      message := ← message.text?
      help := ← Json.orDefault none (Json.nullable? Json.text?) help
      evidence := ← Json.orDefault [] (Json.list? Label.ofJson?) evidence }
  | _ => none

end Diagnostic

end Cartograph
