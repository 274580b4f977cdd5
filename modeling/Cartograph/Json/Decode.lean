import Cartograph.Json

/-!
# Records and choices as JSON

How the records and choices of this library are read from JSON. A record is an object, or the array
of its values in the order of the fields; entries with other keys are skipped, and a key of the record
may stand only once. A choice without data is its name.
-/

namespace Cartograph.Json

def valuesOf (key : String) (entries : List (String × Json)) : List Json :=
  (entries.filter (·.1 == key)).map (·.2)

def fields? (names : List String) : Json → Option (List (Option Json))
  | object entries =>
    names.mapM fun name =>
      match valuesOf name entries with
      | [] => some none
      | [v] => some (some v)
      | _ => none
  | array values =>
    if values.length ≤ names.length then
      some (values.map some ++ List.replicate (names.length - values.length) none)
    else none
  | _ => none

def name? : Json → Option String
  | text name => some name
  | object [(name, null)] => some name
  | _ => none

def variant? : Json → Option (String × Json)
  | object [(name, data)] => some (name, data)
  | _ => none

def list? (decode : Json → Option α) : Json → Option (List α)
  | array items => items.mapM decode
  | _ => none

def nullable? (decode : Json → Option α) : Json → Option (Option α)
  | null => some none
  | v => (decode v).map some

def orDefault (default : α) (decode : Json → Option α) : Option Json → Option α
  | none => some default
  | some v => decode v

end Cartograph.Json
