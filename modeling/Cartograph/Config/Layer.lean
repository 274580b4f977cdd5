import Cartograph.Glob.Pattern
import Cartograph.Names

/-!
# Layers

A layer is a named part of the workspace, given by path patterns, together with the names of the
layers that it may import from. A table of layers is consistent: names are distinct, and every layer
that is named in another one is declared. A path belongs to the first layer that contains it.
-/

namespace Cartograph

inductive ModelError where
  | pattern (error : Glob.PatternError)
  | emptyLayerName
  | emptyLayerPaths (layer : String)
  | duplicateLayer (layer : String)
  | unknownLayer (layer reference : String)
  deriving DecidableEq, Repr

def ModelError.message : ModelError → String
  | pattern error => error.message
  | emptyLayerName => "layer name must not be empty"
  | emptyLayerPaths layer => "layer '" ++ layer ++ "' must declare at least one path pattern"
  | duplicateLayer layer => "duplicate layer name '" ++ layer ++ "'"
  | unknownLayer layer reference =>
    "layer '" ++ layer ++ "' allows unknown layer '" ++ reference ++ "'"

structure Layer where
  name : String
  patterns : List Glob.Pattern
  /-- The layers that this one may import from, besides itself. -/
  allow : Names
  deriving DecidableEq, Repr

namespace Layer

def make (name : String) (patterns : List Glob.Pattern) (allow : List String) :
    Except ModelError Layer :=
  if (Text.trim name.toList).isEmpty then .error .emptyLayerName
  else if patterns.isEmpty then .error (.emptyLayerPaths name)
  else .ok { name, patterns, allow := .ofList allow }

def contains (l : Layer) (path : String) : Bool := Glob.anyMatches l.patterns path

end Layer

def repeatedLayers : List String → List Layer → List ModelError
  | _, [] => []
  | seen, l :: rest =>
    if seen.contains l.name then .duplicateLayer l.name :: repeatedLayers seen rest
    else repeatedLayers (l.name :: seen) rest

/-- The references to layers that are not declared, in the order of the layers and then of names. -/
def danglingLayers (layers : List Layer) : List ModelError :=
  layers.flatMap fun l =>
    (l.allow.toList.filter fun name => !(layers.any (·.name == name))).map (.unknownLayer l.name)

def layerErrors (layers : List Layer) : List ModelError :=
  repeatedLayers [] layers ++ danglingLayers layers

structure LayerTable where
  layers : List Layer
  consistent : layerErrors layers = []

namespace LayerTable

def empty : LayerTable := ⟨[], rfl⟩

instance : Inhabited LayerTable := ⟨empty⟩

def ofLayers (layers : List Layer) : Except (List ModelError) LayerTable :=
  if h : layerErrors layers = [] then .ok ⟨layers, h⟩ else .error (layerErrors layers)

def get? (t : LayerTable) (name : String) : Option Layer := t.layers.find? (·.name == name)

def assign? (t : LayerTable) (path : String) : Option String :=
  (t.layers.find? (·.contains path)).map (·.name)

def allows (t : LayerTable) (importer target : String) : Bool :=
  importer == target ||
    match t.get? importer with
    | some l => l.allow.contains target
    | none => false

end LayerTable

end Cartograph
