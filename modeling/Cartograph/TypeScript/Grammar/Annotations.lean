import Cartograph.TypeScript.Phrase

/-!
# Annotations

How types are attached to names, and the kinds of types that there are.
-/

namespace Cartograph.TypeScript.Rules

open Grammar.Rule Phrase Token

def annotations : List (Phrase × Rule) := [
  (.omittingTypeMark, seq ["-?:", anyType]),
  (.addingTypeMark, seq ["+?:", anyType]),
  (.optingTypeMark, seq ["?:", anyType]),
  (.typeMark, seq [":", choice [anyType, importedMember, importedCall]]),
  (.importedMember, seq [ choice [importWord, importedMember, importedCall], ".", choice [privateName, identifier]]),
  (.importedCall, seq [ part .callee (choice [importWord, importedMember]), part .arguments callArguments]),
  (.assertion, seq ["asserts", choice [typePredicate, identifier, "this"]]),
  (.assertionMark, seq [":", assertion]),
  (.anyType, choice [
      primaryType, functionType, readonlyType, constructorType, inferType,
      ranked (.level (-1)) none importedMember, ranked (.level (-1)) none importedCall]),
  (.tupleParameter, seq [part .name (choice [identifier, restPattern]), typeMark]),
  (.optionalTupleParameter, seq [part .name identifier, "?", typeMark]),
  (.optionalType, seq [anyType, "?"]),
  (.restType, seq ["...", anyType]),
  (.tupleMember, choice [tupleParameter, optionalTupleParameter, optionalType, restType, anyType]),
  (.constructorType, left (seq [ opt "abstract", "new", opt typeParameters, parameters, "=>", anyType]))]

end Cartograph.TypeScript.Rules
