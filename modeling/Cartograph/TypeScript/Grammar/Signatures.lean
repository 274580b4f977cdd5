import Cartograph.TypeScript.Phrase

/-!
# Signatures

Types with members and parameters, and how types are joined.
-/

namespace Cartograph.TypeScript.Rules

open Grammar.Rule Phrase Token

def signatures : List (Phrase × Rule) := [
  (.predefinedType, choice [
      "any", "number", "boolean", "string", "symbol", seq ["unique", "symbol"], "void", "unknown",
      "string", "never", "object"]),
  (.typeArguments, seq ["<", list1 anyType, opt ",", ">"]),
  (.objectType, seq [
      choice ["\x7b", "\x7b|"],
      opt (seq [
        opt (choice [",", ";"]),
        separated (choice [",", semicolon]) (choice [
          exportStatement, propertySignature, callSignature, constructSignature, indexSignature,
          methodSignature]),
        opt (choice [",", semicolon])]),
      choice ["\x7d", "|\x7d"]]),
  (.callSignature, signature),
  (.propertySignature, seq [
      opt accessibilityModifier, opt "static", opt overrideModifier, opt "readonly",
      part .name propertyName, opt "?", opt typeMark]),
  (.typeParameters, seq ["<", list1 typeParameter, opt ",", ">"]),
  (.typeParameter, seq [opt "const", part .name typeName, opt typeConstraint, opt defaultType]),
  (.defaultType, seq ["=", anyType]),
  (.typeConstraint, seq [choice ["extends", ":"], anyType]),
  (.constructSignature, seq [opt "abstract", "new", opt typeParameters, parameters, opt typeMark]),
  (.indexSignature, seq [
      opt (seq [opt (choice ["-", "+"]), "readonly"]), "[",
      choice [
        seq [part .name (choice [identifier, asWord reservedWord]), ":", anyType],
        mappedTypeClause],
      "]", choice [typeMark, omittingTypeMark, addingTypeMark, optingTypeMark]]),
  (.arrayType, seq [primaryType, "[", "]"]),
  (.tupleType, seq ["[", list tupleMember, opt ",", "]"]),
  (.readonlyType, seq ["readonly", anyType]),
  (.unionType, left (seq [opt anyType, "|", anyType])),
  (.intersectionType, left (seq [opt anyType, "&", anyType])),
  (.functionType, left (seq [ opt typeParameters, parameters, "=>", choice [anyType, assertion, typePredicate]])),
  (.typeName, identifier)]

end Cartograph.TypeScript.Rules
