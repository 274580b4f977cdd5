import Cartograph.TypeScript.Phrase

/-!
# Types

Types that are made of other types and of values.
-/

namespace Cartograph.TypeScript.Rules

open Grammar.Rule Phrase Token

def types : List (Phrase × Rule) := [
  (.primaryType, choice [
      parenthesizedType, predefinedType, typeName, nestedTypeIdentifier, genericType, objectType,
      arrayType, tupleType, maybeType, typeQuery, indexTypeQuery, "this", starType, literalType,
      lookupType, conditionalType, templateLiteralType, intersectionType, unionType, "const"]),
  (.templateType, seq ["$\x7b", choice [primaryType, inferType], "\x7d"]),
  (.templateLiteralType, seq ["`", any (choice [templateText, templateType]), "`"]),
  (.inferType, right (seq ["infer", typeName, opt (seq ["extends", anyType])])),
  (.conditionalType, right (seq [anyType, "extends", anyType, "?", anyType, ":", anyType])),
  (.genericType, bound .call (seq [ part .name (choice [typeName, nestedTypeIdentifier]), typeArguments])),
  (.typePredicate, seq [part .name (choice [identifier, "this", predefinedType]), "is", anyType]),
  (.predicateMark, seq [":", typePredicate]),
  (.queriedMember, seq [
      choice [identifier, "this", queriedSubscript, queriedMember, queriedCall], choice [".", "?."],
      choice [privateName, identifier]]),
  (.queriedSubscript, seq [
      choice [identifier, "this", queriedSubscript, queriedMember, queriedCall], opt "?.", "[",
      choice [predefinedType, stringText, number], "]"]),
  (.queriedCall, seq [
      part .callee (choice [importWord, identifier, queriedMember, queriedSubscript]),
      part .arguments callArguments]),
  (.queriedInstantiation, seq [
      part .callee (choice [importWord, identifier, queriedMember, queriedSubscript]),
      typeArguments]),
  (.typeQuery, right (seq [
      "typeof",
      choice [ queriedSubscript, queriedMember, queriedCall, queriedInstantiation, identifier, "this"]])),
  (.indexTypeQuery, seq ["keyof", primaryType]),
  (.lookupType, seq [primaryType, "[", anyType, "]"]),
  (.mappedTypeClause, seq [ part .name typeName, "in", anyType, opt (seq ["as", part .newName anyType])]),
  (.literalType, choice [signedNumber, number, stringText, "true", "false", "null", "undefined"]),
  (.signedNumber, ranked (.level 1) (some .left) (seq [choice ["-", "+"], number])),
  (.starType, "*"),
  (.maybeType, right (seq ["?", primaryType])),
  (.parenthesizedType, seq ["(", anyType, ")"])]

end Cartograph.TypeScript.Rules
