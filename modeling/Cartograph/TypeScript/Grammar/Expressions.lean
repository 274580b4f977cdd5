import Cartograph.TypeScript.Phrase

/-!
# Expressions

Expressions of all kinds, and the objects and arrays among them with the patterns that take
them apart.
-/

namespace Cartograph.TypeScript.Rules

open Grammar.Rule Phrase Token

/-- The rules of expressions. In one dialect angle brackets before an expression assert its type, in
the other they open an element. -/
def expressions (d : Dialect) : List (Phrase × Rule) := [
  (.parenthesizedExpression, seq [ "(", choice [seq [expression, opt typeMark], sequenceExpression], ")"]),
  (.anyExpression, choice [expression, sequenceExpression]),
  (.expression, choice [
      asExpression, satisfiesExpression, instantiationExpression, namespaceDeclaration,
      angled d, primaryExpression, assignmentExpression, augmentedAssignmentExpression,
      awaitExpression, unaryExpression, binaryExpression, ternaryExpression, updateExpression,
      newExpression, yieldExpression]),
  (.primaryExpression, choice [
      subscriptExpression, memberExpression, parenthesizedExpression, plainIdentifier,
      asWord reservedWord, "this", "super", number, stringText, templateString, regexLiteral,
      "true", "false", "null", objectLiteral, arrayLiteral, functionExpression, arrowFunction,
      generatorFunction, classExpression, metaProperty, callExpression, nonNullExpression]),
  (.yieldExpression, right (seq ["yield", choice [seq ["*", expression], opt expression]])),
  (.objectLiteral, bound .object (seq [
      "\x7b",
      list (opt (choice [pair, spreadElement, methodDefinition, identifier, asWord reservedWord])),
      "\x7d"])),
  (.objectPattern, bound .object (seq [
      "\x7b",
      list (opt (choice [ pairPattern, restPattern, objectAssignmentPattern, identifier, asWord reservedWord])),
      "\x7d"])),
  (.assignmentPattern, seq [anyPattern, "=", expression]),
  (.objectAssignmentPattern, seq [ choice [asWord reservedWord, identifier, destructuring], "=", expression]),
  (.arrayLiteral, seq ["[", list (opt (choice [expression, spreadElement])), "]"]),
  (.arrayPattern, seq ["[", list (opt (choice [anyPattern, assignmentPattern])), "]"])]

end Cartograph.TypeScript.Rules
