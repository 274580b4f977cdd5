import Cartograph.TypeScript.Phrase

/-!
# Members

What classes, objects and lists of parameters are made of.
-/

namespace Cartograph.TypeScript.Rules

open Grammar.Rule Phrase Token

def members : List (Phrase × Rule) := [
  (.decorator, seq [
      "@",
      choice [
        identifier, decoratorMemberExpression, decoratorCallExpression,
        decoratorParenthesizedExpression]]),
  (.decoratorMemberExpression, bound .member (seq [
      choice [identifier, decoratorMemberExpression], ".", identifier])),
  (.decoratorCallExpression, bound .call (seq [
      part .callee (choice [identifier, decoratorMemberExpression]), opt typeArguments,
      part .arguments callArguments])),
  (.classBody, seq [
      "\x7b",
      any (choice [
        seq [any decorator, methodDefinition, opt semicolon],
        seq [methodSignature, choice [signatureEnd, ","]], classStaticBlock,
        seq [
          choice [abstractMethodSignature, indexSignature, methodSignature, publicFieldDefinition],
          choice [semicolon, ","]],
        ";"]),
      "\x7d"]),
  (.parameters, seq ["(", opt (seq [list1 parameter, opt ","]), ")"]),
  (.classStaticBlock, seq ["static", statementBlock]),
  (.anyPattern, weighted (-1) (choice [assignable, restPattern])),
  (.restPattern, right (seq ["...", assignable])),
  (.methodDefinition, left (seq [
      opt accessibilityModifier, opt "static", opt overrideModifier, opt "readonly", opt "async",
      opt (choice ["get", "set", "*"]), part .name propertyName, opt "?", signature,
      statementBlock])),
  (.pair, seq [propertyName, ":", expression]),
  (.pairPattern, seq [propertyName, ":", choice [anyPattern, assignmentPattern]]),
  (.propertyName, choice [ identifier, asWord reservedWord, privateName, stringText, number, computedPropertyName]),
  (.computedPropertyName, seq ["[", expression, "]"]),
  (.reservedWord, choice [
      "declare", "namespace", "type", "public", "private", "protected", "override", "readonly",
      "module", "any", "number", "boolean", "string", "symbol", "export", "object", "new",
      "readonly", "get", "set", "async", "static", "export", "let"]),
  (.semicolon, choice [lineEnd, ";"])]

end Cartograph.TypeScript.Rules
