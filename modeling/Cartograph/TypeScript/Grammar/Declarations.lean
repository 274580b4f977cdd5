import Cartograph.TypeScript.Phrase

/-!
# Declarations

Fields and signatures of classes, the parts of imports and exports that concern types, and the
declarations that only types have a use for.
-/

namespace Cartograph.TypeScript.Rules

open Grammar.Rule Phrase Token

def declarations : List (Phrase × Rule) := [
  (.publicFieldDefinition, seq [
      any decorator,
      opt (choice [ seq ["declare", opt accessibilityModifier], seq [accessibilityModifier, opt "declare"]]),
      choice [
        seq [opt "static", opt overrideModifier, opt "readonly"],
        seq [opt "abstract", opt "readonly"], seq [opt "readonly", opt "abstract"], opt "accessor"],
      part .name propertyName, opt (choice ["?", "!"]), opt typeMark, opt initializer]),
  (.tagStart, seq [
      "<",
      opt (seq [
        choice [
          part .name (choice [elementIdentifier, prefixedName]),
          seq [part .name (choice [identifier, nestedIdentifier]), opt typeArguments]],
        any attributePart])]),
  (.importedName, choice [identifier, asWord "type"]),
  (.nonNullExpression, boundLeft .unary (seq [expression, "!"])),
  (.methodSignature, seq [
      opt accessibilityModifier, opt "static", opt overrideModifier, opt "readonly", opt "async",
      opt (choice ["get", "set", "*"]), part .name propertyName, opt "?", signature]),
  (.abstractMethodSignature, seq [
      opt accessibilityModifier, "abstract", opt overrideModifier, opt (choice ["get", "set", "*"]),
      part .name propertyName, opt "?", signature]),
  (.functionSignature, seq [
      opt "async", "function", part .name identifier, signature, choice [semicolon, signatureEnd]]),
  (.decoratorParenthesizedExpression, seq [
      "(", choice [identifier, decoratorMemberExpression, decoratorCallExpression], ")"]),
  (.angleAssertion, boundLeft .unary (seq [typeArguments, expression])),
  (.asExpression, boundLeft .cast (seq [expression, "as", choice ["const", anyType]])),
  (.satisfiesExpression, boundLeft .cast (seq [expression, "satisfies", anyType])),
  (.instantiationExpression, bound .instantiation (seq [expression, typeArguments])),
  (.importRequire, seq [identifier, "=", "require", "(", part .source stringText, ")"]),
  (.extendsClause, seq ["extends", list1 extended]),
  (.extended, bound .inheritance (seq [expression, opt typeArguments])),
  (.implementsClause, seq ["implements", list1 anyType]),
  (.ambientDeclaration, seq [
      "declare",
      choice [
        declaration, seq ["global", statementBlock],
        seq ["module", ".", identifier, ":", anyType, semicolon]]]),
  (.abstractClassDeclaration, bound .declaration (seq [
      any decorator, "abstract", "class", part .name typeName, opt typeParameters,
      opt classHeritage, classBody])),
  (.moduleDeclaration, seq ["module", moduleBody]),
  (.namespaceDeclaration, seq ["namespace", moduleBody]),
  (.moduleBody, right (seq [ part .name (choice [stringText, identifier, nestedIdentifier]), opt statementBlock])),
  (.importEquals, seq [ "import", identifier, "=", choice [identifier, nestedIdentifier], semicolon]),
  (.nestedTypeIdentifier, bound .member (seq [ choice [identifier, nestedIdentifier], ".", part .name typeName])),
  (.interfaceDeclaration, seq [
      "interface", part .name typeName, opt typeParameters, opt extendsTypeClause, objectType]),
  (.extendsTypeClause, seq [ "extends", list1 (choice [typeName, nestedTypeIdentifier, genericType])]),
  (.enumDeclaration, seq [opt "const", "enum", part .name identifier, enumBody]),
  (.enumBody, seq [
      "\x7b", opt (seq [list1 (choice [part .name propertyName, enumAssignment]), opt ","]),
      "\x7d"]),
  (.enumAssignment, seq [part .name propertyName, initializer]),
  (.typeDeclaration, seq [ "type", part .name typeName, opt typeParameters, "=", anyType, semicolon]),
  (.accessibilityModifier, choice ["public", "private", "protected"]),
  (.overrideModifier, "override"),
  (.requiredParameter, seq [parameterName, opt typeMark, opt initializer]),
  (.optionalParameter, seq [parameterName, "?", opt typeMark, opt initializer]),
  (.parameterName, seq [
      any decorator, opt accessibilityModifier, opt overrideModifier, opt "readonly",
      choice [anyPattern, "this"]])]

end Cartograph.TypeScript.Rules
