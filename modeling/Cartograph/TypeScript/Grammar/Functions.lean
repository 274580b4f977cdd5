import Cartograph.TypeScript.Phrase

/-!
# Functions and classes

Functions and classes as expressions and as declarations.
-/

namespace Cartograph.TypeScript.Rules

open Grammar.Rule Phrase Token

def functions : List (Phrase × Rule) := [
  (.classExpression, bound .literal (seq [
      any decorator, "class", part .name (opt typeName), opt typeParameters, opt classHeritage,
      classBody])),
  (.classDeclaration, boundLeft .declaration (seq [
      any decorator, "class", part .name typeName, opt typeParameters, opt classHeritage, classBody,
      opt lineEnd])),
  (.classHeritage, choice [seq [extendsClause, opt implementsClause], implementsClause]),
  (.functionExpression, bound .literal (seq [
      opt "async", "function", part .name (opt identifier), signature, statementBlock])),
  (.functionDeclaration, boundRight .declaration (seq [
      opt "async", "function", part .name identifier, signature, statementBlock, opt lineEnd])),
  (.generatorFunction, bound .literal (seq [
      opt "async", "function", "*", part .name (opt identifier), signature, statementBlock])),
  (.generatorFunctionDeclaration, boundRight .declaration (seq [
      opt "async", "function", "*", part .name identifier, signature, statementBlock,
      opt lineEnd])),
  (.arrowFunction, seq [
      opt "async", choice [asWord reservedWord, identifier, signature], "=>",
      choice [expression, statementBlock]]),
  (.signature, seq [ opt typeParameters, parameters, opt (choice [typeMark, assertionMark, predicateMark])]),
  (.parameter, choice [requiredParameter, optionalParameter])]

end Cartograph.TypeScript.Rules
