import Cartograph.TypeScript.Phrase

/-!
# Operations

Calls, members, assignments and operators.
-/

namespace Cartograph.TypeScript.Rules

open Grammar.Rule Phrase Token

def operations : List (Phrase × Rule) := [
  (.optionalChain, "?."),
  (.callExpression, choice [
      bound .call (seq [
        part .callee (choice [expression, importWord]), opt typeArguments,
        part .arguments callArguments]),
      bound .templateCall (seq [
        part .callee (choice [primaryExpression, newExpression]), part .arguments templateString]),
      bound .member (seq [ part .callee primaryExpression, "?.", opt typeArguments, part .arguments callArguments])]),
  (.newExpression, boundRight .creation (seq [
      "new", primaryExpression, opt typeArguments, part .arguments (opt callArguments)])),
  (.awaitExpression, bound .unaryOperator (seq ["await", expression])),
  (.memberExpression, bound .member (seq [
      choice [expression, primaryExpression, importWord], choice [".", optionalChain],
      choice [privateName, identifier]])),
  (.subscriptExpression, boundRight .member (seq [
      choice [expression, primaryExpression], opt optionalChain, "[", anyExpression, "]"])),
  (.assignable, choice [
      memberExpression, subscriptExpression, plainIdentifier, asWord reservedWord, destructuring,
      nonNullExpression]),
  (.assignmentExpression, boundRight .assignment (seq [
      opt "using", choice [parenthesizedExpression, assignable], "=", expression])),
  (.augmentable, choice [
      memberExpression, subscriptExpression, asWord reservedWord, identifier,
      parenthesizedExpression, nonNullExpression]),
  (.augmentedAssignmentExpression, boundRight .assignment (seq [
      augmentable,
      choice [
        "+=", "-=", "*=", "/=", "%=", "^=", "&=", "|=", ">>=", ">>>=", "<<=", "**=", "&&=", "||=",
        "??="],
      expression])),
  (.initializer, seq ["=", expression]),
  (.destructuring, choice [objectPattern, arrayPattern]),
  (.spreadElement, seq ["...", expression]),
  (.ternaryExpression, boundRight .conditional (seq [ expression, question, expression, ":", expression])),
  (.binaryExpression, choice [
      boundLeft .conjunction (seq [expression, "&&", expression]),
      boundLeft .disjunction (seq [expression, "||", expression]),
      boundLeft .shift (seq [expression, ">>", expression]),
      boundLeft .shift (seq [expression, ">>>", expression]),
      boundLeft .shift (seq [expression, "<<", expression]),
      boundLeft .bitAnd (seq [expression, "&", expression]),
      boundLeft .bitXor (seq [expression, "^", expression]),
      boundLeft .bitOr (seq [expression, "|", expression]),
      boundLeft .plus (seq [expression, "+", expression]),
      boundLeft .plus (seq [expression, "-", expression]),
      boundLeft .times (seq [expression, "*", expression]),
      boundLeft .times (seq [expression, "/", expression]),
      boundLeft .times (seq [expression, "%", expression]),
      boundRight .power (seq [expression, "**", expression]),
      boundLeft .relation (seq [expression, "<", expression]),
      boundLeft .relation (seq [expression, "<=", expression]),
      boundLeft .equality (seq [expression, "==", expression]),
      boundLeft .equality (seq [expression, "===", expression]),
      boundLeft .equality (seq [expression, "!=", expression]),
      boundLeft .equality (seq [expression, "!==", expression]),
      boundLeft .relation (seq [expression, ">=", expression]),
      boundLeft .relation (seq [expression, ">", expression]),
      boundLeft .conditional (seq [expression, "??", expression]),
      boundLeft .relation (seq [expression, "instanceof", expression]),
      boundLeft .relation (seq [choice [expression, privateName], "in", expression])]),
  (.unaryExpression, boundLeft .unaryOperator (seq [
      choice ["!", "~", "-", "+", "typeof", "void", "delete"], expression])),
  (.updateExpression, left (choice [
      seq [expression, choice ["++", "--"]], seq [choice ["++", "--"], expression]])),
  (.sequenceExpression, right (list1 expression))]

end Cartograph.TypeScript.Rules
