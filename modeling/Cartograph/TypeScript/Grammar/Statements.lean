import Cartograph.TypeScript.Phrase

/-!
# Statements

What is done, one thing after another.
-/

namespace Cartograph.TypeScript.Rules

open Grammar.Rule Phrase Token

def statements : List (Phrase × Rule) := [
  (.statement, choice [
      exportStatement, importStatement, debuggerStatement, expressionStatement, declaration,
      statementBlock, ifStatement, switchStatement, forStatement, forInStatement, whileStatement,
      doStatement, tryStatement, withStatement, breakStatement, continueStatement, returnStatement,
      throwStatement, emptyStatement, labeledStatement]),
  (.expressionStatement, seq [anyExpression, semicolon]),
  (.variableDeclaration, seq ["var", list1 variableDeclarator, semicolon]),
  (.lexicalDeclaration, seq [choice ["let", "const"], list1 variableDeclarator, semicolon]),
  (.variableDeclarator, choice [
      seq [part .name (choice [identifier, destructuring]), opt typeMark, opt initializer],
      bound .declaration (seq [part .name identifier, "!", typeMark])]),
  (.statementBlock, right (seq ["\x7b", any statement, "\x7d", opt lineEnd])),
  (.elseClause, seq ["else", statement]),
  (.ifStatement, right (seq ["if", parenthesizedExpression, statement, opt elseClause])),
  (.switchStatement, seq ["switch", parenthesizedExpression, switchBody]),
  (.forStatement, seq [
      "for", "(",
      choice [lexicalDeclaration, variableDeclaration, seq [anyExpression, ";"], emptyStatement],
      choice [seq [anyExpression, ";"], emptyStatement], opt anyExpression, ")", statement]),
  (.forInStatement, seq ["for", opt "await", forHeader, statement]),
  (.forHeader, seq [
      "(",
      choice [
        assignable, parenthesizedExpression,
        seq ["var", choice [identifier, destructuring], opt initializer],
        seq [choice ["let", "const"], choice [identifier, destructuring], opt lineEnd]],
      choice ["in", "of"], anyExpression, ")"]),
  (.whileStatement, seq ["while", parenthesizedExpression, statement]),
  (.doStatement, right (seq ["do", statement, "while", parenthesizedExpression, opt semicolon])),
  (.tryStatement, seq ["try", statementBlock, opt catchClause, opt finallyClause]),
  (.withStatement, seq ["with", parenthesizedExpression, statement]),
  (.breakStatement, seq ["break", opt identifier, semicolon]),
  (.continueStatement, seq ["continue", opt identifier, semicolon]),
  (.debuggerStatement, seq ["debugger", semicolon]),
  (.returnStatement, seq ["return", opt anyExpression, semicolon]),
  (.throwStatement, seq ["throw", anyExpression, semicolon]),
  (.emptyStatement, ";"),
  (.labeledStatement, weighted (-1) (seq [ choice [identifier, asWord reservedWord], ":", statement])),
  (.switchBody, seq ["\x7b", any (choice [switchCase, switchDefault]), "\x7d"]),
  (.switchCase, seq ["case", anyExpression, ":", any statement]),
  (.switchDefault, seq ["default", ":", any statement]),
  (.catchClause, seq [
      "catch", opt (seq ["(", choice [identifier, destructuring], opt typeMark, ")"]),
      statementBlock]),
  (.finallyClause, seq ["finally", statementBlock])]

end Cartograph.TypeScript.Rules
