import Cartograph.TypeScript.Phrase

/-!
# Literals

Strings, templates, regular expressions and names that the language gives.
-/

namespace Cartograph.TypeScript.Rules

open Grammar.Rule Phrase Token

def literals : List (Phrase × Rule) := [
  (.stringText, choice [
      seq ["\"", any (choice [doubleText, escape]), "\""],
      seq ["'", any (choice [singleText, escape]), "'"]]),
  (.templateString, seq ["`", any (choice [templateText, escape, templateSubstitution]), "`"]),
  (.templateSubstitution, seq ["$\x7b", anyExpression, "\x7d"]),
  (.regexLiteral, seq ["/", regexBody, regexEnd, opt regexFlags]),
  (.plainIdentifier, choice ["undefined", identifier]),
  (.metaProperty, choice [seq ["new", ".", "target"], seq ["import", ".", "meta"]]),
  (.callArguments, seq ["(", list (opt (choice [expression, spreadElement])), ")"])]

end Cartograph.TypeScript.Rules
