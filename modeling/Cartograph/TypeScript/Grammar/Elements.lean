import Cartograph.TypeScript.Phrase

/-!
# Elements

Elements with their attributes and what stands between their tags.
-/

namespace Cartograph.TypeScript.Rules

open Grammar.Rule Phrase Token

def elements : List (Phrase × Rule) := [
  (.element, seq [openingTag, any elementChild, closingTag]),
  (.elementExpression, seq [ "\x7b", opt (choice [expression, sequenceExpression, spreadElement]), "\x7d"]),
  (.elementChild, choice [elementText, reference, anyElement, elementExpression]),
  (.openingTag, weighted (-1) (seq [tagStart, ">"])),
  (.elementIdentifier, choice [elementName, identifier]),
  (.nestedIdentifier, bound .member (seq [choice [identifier, nestedIdentifier], ".", identifier])),
  (.prefixedName, seq [elementIdentifier, ":", elementIdentifier]),
  (.tagName, choice [elementIdentifier, nestedIdentifier, prefixedName]),
  (.closingTag, seq ["</", opt (part .name tagName), ">"]),
  (.selfClosingTag, weighted (-1) (seq [tagStart, "/>"])),
  (.attributePart, choice [elementAttribute, elementExpression]),
  (.attributeName, choice [elementIdentifier, prefixedName]),
  (.elementAttribute, seq [attributeName, opt (seq ["=", attributeValue])]),
  (.attributeString, choice [
      seq ["\"", any (choice [doubleValue, reference]), "\""],
      seq ["'", any (choice [singleValue, reference]), "'"]]),
  (.attributeValue, choice [attributeString, elementExpression, anyElement]),
  (.anyElement, choice [element, selfClosingTag])]

end Cartograph.TypeScript.Rules
