import Cartograph.TypeScript.Phrase

/-!
# Modules

The whole text, and how it imports and exports.
-/

namespace Cartograph.TypeScript.Rules

open Grammar.Rule Phrase Token

def modules : List (Phrase × Rule) := [
  (.program, seq [opt interpreterLine, any statement]),
  (.exportStatement, choice [
      seq [
        "export",
        choice [
          seq ["*", fromClause], seq [namespaceExport, fromClause], seq [exportClause, fromClause],
          exportClause],
        semicolon],
      seq [
        any decorator, "export",
        choice [
          part .declaration declaration,
          seq ["default", choice [part .declaration declaration, seq [expression, semicolon]]]]],
      seq ["export", "type", exportClause, opt fromClause, semicolon],
      seq ["export", "import", importEquals], seq ["export", "=", expression, semicolon],
      seq ["export", "as", "namespace", identifier, semicolon]]),
  (.namespaceExport, seq ["*", "as", exportName]),
  (.exportClause, seq ["\x7b", list exportSpecifier, opt ",", "\x7d"]),
  (.exportSpecifier, seq [
      opt (choice ["type", "typeof"]), part .name exportName,
      opt (seq ["as", part .newName exportName])]),
  (.exportName, choice [identifier, stringText]),
  (.declaration, choice [
      functionDeclaration, generatorFunctionDeclaration, classDeclaration, lexicalDeclaration,
      variableDeclaration, functionSignature, abstractClassDeclaration, moduleDeclaration,
      bound .declaration namespaceDeclaration, typeDeclaration, enumDeclaration,
      interfaceDeclaration, importEquals, ambientDeclaration]),
  (.importWord, "import"),
  (.importStatement, seq [
      "import", opt (choice ["type", "typeof"]),
      choice [seq [importClause, fromClause], importRequire, part .source stringText],
      opt importAttribute, semicolon]),
  (.importClause, choice [
      namespaceImport, namedImports,
      seq [importedName, opt (seq [",", choice [namespaceImport, namedImports]])]]),
  (.fromClause, seq ["from", part .source stringText]),
  (.namespaceImport, seq ["*", "as", identifier]),
  (.namedImports, seq ["\x7b", list importSpecifier, opt ",", "\x7d"]),
  (.importSpecifier, seq [
      opt (choice ["type", "typeof"]),
      choice [
        part .name importedName,
        seq [part .name (choice [exportName, asWord "type"]), "as", part .newName importedName]]]),
  (.importAttribute, seq [choice ["with", "assert"], objectLiteral])]

end Cartograph.TypeScript.Rules
