import Cartograph.Check

/-!
# A first configuration

The text that a new configuration file holds: the settings that most workspaces change, and comments on the
others.
-/

namespace Cartograph.Command

def starterLines : List String := [
    "# archgraph configuration",
    "",
    "[analyzer]",
    "# Workspace root, relative to this file",
    "# root = \".\"",
    "",
    "# Directories holding a package.json that count as packages",
    "packages = [\".\", \"packages/*\"]",
    "",
    "# Glob patterns to exclude from analysis",
    "exclude = [",
    "    \"**/node_modules/**\",",
    "    \"**/dist/**\",",
    "    \"**/build/**\",",
    "    \"**/coverage/**\",",
    "]",
    "",
    "# Respect .gitignore files",
    "respect_gitignore = true",
    "",
    "# Drop diagnostics below this severity: \"info\" | \"warning\" | \"error\"",
    "min_severity = \"info\"",
    "",
    "[cache]",
    "enabled = true",
    "dir = \".archgraph-cache\"",
    "",
    "[cycles]",
    "# \"file\" or \"package\"",
    "granularity = \"file\"",
    "",
    "[dependencies]",
    "# Whether `import type` counts as using a dependency",
    "count_type_only = true",
    "unused_severity = \"warning\"",
    "ignore = [\"@types/*\"]",
    "",
    "# Each category can be disabled or have its severity overridden",
    "# [categories.circular-import]",
    "# enabled = true",
    "# severity = \"warning\"",
    "",
    "# [architecture]",
    "# enforce_public_api = false",
    "# allow_barrel_exports = [\"**/index.ts\"]",
    "",
    "# [[layers]]",
    "# name = \"app\"",
    "# paths = [\"packages/app/**\"]",
    "# allow = [\"core\"]",
    "#",
    "# [[layers]]",
    "# name = \"core\"",
    "# paths = [\"packages/core/**\"]"]

def starterConfig : String := String.join (starterLines.map (· ++ "\n"))

end Cartograph.Command
