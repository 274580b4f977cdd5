import Cartograph.Text.Chars

/-!
# Import specifiers

A specifier is the text by which a module names what it imports. It is a path, when it starts at the
root or with a dot segment, or else it is bare: the name of a package, perhaps with a path inside it.
-/

namespace Cartograph.Specifier

def isBare (specifier : String) : Bool :=
  let cs := specifier.toList
  !(cs == [] || cs == ['.'] || cs == ['.', '.'] || Text.startsWith ['.', '/'] cs ||
    Text.startsWith ['.', '.', '/'] cs || Text.startsWith ['/'] cs)

/-- Splits at the first slash, or at the second for a name in a scope. A slash at the very start
splits nothing. -/
def splitChars (cs : List Char) : List Char × Option (List Char) :=
  let cut : Option (List Char × List Char) :=
    match Text.cutAt? '/' cs, cs.head? with
    | some (scope, rest), some '@' =>
      (Text.cutAt? '/' rest).map fun (name, sub) => (scope ++ '/' :: name, sub)
    | cut, _ => cut
  match cut with
  | some (name, sub) =>
    if name.isEmpty then (cs, none) else (name, if sub.isEmpty then none else some sub)
  | none => (cs, none)

/-- The package name of a bare specifier, and the path inside the package if there is one. -/
def split (specifier : String) : String × Option String :=
  let (name, sub) := splitChars specifier.toList
  (String.ofList name, sub.map String.ofList)

def packageName (specifier : String) : String := (split specifier).1

def builtins : List String := [
  "assert", "async_hooks", "buffer", "child_process", "cluster", "console", "constants", "crypto",
  "dgram", "diagnostics_channel", "dns", "domain", "events", "fs", "http", "http2", "https",
  "inspector", "module", "net", "os", "path", "perf_hooks", "process", "punycode", "querystring",
  "readline", "repl", "stream", "string_decoder", "sys", "timers", "tls", "trace_events", "tty",
  "url", "util", "v8", "vm", "wasi", "worker_threads", "zlib"]

end Cartograph.Specifier
