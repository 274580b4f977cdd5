import Cartograph.Report.Render
import Cartograph.Text.Chars

/-!
# Command lines

The arguments of the command line, read one after the other. Options may stand before and behind the name
of the command; those for all commands count in both places, and then the later one wins. A value follows
its option as the next argument, behind an equals sign or, for a short option, directly. Two dashes end the
options. An option may be given once in each place, and a value is checked when it is read.
-/

namespace Cartograph.Command

inductive Name where
  | check
  | listAnalyzers
  | init
  | cleanCache
  | help
  deriving DecidableEq, Repr

namespace Name

def text : Name → String
  | check => "check"
  | listAnalyzers => "list-analyzers"
  | init => "init"
  | cleanCache => "clean-cache"
  | help => "help"

def all : List Name := [check, listAnalyzers, init, cleanCache, help]

def ofText? (s : String) : Option Name := all.find? (·.text == s)

end Name

inductive Flag where
  | verbose
  | config
  | format
  | concurrency
  | noCache
  | force
  | help
  | version
  deriving DecidableEq, Repr

namespace Flag

def long : Flag → String
  | verbose => "verbose"
  | config => "config"
  | format => "format"
  | concurrency => "concurrency"
  | noCache => "no-cache"
  | force => "force"
  | help => "help"
  | version => "version"

def short? : Flag → Option Char
  | verbose => some 'v'
  | config => some 'c'
  | format => some 'f'
  | concurrency => some 'j'
  | help => some 'h'
  | version => some 'V'
  | _ => none

def takesValue : Flag → Bool
  | config | format | concurrency => true
  | _ => false

/-- The options that may stand behind a command, or in front of any when there is none yet. -/
def allowed : Option Name → List Flag
  | none => [verbose, config, help, version]
  | some .check => [verbose, config, help, format, concurrency, noCache]
  | some .init => [verbose, config, help, force]
  | some .help => []
  | some _ => [verbose, config, help]

end Flag

def Name.arity : Name → Nat
  | check | init | cleanCache => 1
  | _ => 0

def workerLimit : Nat := 18446744073709551616

/-- Reads a number of workers: digits, with a plus sign or without, from one on and below the limit. -/
def workers? (value : String) : Option Nat :=
  let cs := value.toList
  let digits := (Text.dropStart? ['+'] cs).getD cs
  if digits.isEmpty || !digits.all (fun c => decide ('0' ≤ c ∧ c ≤ '9')) then none
  else
    let n := digits.foldl (fun n c => 10 * n + (c.toNat - '0'.toNat)) 0
    if 0 < n ∧ n < workerLimit then some n else none

def Flag.accepts (flag : Flag) (value : String) : Bool :=
  match flag with
  | config => value != ""
  | format => (Format.ofName? value).isSome
  | concurrency => (workers? value).isSome
  | _ => false

inductive Stop where
  /-- The arguments are not understood. -/
  | usage
  /-- The description of a command, or of all, was asked for. -/
  | help (command : Option Name)
  | version
  deriving DecidableEq, Repr

structure Arguments where
  command : Option Name := none
  /-- The options in front of the command. -/
  front : List (Flag × String) := []
  /-- The options behind it. -/
  back : List (Flag × String) := []
  others : List String := []
  /-- The option that waits for its value. -/
  pending : Option Flag := none
  /-- Whether the options have ended. -/
  ended : Bool := false
  deriving DecidableEq, Repr

namespace Arguments

def here (a : Arguments) : List (Flag × String) :=
  if a.command.isNone then a.front else a.back

def add (a : Arguments) (flag : Flag) (value : String) : Except Stop Arguments :=
  if a.here.any (·.1 == flag) then .error .usage
  else if a.command.isNone then .ok { a with front := a.front ++ [(flag, value)], pending := none }
  else .ok { a with back := a.back ++ [(flag, value)], pending := none }

def addValue (a : Arguments) (flag : Flag) (value : String) : Except Stop Arguments :=
  if flag.accepts value then a.add flag value else .error .usage

def addPlain (a : Arguments) (flag : Flag) : Except Stop Arguments :=
  match flag with
  | .help => .error (.help a.command)
  | .version => .error .version
  | flag => a.add flag ""

def findLong? (a : Arguments) (name : List Char) : Option Flag :=
  (Flag.allowed a.command).find? (·.long.toList == name)

def findShort? (a : Arguments) (letter : Char) : Option Flag :=
  (Flag.allowed a.command).find? (·.short? == some letter)

def readLong (a : Arguments) (body : List Char) : Except Stop Arguments :=
  let (name, value) := match Text.cutAt? '=' body with
    | some (name, value) => (name, some (String.ofList value))
    | none => (body, none)
  match a.findLong? name, value with
  | none, _ => .error .usage
  | some flag, some value => if flag.takesValue then a.addValue flag value else .error .usage
  | some flag, none => if flag.takesValue then .ok { a with pending := some flag } else a.addPlain flag

def readShort (a : Arguments) : List Char → Except Stop Arguments
  | [] => .ok a
  | letter :: rest =>
    match a.findShort? letter with
    | none => .error .usage
    | some flag =>
      if flag.takesValue then
        match rest with
        | [] => .ok { a with pending := some flag }
        | '=' :: value => a.addValue flag (String.ofList value)
        | value => a.addValue flag (String.ofList value)
      else
        match a.addPlain flag with
        | .ok a => readShort a rest
        | .error stop => .error stop

/-- Reads an argument that is no option: the command, or what the command takes. -/
def readOther (a : Arguments) (text : String) : Except Stop Arguments :=
  match a.command with
  | none =>
    match Name.ofText? text with
    | some command => if a.ended then .error .usage else .ok { a with command := some command }
    | none => .error .usage
  | some .help =>
    match a.others, Name.ofText? text with
    | [], some _ => .ok { a with others := [text] }
    | _, _ => .error .usage
  | some command =>
    if a.others.length < command.arity ∧ text ≠ "" then .ok { a with others := a.others ++ [text] }
    else .error .usage

def step (a : Arguments) (text : String) : Except Stop Arguments :=
  if a.ended then a.readOther text
  else
    match a.pending, text.toList with
    | some _, '-' :: _ :: _ => .error .usage
    | some flag, _ => a.addValue flag text
    | none, ['-', '-'] => .ok { a with ended := true }
    | none, '-' :: '-' :: body => a.readLong body
    | none, '-' :: letter :: letters => a.readShort (letter :: letters)
    | none, _ => a.readOther text

def value? (a : Arguments) (flag : Flag) : Option String :=
  ((a.back ++ a.front).find? (·.1 == flag)).map (·.2)

def has (a : Arguments) (flag : Flag) : Bool := (a.value? flag).isSome

def hasTwice (a : Arguments) (flag : Flag) : Bool :=
  a.front.any (·.1 == flag) && a.back.any (·.1 == flag)

end Arguments

inductive Request where
  | check (path : Option String) (format : Format) (workers : Option Nat) (noCache : Bool)
  | listAnalyzers
  | init (path : String) (force : Bool)
  | cleanCache (path : Option String)

structure Invocation where
  request : Request
  config : Option String := none
  verbose : Bool := false

def Arguments.request (a : Arguments) : Except Stop Request :=
  match a.pending, a.command with
  | some _, _ => .error .usage
  | none, none => .error .usage
  | none, some .check =>
    let format := ((a.value? .format).bind Format.ofName?).getD .text
    .ok (.check a.others.head? format ((a.value? .concurrency).bind workers?) (a.has .noCache))
  | none, some .listAnalyzers => .ok .listAnalyzers
  | none, some .init => .ok (.init (a.others.head?.getD ".") (a.has .force))
  | none, some .cleanCache => .ok (.cleanCache a.others.head?)
  | none, some .help => .error (.help (a.others.head?.bind Name.ofText?))

/-- Reads the arguments. A configuration file named by the environment counts where none is given, and an
empty name is refused there as well. -/
def invocation (args : List String) (environmentConfig : Option String) :
    Except Stop Invocation := do
  let a ← args.foldlM Arguments.step {}
  let request ← a.request
  if environmentConfig == some "" && !a.hasTwice .config then
    throw .usage
  return {
    request
    config := (a.value? .config).or environmentConfig
    verbose := a.has .verbose }

end Cartograph.Command
