import Cartograph.Toml.Lexeme

/-!
# Reading TOML documents

A document is a list of lines: entries, headers that open a table or a further table of an array, and
lines without content. `Value` trees grow entry by entry; `enter` is the one walk along a key, for
headers and for dotted keys alike.
-/

namespace Cartograph.Toml

abbrev Entries := List (Key × Value)

/-! ### Growing tables -/

def duplicate (key : Key) : Except Fault α :=
  .error { mistake := .duplicateKey key.name, left := key.left, width := key.width }

def alter (key : Key) (change : Value → Except Fault Value) (create : Except Fault Value) :
    Entries → Except Fault Entries
  | [] => create.map fun v => [(key, v)]
  | (k, v) :: rest =>
    if k.name = key.name then (change v).map fun v => (k, v) :: rest
    else (alter key change create rest).map ((k, v) :: ·)

/-- Walks along the parts of a key from a table of a form and changes the entries of the table that it
leads to. Missing tables are made with the form `made`. Tables with a header are closed to dotted
keys, inline tables to everything; of the tables of an array the last is meant. -/
def enter (made : Form) (change : Form → Entries → Except Fault Entries) :
    List Key → Form → Entries → Except Fault Entries
  | [], form, entries => change form entries
  | key :: keys, _, entries =>
    let create := (enter made change keys made []).map (Value.table key.left made)
    let visit (v : Value) : Except Fault Value :=
      match v with
      | .table left form inner =>
        if form = .inline ∨ (made = .dotted ∧ form = .explicit) then duplicate key
        else (enter made change keys form inner).map (.table left form)
      | .tables left items =>
        match items.getLast? with
        | some (.table l form inner) =>
          (enter made change keys form inner).map fun es =>
            .tables left (items.dropLast ++ [.table l form es])
        | _ => duplicate key
      | _ => duplicate key
    alter key visit create entries

/-- Adds an entry behind the parts of a dotted key. The table that the parts lead to has to be one made
by dotted keys. -/
def addEntry (keys : List Key) (last : Key) (value : Value) : Form → Entries → Except Fault Entries :=
  enter .dotted (fun form entries =>
    if !keys.isEmpty && form != .dotted then duplicate last
    else alter last (fun _ => duplicate last) (.ok value) entries) keys

def splitLast? (keys : List Key) : Option (List Key × Key) :=
  keys.getLast?.map fun last => (keys.dropLast, last)

/-! ### Values -/

def arrayItems (read : List Char → Reading Value) : Nat → List Value → List Char → Reading (List Value)
  | 0, _, cs => unexpected cs
  | n + 1, done, cs =>
    match skipBlank cs with
    | ']' :: rest => .ok (done.reverse, rest)
    | rest =>
      match read rest with
      | .error f => .error f
      | .ok (v, rest) =>
        match skipBlank rest with
        | ',' :: rest => arrayItems read n (v :: done) rest
        | ']' :: rest => .ok ((v :: done).reverse, rest)
        | rest => unexpected rest

def entry (read : List Char → Reading Value) (cs : List Char) : Reading (List Key × Value) :=
  match key cs with
  | .error f => .error f
  | .ok (keys, '=' :: rest) => (read (skipSpace rest)).map fun (v, rest) => ((keys, v), rest)
  | .ok (_, rest) => unexpected rest

/-- Reads the entries of an inline table behind the opening brace or a comma. -/
def inlineEntries (read : List Char → Reading Value) : Nat → Entries → List Char → Reading Entries
  | 0, _, cs => unexpected cs
  | n + 1, done, cs =>
    match entry read (skipSpace cs) with
    | .error f => .error f
    | .ok ((keys, v), rest) =>
      match splitLast? keys with
      | none => unexpected cs
      | some (front, last) =>
        match addEntry front last v .inline done with
        | .error f => .error f
        | .ok done =>
          match skipSpace rest with
          | ',' :: rest => inlineEntries read n done rest
          | '}' :: rest => .ok (done, rest)
          | rest => unexpected rest

def depthLimit : Nat := 80

/-- Reads a value whose containers nest at most as deep as the first argument says. -/
def value : Nat → List Char → Reading Value
  | depth, cs =>
    match cs with
    | '[' :: rest =>
      match depth with
      | 0 => unexpected cs
      | depth + 1 => (arrayItems (value depth) (rest.length + 1) [] rest).map
          fun (items, after) => (.array cs.length items, after)
    | '{' :: rest =>
      match depth with
      | 0 => unexpected cs
      | depth + 1 =>
        match skipSpace rest with
        | '}' :: after => .ok (.table cs.length .inline [], after)
        | _ => (inlineEntries (value depth) (rest.length + 1) [] rest).map
            fun (entries, after) => (.table cs.length .inline entries, after)
    | 't' :: 'r' :: 'u' :: 'e' :: rest => .ok (.bool cs.length true, rest)
    | 'f' :: 'a' :: 'l' :: 's' :: 'e' :: rest => .ok (.bool cs.length false, rest)
    | '"' :: _ => (string cs).map fun (s, after) => (.text cs.length s, after)
    | '\'' :: _ => (string cs).map fun (s, after) => (.text cs.length s, after)
    | _ => numeric cs

/-! ### Documents -/

/-- A document that is being read: its entries so far, and the table that further entries go to. -/
structure Document where
  entries : Entries := []
  current : List Key := []

namespace Document

def add (d : Document) (keys : List Key) (v : Value) : Except Fault Document :=
  match splitLast? keys with
  | none => .ok d
  | some (front, last) =>
    (enter .implicit (addEntry front last v) d.current .explicit d.entries).map fun entries => { d with entries }

/-- Opens a table with a header. A table that only longer headers have mentioned moves to the end. -/
def openTable (d : Document) (keys : List Key) (left : Nat) : Except Fault Document :=
  match splitLast? keys with
  | none => .ok d
  | some (front, last) =>
    let openLast (_ : Form) (entries : Entries) : Except Fault Entries :=
      match entries.find? (·.1.name == last.name) with
      | none => .ok (entries ++ [(last, .table left .explicit [])])
      | some (_, .table _ .implicit inner) =>
        .ok (entries.filter (·.1.name != last.name) ++ [(last, .table left .explicit inner)])
      | some _ => .error { mistake := .duplicateKey last.name, left }
    (enter .implicit openLast front .explicit d.entries).map fun entries => { entries, current := keys }

def openItem (d : Document) (keys : List Key) (left : Nat) : Except Fault Document :=
  match splitLast? keys with
  | none => .ok d
  | some (front, last) =>
    let item := Value.table left .explicit []
    let push (v : Value) : Except Fault Value :=
      match v with
      | .tables l items => .ok (.tables l (items ++ [item]))
      | _ => .error { mistake := .duplicateKey last.name, left }
    (enter .implicit (fun _ => alter last push (.ok (.tables left [item]))) front .explicit
        d.entries).map
      fun entries => { entries, current := keys }

def line (d : Document) (cs : List Char) : Reading Document :=
  match cs with
  | '[' :: '[' :: rest =>
    match key rest with
    | .error f => .error f
    | .ok (keys, ']' :: ']' :: after) => (d.openItem keys cs.length).map (·, after)
    | .ok (_, after) => unexpected after
  | '[' :: rest =>
    match key rest with
    | .error f => .error f
    | .ok (keys, ']' :: after) => (d.openTable keys cs.length).map (·, after)
    | .ok (_, after) => unexpected after
  | _ =>
    match entry (value depthLimit) cs with
    | .error f => .error f
    | .ok ((keys, v), after) => (d.add keys v).map (·, after)

def lines : Nat → Document → List Char → Except Fault Document
  | 0, d, _ => .ok d
  | n + 1, d, cs =>
    match skipBlank cs with
    | [] => .ok d
    | rest =>
      match d.line rest with
      | .error f => .error f
      | .ok (d, rest) =>
        match lineEnd rest with
        | .error f => .error f
        | .ok (_, rest) => lines n d rest

end Document

def read (cs : List Char) : Except Fault Entries :=
  let body := match cs with
    | '\ufeff' :: rest => rest
    | _ => cs
  (Document.lines (body.length + 1) {} body).map (·.entries)

end Cartograph.Toml
