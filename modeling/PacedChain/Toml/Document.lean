import PacedChain.Toml.Lexeme

/-!
# TOML documents

A document is a sequence of statements, each on a line of its own: a header says into which table
the entries after it go. `Toml.parse` reads the statements and puts the tables together; no key may
be given twice, and no table be opened twice.
-/
namespace PacedChain.Toml

/-! ### Values -/

/-- The entries with one more, whose key may have points in it. The tables on the way are made if
they are missing. An entry may go only into a table that dotted keys have made, or into the table
at hand, and is never replaced. -/
def addEntry : (keys : List String) → Value → Entries → Option Entries
  | [], _, _ => none
  | [key], value, entries =>
    match entries.find? key with
    | none => some (entries.put key value)
    | some _ => none
  | key :: next :: keys, value, entries =>
    match entries.find? key with
    | none =>
      (addEntry (next :: keys) value []).map fun below => entries.put key (.table .dotted below)
    | some (.table .dotted below) =>
      (addEntry (next :: keys) value below).map fun below => entries.put key (.table .dotted below)
    | some (.table .passage below) =>
      -- Dotted keys may pass through such a table, but add nothing to it.
      if keys.isEmpty then none
      else
        (addEntry (next :: keys) value below).map fun below =>
          entries.put key (.table .passage below)
    | some _ => none

mutual

/-- A value, within so many levels of brackets. -/
def readValue : (fuel level : Nat) → List Char → Option (Value × List Char)
  | 0, _, _ => none
  | fuel + 1, level, cs =>
    match cs with
    | '[' :: rest =>
      if level = 0 then none
      else (readItems fuel (level - 1) rest).map fun (items, rest) => (.array items, rest)
    | '\x7b' :: rest =>
      if level = 0 then none
      else
        match skipBlank rest with
        | '\x7d' :: rest => some (.table .inline [], rest)
        | _ => (readEntries fuel (level - 1) [] rest).map fun (found, rest) =>
          (.table .inline found, rest)
    | 't' :: 'r' :: 'u' :: 'e' :: rest => some (.bool true, rest)
    | 'f' :: 'a' :: 'l' :: 's' :: 'e' :: rest => some (.bool false, rest)
    | c :: _ =>
      if c == '"' || c == '\x27' then (readText cs).map fun (s, rest) => (.text s, rest)
      else if beginsMoment cs then (momentEnd? cs).map (.moment, ·)
      else readNumber cs
    | [] => none

/-- The items of an array up to the bracket that closes it. Every item may be followed by a comma,
and every item but the last is. -/
def readItems : (fuel level : Nat) → List Char → Option (List Value × List Char)
  | 0, _, _ => none
  | fuel + 1, level, cs =>
    match skipLines false cs with
    | ']' :: rest => some ([], rest)
    | cs => do
      let (item, cs) ← readValue fuel level cs
      match skipLines false cs with
      | ',' :: rest => (readItems fuel level rest).map fun (items, rest) => (item :: items, rest)
      | ']' :: rest => some ([item], rest)
      | _ => none

/-- The entries of a table between braces, at least one, up to the brace that closes it. -/
def readEntries : (fuel level : Nat) → Entries → List Char → Option (Entries × List Char)
  | 0, _, _, _ => none
  | fuel + 1, level, found, cs => do
    let (keys, cs) ← readPath deepest cs
    let cs ← after? '=' cs
    let (value, cs) ← readValue fuel level (skipBlank cs)
    let found ← addEntry keys value found
    match skipBlank cs with
    | ',' :: rest => readEntries fuel level found rest
    | '\x7d' :: rest => some (found, rest)
    | _ => none

end

/-! ### Statements -/

inductive Statement where
  | entry (keys : List String) (value : Value)
  /-- The table into which the entries below go. -/
  | header (path : List String)
  /-- One more table of an array, into which the entries below go. -/
  | arrayHeader (path : List String)

/-- The keys of a header, and what follows its closing brackets and the rest of the line. -/
def readHeader (closing : List Char) (cs : List Char) : Option (List String × List Char) := do
  let (path, cs) ← readPath deepest cs
  let cs ← closing.foldlM (fun cs mark => after? mark cs) cs
  let cs ← lineEnd? cs
  return (path, cs)

def readStatements : (fuel : Nat) → List Char → Option (List Statement)
  | 0, _ => none
  | fuel + 1, cs =>
    match skipBlank cs with
    | [] => some []
    | '[' :: '[' :: rest => do
      let (path, rest) ← readHeader [']', ']'] rest
      return .arrayHeader path :: (← readStatements fuel rest)
    | '[' :: rest => do
      let (path, rest) ← readHeader [']'] rest
      return .header path :: (← readStatements fuel rest)
    | cs@(c :: _) =>
      -- A line without a statement is passed over.
      if c == '#' || c == '\n' || c == '\r' then do
        readStatements fuel (← lineEnd? cs)
      else do
        let (keys, rest) ← readPath deepest cs
        let rest ← after? '=' rest
        let (value, rest) ← readValue (rest.length + 1) deepest (skipBlank rest)
        let rest ← lineEnd? rest
        return .entry keys value :: (← readStatements fuel rest)

/-! ### Documents -/

/-- The entries after a change to those of the table at the end of a path. The tables on the way
are made if they are missing; of an array of tables the last one is meant. -/
def amend (path : List String) (change : Entries → Option Entries) (entries : Entries) :
    Option Entries :=
  match path with
  | [] => change entries
  | key :: path =>
    match entries.find? key with
    | none => (amend path change []).map fun below => entries.put key (.table .passage below)
    | some (.table .inline _) => none
    | some (.table origin below) =>
      (amend path change below).map fun below => entries.put key (.table origin below)
    | some (.tables all) => do
      let below ← amend path change (all.getLast?.getD [])
      return entries.put key (.tables (all.dropLast ++ [below]))
    | some _ => none

/-- The entries with the table of a header opened. A table named in passing may be opened once. -/
def openTable (key : String) (entries : Entries) : Option Entries :=
  match entries.find? key with
  | none => some (entries.put key (.table .header []))
  | some (.table .passage below) => some (entries.put key (.table .header below))
  | some _ => none

/-- The entries with one more table in an array of tables. -/
def openNext (key : String) (entries : Entries) : Option Entries :=
  match entries.find? key with
  | none => some (entries.put key (.tables [[]]))
  | some (.tables all) => some (entries.put key (.tables (all ++ [[]])))
  | some _ => none

/-- Adds the statements to a document, entries to the table that was opened last. -/
def assemble : (opened : List String) → List Statement → Entries → Option Entries
  | _, [], root => some root
  | opened, .entry keys value :: rest, root => do
    let root ← amend opened (addEntry keys value) root
    assemble opened rest root
  | _, .header path :: rest, root => do
    let key ← path.getLast?
    let root ← amend path.dropLast (openTable key) root
    assemble path rest root
  | _, .arrayHeader path :: rest, root => do
    let key ← path.getLast?
    let root ← amend path.dropLast (openNext key) root
    assemble path rest root

/-- The entries of the document that a text is. A byte order mark may stand before it. -/
def parse (s : String) : Option Entries :=
  let cs := match s.toList with
    | '\uFEFF' :: rest => rest
    | cs => cs
  (readStatements (cs.length + 1) cs).bind fun statements => assemble [] statements []

end PacedChain.Toml
