/-!
# Levels of arguments

Arguments are read level by level: a level has options, which take a value, and switches, which take
none, and ends at the first word that is no value. A value that stands in an argument of its own is
taken in when the next option or switch is met, or at the end of its level, so that an error in it
comes after all that stands before it and before all that stands after it.
-/
namespace PacedChain.Command

/-- Why reading ends without a command. -/
inductive Stop where
  /-- The arguments are not understood. -/
  | usage
  | help
  | version
  deriving DecidableEq

inductive Argument where
  /-- Only words follow. -/
  | separator
  | long (name : List Char) (value : Option (List Char))
  | letters (letters : List Char)
  | word
  deriving DecidableEq

/-- A name, with the value behind an equals sign if there is one. -/
def splitValue (cs : List Char) : Argument :=
  match cs.dropWhile (· != '=') with
  | _ :: value => .long (cs.takeWhile (· != '=')) (some value)
  | [] => .long cs none

/-- The form of an argument; a hyphen alone is a word. -/
def Argument.ofString (s : String) : Argument :=
  match s.toList with
  | '-' :: '-' :: [] => .separator
  | '-' :: '-' :: rest => splitValue rest
  | '-' :: c :: rest => .letters (c :: rest)
  | _ => .word

/-- An option of a level that builds up a value of `α`. -/
structure ValueOption (α : Type) where
  name : String
  /-- Whether a negative number may follow it. -/
  negative : Bool
  /-- The value of the level with that of the option; nothing if it is bad or a second one. -/
  put : String → α → Option α

structure Switch (α : Type) where
  name : String
  letter : Char
  flip : α → Except Stop α

structure Level (α : Type) where
  options : List (ValueOption α)
  switches : List (Switch α)

/-- How far a level has been read. -/
structure Reading (α : Type) where
  value : α
  /-- The option that was met last and has not been taken in, and its value if that was met. -/
  pending : Option (ValueOption α × Option String) := none

namespace Reading

variable {α : Type}

/-- The option that still waits for its value. -/
def awaiting (r : Reading α) : Option (ValueOption α) :=
  match r.pending with
  | some (option, none) => some option
  | _ => none

/-- Take in the option that was met last. -/
def settle (r : Reading α) : Except Stop α :=
  match r.pending with
  | none => .ok r.value
  | some (_, none) => .error .usage
  | some (option, some text) =>
    match option.put text r.value with
    | some value => .ok value
    | none => .error .usage

end Reading

/-- Whether the letters behind a hyphen are the digits of a negative number. -/
def isNumber (letters : List Char) : Bool := letters.all Char.isDigit

namespace Level

variable {α : Type}

def flip (r : Reading α) (switch? : Option (Switch α)) : Except Stop (Reading α) := do
  let value ← r.settle
  match switch? with
  | some switch => return { value := ← switch.flip value }
  | none => .error .usage

def meetLong (l : Level α) (r : Reading α) (name : List Char) (text : Option (List Char)) :
    Except Stop (Reading α) := do
  match l.options.find? (·.name.toList == name), text with
  | some option, some text =>
    let value ← r.settle
    return { value := ← Reading.settle ⟨value, some (option, some (String.ofList text))⟩ }
  | some option, none => return ⟨← r.settle, some (option, none)⟩
  | none, none => flip r (l.switches.find? (·.name.toList == name))
  | none, some _ => .error .usage

def meetLetters (l : Level α) (r : Reading α) (letters : List Char) : Except Stop (Reading α) :=
  letters.foldlM (fun r letter => flip r (l.switches.find? (·.letter == letter))) r

/-- Read arguments up to the first word that is no value; the arguments from there on are left. -/
def read (l : Level α) : List String → Reading α → Except Stop (Reading α × List String)
  | [], r => .ok (r, [])
  | arg :: rest, r =>
    match Argument.ofString arg, r.awaiting with
    | .separator, _ => if rest.isEmpty then .ok (r, []) else .error .usage
    | .long name text, _ => do l.read rest (← l.meetLong r name text)
    | .letters letters, some option =>
      -- A hyphen begins a value only where a negative number is one.
      if option.negative && isNumber letters then
        l.read rest { r with pending := some (option, some arg) }
      else do l.read rest (← l.meetLetters r letters)
    | .letters letters, none => do l.read rest (← l.meetLetters r letters)
    | .word, some option => l.read rest { r with pending := some (option, some arg) }
    | .word, none => .ok (r, arg :: rest)

/-- Read arguments among which every word has to be a value. -/
def readAll (l : Level α) (start : α) (args : List String) : Except Stop α := do
  match ← l.read args ⟨start, none⟩ with
  | (r, []) => r.settle
  | (_, _ :: _) => .error .usage

end Level

end PacedChain.Command
