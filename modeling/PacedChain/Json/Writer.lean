import PacedChain.Json.Basic

/-!
# Writing JSON

Values are written without blanks (`render`), or for people with one member or item a line
(`pretty`). In a text a quotation mark, a backslash and every control character is written behind a
backslash, by its letter if it has one.
-/
namespace PacedChain.Json

def hexDigit (n : Nat) : Char := "0123456789abcdef".toList.getD n '0'

/-- The written form of a character inside a text. -/
def escape (c : Char) : List Char :=
  if c = '"' then ['\\', '"']
  else if c = '\\' then ['\\', '\\']
  else if c = '\x08' then ['\\', 'b']
  else if c = '\x0c' then ['\\', 'f']
  else if c = '\n' then ['\\', 'n']
  else if c = '\r' then ['\\', 'r']
  else if c = '\t' then ['\\', 't']
  else if c.toNat < 0x20 then
    ['\\', 'u', '0', '0', hexDigit (c.toNat / 16), hexDigit (c.toNat % 16)]
  else [c]

def renderText (s : String) : List Char := '"' :: s.toList.flatMap escape ++ ['"']

def renderNumeral (n : Numeral) : List Char :=
  (if n.negative then ['-'] else []) ++ Nat.toDigits 10 n.coefficient ++
    (if n.integral then [] else 'e' :: (toString n.exponent).toList)

/-- A text without characters is written as half a surrogate pair. -/
def renderText? : Option String → List Char
  | some s => renderText s
  | none => ['"', '\\', 'u', 'd', '8', '0', '0', '"']

mutual

def render : Json → List Char
  | .null => "null".toList
  | .bool true => "true".toList
  | .bool false => "false".toList
  | .number n => renderNumeral n
  | .text s => renderText? s
  | .array [] => ['[', ']']
  | .array (item :: rest) => '[' :: render item ++ renderItems rest
  | .object [] => ['\x7b', '\x7d']
  | .object ((name, value) :: rest) =>
    '\x7b' :: renderText? name ++ ':' :: render value ++ renderMembers rest

def renderItems : List Json → List Char
  | [] => [']']
  | item :: rest => ',' :: render item ++ renderItems rest

def renderMembers : List (Option String × Json) → List Char
  | [] => ['\x7d']
  | (name, value) :: rest =>
    ',' :: renderText? name ++ ':' :: render value ++ renderMembers rest

end

def newLine (depth : Nat) : List Char := '\n' :: List.replicate (2 * depth) ' '

mutual

/-- The written form of a value for people, at a depth of nesting. -/
def prettyAt (depth : Nat) : Json → List Char
  | .array (item :: rest) =>
    '[' :: newLine (depth + 1) ++ prettyAt (depth + 1) item ++ prettyItems depth rest
  | .object ((name, value) :: rest) =>
    '\x7b' :: newLine (depth + 1) ++ renderText? name ++ ':' :: ' ' ::
      prettyAt (depth + 1) value ++ prettyMembers depth rest
  | .array [] => render (.array [])
  | .object [] => render (.object [])
  | .null => render .null
  | .bool b => render (.bool b)
  | .number n => render (.number n)
  | .text s => render (.text s)

def prettyItems (depth : Nat) : List Json → List Char
  | [] => newLine depth ++ [']']
  | item :: rest =>
    ',' :: newLine (depth + 1) ++ prettyAt (depth + 1) item ++ prettyItems depth rest

def prettyMembers (depth : Nat) : List (Option String × Json) → List Char
  | [] => newLine depth ++ ['\x7d']
  | (name, value) :: rest =>
    ',' :: newLine (depth + 1) ++ renderText? name ++ ':' :: ' ' ::
      prettyAt (depth + 1) value ++ prettyMembers depth rest

end

def pretty (j : Json) : String := String.ofList (prettyAt 0 j)

end PacedChain.Json
