import PacedChain.Binary64

/-!
# TOML values

The values of a TOML document. A table keeps its entries in the order in which they were written,
and remembers how it came about, because that decides what may be added to it later.
-/
namespace PacedChain.Toml

/-- How a table came about. -/
inductive Origin where
  /-- Written between braces, and complete. -/
  | inline
  /-- Opened by a header of its own. -/
  | header
  /-- Named in passing by the header of a table below it. -/
  | passage
  /-- Named in passing by a dotted key. -/
  | dotted
  deriving DecidableEq

inductive Value where
  | text (s : String)
  | integer (n : Int)
  | float (x : Binary64)
  | bool (b : Bool)
  /-- A date, a time of day or both; only that it is one is kept. -/
  | moment
  | array (items : List Value)
  | table (origin : Origin) (entries : List (String × Value))
  /-- The tables that were opened one after the other by headers in double brackets. -/
  | tables (all : List (List (String × Value)))

abbrev Entries := List (String × Value)

def Entries.find? (entries : Entries) (key : String) : Option Value := entries.lookup key

/-- The entries with another value under a key, which goes to the end if the key is new. -/
def Entries.put (entries : Entries) (key : String) (value : Value) : Entries :=
  match entries with
  | [] => [(key, value)]
  | (k, v) :: rest => if k = key then (k, value) :: rest else (k, v) :: Entries.put rest key value

/-- How many levels of brackets and braces a value may have, and parts a dotted key. -/
def deepest : Nat := 79

end PacedChain.Toml
