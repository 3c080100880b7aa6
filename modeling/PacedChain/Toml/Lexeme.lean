import PacedChain.Text.Hexadecimal
import PacedChain.Toml.Basic

/-!
# Lexemes of TOML

Blanks, comments, quoted texts, numbers and moments. Each reader gives what it has read and the
characters after it, or nothing if the characters at the front are no such lexeme.
-/
namespace PacedChain.Toml

/-! ### Blanks and comments -/

def isBlank (c : Char) : Bool := c == ' ' || c == '\t'

def skipBlank (cs : List Char) : List Char := cs.dropWhile isBlank

/-- What may stand in a comment: anything but control characters other than the tabulator. -/
def isPlain (c : Char) : Bool := c == '\t' || (0x20 ≤ c.toNat && c.toNat != 0x7F)

/-- What follows the line break at the front. -/
def lineBreak? : List Char → Option (List Char)
  | '\n' :: rest => some rest
  | '\r' :: '\n' :: rest => some rest
  | _ => none

/-- What follows the line, of which only blanks and a comment may be left. -/
def lineEnd? (cs : List Char) : Option (List Char) :=
  let cs := match skipBlank cs with
    | '#' :: rest => rest.dropWhile isPlain
    | cs => cs
  match cs with
  | [] => some []
  | cs => lineBreak? cs

/-- What follows the blanks, line breaks and comments at the front. -/
def skipLines : (inComment : Bool) → List Char → List Char
  | _, '\n' :: rest => skipLines false rest
  | _, '\r' :: '\n' :: rest => skipLines false rest
  | true, c :: rest => if isPlain c then skipLines true rest else c :: rest
  | false, c :: rest =>
    if c == '#' then skipLines true rest
    else if isBlank c then skipLines false rest
    else c :: rest
  | _, [] => []

/-! ### Texts -/

/-- The character that a letter behind a backslash stands for. -/
def escaped? : Char → Option Char
  | '"' => some '"'
  | '\\' => some '\\'
  | 'b' => some '\x08'
  | 'f' => some '\x0c'
  | 'n' => some '\n'
  | 'r' => some '\r'
  | 't' => some '\t'
  | _ => none

/-- The character whose number the digits give. -/
def numbered? (digits : List Char) : Option Char := do
  let n ← Text.hexNumber? digits
  if n.isValidChar then some (Char.ofNat n) else none

def readEscape : List Char → Option (Char × List Char)
  | 'u' :: a :: b :: c :: d :: rest => (numbered? [a, b, c, d]).map (·, rest)
  | 'U' :: a :: b :: c :: d :: e :: f :: g :: h :: rest =>
    (numbered? [a, b, c, d, e, f, g, h]).map (·, rest)
  | c :: rest => (escaped? c).map (·, rest)
  | [] => none

/-- A text on one line up to the quotation mark that closes it. -/
def readBasic : (fuel : Nat) → List Char → Option (List Char × List Char)
  | 0, _ => none
  | _, [] => none
  | _, '"' :: rest => some ([], rest)
  | fuel + 1, '\\' :: rest => do
    let (c, rest) ← readEscape rest
    let (text, rest) ← readBasic fuel rest
    return (c :: text, rest)
  | fuel + 1, c :: rest => do
    if isPlain c then
      let (text, rest) ← readBasic fuel rest
      return (c :: text, rest)
    else none

/-- A text up to the apostrophe that closes it; a backslash is a character like any other. -/
def readLiteral : List Char → Option (List Char × List Char)
  | [] => none
  | c :: rest =>
    if c == '\x27' then some ([], rest)
    else if isPlain c then (readLiteral rest).map fun (text, rest) => (c :: text, rest)
    else none

/-- The end of a text of several lines: three quotes, before which up to two more may stand that
belong to the text. -/
def readClosing (quote : Char) : List Char → Option (List Char × List Char)
  | a :: b :: c :: rest =>
    if a == quote && b == quote && c == quote then
      match rest with
      | d :: e :: rest' =>
        if d == quote && e == quote then some ([quote, quote], rest')
        else if d == quote then some ([quote], e :: rest')
        else some ([], rest)
      | [d] => if d == quote then some ([quote], []) else some ([], rest)
      | [] => some ([], [])
    else none
  | _ => none

/-- A text of several lines up to its end. A backslash before a line break takes away all blanks
and line breaks up to the next character. -/
def readLongBasic : (fuel : Nat) → List Char → Option (List Char × List Char)
  | 0, _ => none
  | fuel + 1, cs =>
    match readClosing '"' cs with
    | some found => some found
    | none =>
      match cs with
      | [] => none
      | '\\' :: rest =>
        -- Blanks may stand between the backslash and the line break.
        match lineBreak? (skipBlank rest) with
        | some rest => readLongBasic fuel (skipBreaks rest)
        | none => do
          let (c, rest) ← readEscape rest
          let (text, rest) ← readLongBasic fuel rest
          return (c :: text, rest)
      | c :: rest =>
        match lineBreak? cs with
        | some rest => (readLongBasic fuel rest).map fun (text, rest) => ('\n' :: text, rest)
        | none =>
          if isPlain c then
            (readLongBasic fuel rest).map fun (text, rest) => (c :: text, rest)
          else none
where
  /-- What follows the blanks and line breaks at the front. -/
  skipBreaks : List Char → List Char
    | '\n' :: rest => skipBreaks rest
    | '\r' :: '\n' :: rest => skipBreaks rest
    | c :: rest => if isBlank c then skipBreaks rest else c :: rest
    | [] => []

/-- A text of several lines between apostrophes up to its end. -/
def readLongLiteral : (fuel : Nat) → List Char → Option (List Char × List Char)
  | 0, _ => none
  | fuel + 1, cs =>
    match readClosing '\x27' cs with
    | some found => some found
    | none =>
      match cs with
      | [] => none
      | c :: rest =>
        match lineBreak? cs with
        | some rest => (readLongLiteral fuel rest).map fun (text, rest) => ('\n' :: text, rest)
        | none =>
          if isPlain c then
            (readLongLiteral fuel rest).map fun (text, rest) => (c :: text, rest)
          else none

/-- A text in any of its four forms. The line break right behind three opening quotes is no part
of the text. -/
def readText (cs : List Char) : Option (String × List Char) :=
  (quotedText cs).map fun (text, rest) => (String.ofList text, rest)
where
  afterBreak (cs : List Char) : List Char := (lineBreak? cs).getD cs
  quotedText : List Char → Option (List Char × List Char)
    | '"' :: '"' :: '"' :: rest => readLongBasic (rest.length + 1) (afterBreak rest)
    | '"' :: rest => readBasic (rest.length + 1) rest
    | '\x27' :: '\x27' :: '\x27' :: rest => readLongLiteral (rest.length + 1) (afterBreak rest)
    | '\x27' :: rest => readLiteral rest
    | _ => none

/-! ### Keys -/

def isBare (c : Char) : Bool := c.isAlphanum || c == '_' || c == '-'

/-- A key, bare or quoted on one line. -/
def readKey (cs : List Char) : Option (String × List Char) :=
  match cs with
  | '"' :: rest => (readBasic (rest.length + 1) rest).map fun (k, rest) => (String.ofList k, rest)
  | '\x27' :: rest => (readLiteral rest).map fun (k, rest) => (String.ofList k, rest)
  | _ =>
    match cs.takeWhile isBare with
    | [] => none
    | key => some (String.ofList key, cs.dropWhile isBare)

/-- At most so many keys with points between them, the blanks around each one left out. -/
def readPath : (most : Nat) → List Char → Option (List String × List Char)
  | 0, _ => none
  | most + 1, cs => do
    let (key, rest) ← readKey (skipBlank cs)
    match skipBlank rest with
    | '.' :: rest => (readPath most rest).map fun (keys, rest) => (key :: keys, rest)
    | rest => some ([key], rest)

/-! ### Numbers -/

/-- The digits that follow a digit; an underscore may stand between two of them. -/
def readMoreDigits (isDigit : Char → Bool) : List Char → Option (List Char × List Char)
  | '_' :: c :: rest =>
    if isDigit c then (readMoreDigits isDigit rest).map fun (ds, rest) => (c :: ds, rest)
    else none
  | c :: rest =>
    if c == '_' then none
    else if isDigit c then (readMoreDigits isDigit rest).map fun (ds, rest) => (c :: ds, rest)
    else some ([], c :: rest)
  | [] => some ([], [])

def readDigits (isDigit : Char → Bool) : List Char → Option (List Char × List Char)
  | c :: rest =>
    if isDigit c then (readMoreDigits isDigit rest).map fun (ds, rest) => (c :: ds, rest)
    else none
  | [] => none

/-- The digits of a decimal integer: a zero alone, or digits that do not begin with one. -/
def readWhole : List Char → Option (List Char × List Char)
  | '0' :: rest => some (['0'], rest)
  | cs => readDigits Char.isDigit cs

/-- Whether a character is a digit of less than a bound. -/
def isDigitBelow (bound : Nat) (c : Char) : Bool :=
  match Text.hexValue? c with
  | some n => n < bound
  | none => false

/-- The digits of a number in the base of `2 ^ bits`, which has to fit into 63 bits. -/
def readPowerBase (bits : Nat) (cs : List Char) : Option (Value × List Char) := do
  let (digits, rest) ← readDigits (isDigitBelow (Nat.pow 2 bits)) cs
  let n := digits.foldl (fun n c => n * Nat.pow 2 bits + (Text.hexValue? c).getD 0) 0
  if n < Nat.pow 2 63 then some (.integer n, rest) else none

def digitsValue (digits : List Char) : Nat :=
  digits.foldl (fun n c => n * 10 + (c.toNat - '0'.toNat)) 0

def readFraction : List Char → Option (Option (List Char) × List Char)
  | '.' :: rest => (readDigits Char.isDigit rest).map fun (ds, rest) => (some ds, rest)
  | cs => some (none, cs)

def readExponent : List Char → Option (Option Int × List Char)
  | c :: rest =>
    if c == 'e' || c == 'E' then
      let (negative, rest) := match rest with
        | '-' :: rest => (true, rest)
        | '+' :: rest => (false, rest)
        | _ => (false, rest)
      (readDigits Char.isDigit rest).map fun (ds, rest) =>
        let n : Int := digitsValue ds
        (some (if negative then -n else n), rest)
    else some (none, c :: rest)
  | [] => some (none, [])

/-- A decimal number: an integer of 64 bits, or a double if it has a fraction or an exponent. A
double that is too large is refused, one that is too small is not. -/
def readDecimal (negative : Bool) (cs : List Char) : Option (Value × List Char) := do
  let (whole, cs) ← readWhole cs
  let (fraction, cs) ← readFraction cs
  let (exponent, cs) ← readExponent cs
  match fraction, exponent with
  -- Without a fraction and an exponent it is an integer.
  | none, none =>
    let n : Int := digitsValue whole
    let n := if negative then -n else n
    if -(Nat.pow 2 63 : Int) ≤ n && n < Nat.pow 2 63 then some (.integer n, cs) else none
  | _, _ =>
    let fraction := fraction.getD []
    let x := Binary64.ofDecimal negative (digitsValue (whole ++ fraction))
      (exponent.getD 0 - fraction.length)
    if x = .infinite false then none else some (.float x, cs)

def readNumber : List Char → Option (Value × List Char)
  | '0' :: 'x' :: rest => readPowerBase 4 rest
  | '0' :: 'o' :: rest => readPowerBase 3 rest
  | '0' :: 'b' :: rest => readPowerBase 1 rest
  | '+' :: rest => readSigned false rest
  | '-' :: rest => readSigned true rest
  | cs => readSigned false cs
where
  readSigned (negative : Bool) : List Char → Option (Value × List Char)
    | 'i' :: 'n' :: 'f' :: rest => some (.float (.infinite negative), rest)
    | 'n' :: 'a' :: 'n' :: rest => some (.float .nan, rest)
    | cs => readDecimal negative cs

/-! ### Moments -/

/-- The number of exactly so many digits, if it lies between two bounds. -/
def readField (width least most : Nat) (cs : List Char) : Option (Nat × List Char) :=
  let digits := cs.take width
  let n := digitsValue digits
  if digits.length = width && digits.all Char.isDigit && least ≤ n && n ≤ most then
    some (n, cs.drop width)
  else none

/-- What follows a certain character. -/
def after? (mark : Char) : List Char → Option (List Char)
  | c :: rest => if c == mark then some rest else none
  | [] => none

def isLeapYear (year : Nat) : Bool := year % 4 == 0 && (year % 100 != 0 || year % 400 == 0)

def daysInMonth (year month : Nat) : Nat :=
  if month = 2 then (if isLeapYear year then 29 else 28)
  else if month = 4 ∨ month = 6 ∨ month = 9 ∨ month = 11 then 30
  else 31

def dateEnd? (cs : List Char) : Option (List Char) := do
  let (year, cs) ← readField 4 0 9999 cs
  let cs ← after? '-' cs
  let (month, cs) ← readField 2 1 12 cs
  let cs ← after? '-' cs
  let (_, cs) ← readField 2 1 (daysInMonth year month) cs
  return cs

/-- What follows a time of day; a minute may have a leap second. -/
def timeEnd? (cs : List Char) : Option (List Char) := do
  let (_, cs) ← readField 2 0 23 cs
  let cs ← after? ':' cs
  let (_, cs) ← readField 2 0 59 cs
  let cs ← after? ':' cs
  let (_, cs) ← readField 2 0 60 cs
  match cs with
  | '.' :: c :: rest => if c.isDigit then some (rest.dropWhile Char.isDigit) else some cs
  | cs => some cs

/-- What follows the distance from universal time, which may be missing. -/
def offsetEnd? : List Char → Option (List Char)
  | 'Z' :: rest => some rest
  | 'z' :: rest => some rest
  | c :: rest =>
    if c == '+' || c == '-' then do
      let (_, cs) ← readField 2 0 23 rest
      let cs ← after? ':' cs
      let (_, cs) ← readField 2 0 59 cs
      return cs
    else some (c :: rest)
  | [] => some []

/-- Whether the characters at the front begin a date or a time of day rather than a number. -/
def beginsMoment (cs : List Char) : Bool :=
  ((readField 4 0 9999 cs).bind fun (_, cs) => after? '-' cs).isSome ||
    ((readField 2 0 23 cs).bind fun (_, cs) => after? ':' cs).isSome

/-- What follows a date, a time of day, or a date and a time of day. -/
def momentEnd? (cs : List Char) : Option (List Char) :=
  if ((readField 4 0 9999 cs).bind fun (_, cs) => after? '-' cs).isSome then do
    let cs ← dateEnd? cs
    match cs with
    | c :: rest =>
      if (c == 'T' || c == 't' || c == ' ') && beginsTime rest then timeEnd? rest >>= offsetEnd?
      else some cs
    | [] => some []
  else timeEnd? cs
where
  beginsTime (cs : List Char) : Bool :=
    ((readField 2 0 23 cs).bind fun (_, cs) => after? ':' cs).isSome

end PacedChain.Toml
