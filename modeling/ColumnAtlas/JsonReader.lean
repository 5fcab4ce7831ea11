import ColumnAtlas.Json

namespace ColumnAtlas.Json

/-- Blanks between the tokens of a document. -/
def isGap (c : Char) : Bool :=
  c = ' ' || c = '\t' || c = '\n' || c = '\r'

def skipGap (cs : List Char) : List Char := cs.dropWhile isGap

/-- A character of a string, or half of a surrogate pair from a numeric escape. -/
inductive TextUnit where
  | char (c : Char)
  | half (code : Nat)

def hexValue? (c : Char) : Option Nat :=
  if '0' ≤ c ∧ c ≤ '9' then some (c.toNat - '0'.toNat)
  else if 'a' ≤ c ∧ c ≤ 'f' then some (c.toNat - 'a'.toNat + 10)
  else if 'A' ≤ c ∧ c ≤ 'F' then some (c.toNat - 'A'.toNat + 10)
  else none

/-- The number written by hexadecimal digits. -/
def hexNumber? (cs : List Char) : Option Nat :=
  cs.foldlM (fun n c => (hexValue? c).map (n * 16 + ·)) 0

def TextUnit.ofCode (code : Nat) : TextUnit :=
  if 0xD800 ≤ code ∧ code < 0xE000 then half code else char (Char.ofNat code)

/-- The character that a backslash and a letter stand for. -/
def escaped? (c : Char) : Option Char :=
  match c with
  | '"' => some '"'
  | '\\' => some '\\'
  | '/' => some '/'
  | 'b' => some '\x08'
  | 'f' => some '\x0c'
  | 'n' => some '\n'
  | 'r' => some '\r'
  | 't' => some '\t'
  | _ => none

/-- Reads the inside of a string up to and with its closing quote. -/
def readUnits : List Char → Option (List TextUnit × List Char)
  | [] => none
  | '"' :: cs => some ([], cs)
  | '\\' :: 'u' :: a :: b :: c :: d :: cs => do
    let code ← hexNumber? [a, b, c, d]
    let (units, rest) ← readUnits cs
    return (.ofCode code :: units, rest)
  | '\\' :: e :: cs => do
    let c ← escaped? e
    let (units, rest) ← readUnits cs
    return (.char c :: units, rest)
  | c :: cs => do
    if c.toNat < 0x20 ∨ c = '\\' then none
    let (units, rest) ← readUnits cs
    return (.char c :: units, rest)

/-- Joins the halves of surrogate pairs; fails if one of them stands alone. -/
def joinUnits : List TextUnit → Option (List Char)
  | [] => some []
  | .char c :: us => (joinUnits us).map (c :: ·)
  | .half high :: .half low :: us =>
    if high < 0xDC00 ∧ 0xDC00 ≤ low then
      (joinUnits us).map (Char.ofNat (0x10000 + (high - 0xD800) * 0x400 + (low - 0xDC00)) :: ·)
    else none
  | .half _ :: _ => none

/-- Reads a string after its opening quote. -/
def readText (cs : List Char) : Option (Option String × List Char) := do
  let (units, rest) ← readUnits cs
  return ((joinUnits units).map String.ofList, rest)

def isDigit (c : Char) : Bool := '0' ≤ c && c ≤ '9'

/-- The number written by decimal digits. -/
def decimal (cs : List Char) : Nat :=
  cs.foldl (fun n c => n * 10 + (c.toNat - '0'.toNat)) 0

/-- Reads one or more digits. -/
def readDigits (cs : List Char) : Option (List Char × List Char) :=
  if (cs.takeWhile isDigit).isEmpty then none
  else some (cs.takeWhile isDigit, cs.dropWhile isDigit)

/-- Reads a whole number without a superfluous leading zero. -/
def readWhole (cs : List Char) : Option (List Char × List Char) := do
  let (digits, rest) ← readDigits cs
  if digits.head? = some '0' ∧ 1 < digits.length then none
  return (digits, rest)

/-- Skips a fraction, if there is one, and tells whether there was. -/
def readFraction : List Char → Option (Bool × List Char)
  | '.' :: cs => (readDigits cs).map fun r => (true, r.2)
  | cs => some (false, cs)

def readExponent : List Char → Option (Bool × List Char)
  | c :: cs =>
    if c = 'e' ∨ c = 'E' then
      match cs with
      | '+' :: cs => (readDigits cs).map fun r => (true, r.2)
      | '-' :: cs => (readDigits cs).map fun r => (true, r.2)
      | cs => (readDigits cs).map fun r => (true, r.2)
    else some (false, c :: cs)
  | [] => some (false, [])

/-- Reads a number after its sign. -/
def readUnsigned (negative : Bool) (cs : List Char) : Option (Json × List Char) := do
  let (digits, cs) ← readWhole cs
  let (fraction, cs) ← readFraction cs
  let (exponent, cs) ← readExponent cs
  let n := decimal digits
  if fraction || exponent || (negative && n = 0) then
    return (real, cs)
  return (int (if negative then -(n : Int) else n), cs)

def readNumber : List Char → Option (Json × List Char)
  | '-' :: cs => readUnsigned true cs
  | cs => readUnsigned false cs

mutual

/-- Reads a value from the front of a text. The first argument bounds the depth of the calls. -/
def readValue : Nat → List Char → Option (Json × List Char)
  | 0, _ => none
  | fuel + 1, cs =>
    match skipGap cs with
    | 'n' :: 'u' :: 'l' :: 'l' :: cs => some (null, cs)
    | 't' :: 'r' :: 'u' :: 'e' :: cs => some (bool true, cs)
    | 'f' :: 'a' :: 'l' :: 's' :: 'e' :: cs => some (bool false, cs)
    | '"' :: cs => (readText cs).map fun r => (str r.1, r.2)
    | '[' :: cs =>
      match skipGap cs with
      | ']' :: cs => some (arr [], cs)
      | cs => (readItems fuel cs).map fun r => (arr r.1, r.2)
    | '{' :: cs =>
      match skipGap cs with
      | '}' :: cs => some (obj [], cs)
      | cs => (readMembers fuel cs).map fun r => (obj r.1, r.2)
    | cs => readNumber cs

/-- Reads one or more items and the closing bracket. -/
def readItems : Nat → List Char → Option (List Json × List Char)
  | 0, _ => none
  | fuel + 1, cs => do
    let (v, cs) ← readValue fuel cs
    match skipGap cs with
    | ',' :: cs => (readItems fuel cs).map fun r => (v :: r.1, r.2)
    | ']' :: cs => some ([v], cs)
    | _ => none

/-- Reads one or more members and the closing brace. -/
def readMembers : Nat → List Char → Option (List (Option String × Json) × List Char)
  | 0, _ => none
  | fuel + 1, cs =>
    match skipGap cs with
    | '"' :: cs => do
      let (k, cs) ← readText cs
      match skipGap cs with
      | ':' :: cs => do
        let (v, cs) ← readValue fuel cs
        match skipGap cs with
        | ',' :: cs => (readMembers fuel cs).map fun r => ((k, v) :: r.1, r.2)
        | '}' :: cs => some ([(k, v)], cs)
        | _ => none
      | _ => none
    | _ => none

end

/-- The document that a text is, if it is one and nothing but blanks surrounds it. -/
def read? (s : String) : Option Json := do
  let (v, rest) ← readValue (2 * s.length + 1) s.toList
  if (skipGap rest).isEmpty then some v else none

end ColumnAtlas.Json
