import ColumnAtlas.JsonReader

namespace ColumnAtlas.Toml

/-- Blanks inside a line. -/
def isBlank (c : Char) : Bool := c = ' ' || c = '\t'

/-- Comments and strings hold tabs and printable characters, of ASCII and beyond it. -/
def isPrintable (c : Char) : Bool :=
  c = '\t' || (0x20 ≤ c.toNat && c.toNat ≠ 0x7F)

/-- The character with a given number, unless it is half of a surrogate pair or too large. -/
def scalar? (code : Nat) : Option Char :=
  if code < 0xD800 ∨ (0xE000 ≤ code ∧ code < 0x110000) then some (Char.ofNat code) else none

/-- The character that a backslash and a letter stand for. -/
def escaped? (c : Char) : Option Char :=
  match c with
  | 'b' => some '\x08'
  | 't' => some '\t'
  | 'n' => some '\n'
  | 'f' => some '\x0c'
  | 'r' => some '\r'
  | '"' => some '"'
  | '\\' => some '\\'
  | _ => none

/-- A line break stands at the front, after blanks at most. -/
def endsLine (cs : List Char) : Bool :=
  match cs.dropWhile isBlank with
  | '\n' :: _ => true
  | '\r' :: '\n' :: _ => true
  | _ => false

/-- Reads a basic string on one line, after its opening quote. -/
def readBasic : List Char → Option (List Char × List Char)
  | [] => none
  | '"' :: cs => some ([], cs)
  | '\\' :: 'u' :: a :: b :: c :: d :: cs => do
    let x ← (Json.hexNumber? [a, b, c, d]).bind scalar?
    let (text, rest) ← readBasic cs
    return (x :: text, rest)
  | '\\' :: 'U' :: a :: b :: c :: d :: e :: f :: g :: h :: cs => do
    let x ← (Json.hexNumber? [a, b, c, d, e, f, g, h]).bind scalar?
    let (text, rest) ← readBasic cs
    return (x :: text, rest)
  | '\\' :: e :: cs => do
    let x ← escaped? e
    let (text, rest) ← readBasic cs
    return (x :: text, rest)
  | c :: cs => do
    if c = '\\' ∨ !isPrintable c then none
    let (text, rest) ← readBasic cs
    return (c :: text, rest)

/-- Reads a basic string over several lines, after its opening quotes. The flag is set after a
backslash at the end of a line: blanks and line breaks are then skipped. -/
def readBasicBlock : Bool → List Char → Option (List Char × List Char)
  | _, [] => none
  | _, '"' :: '"' :: '"' :: '"' :: '"' :: cs => some (['"', '"'], cs)
  | _, '"' :: '"' :: '"' :: '"' :: cs => some (['"'], cs)
  | _, '"' :: '"' :: '"' :: cs => some ([], cs)
  | skipping, '\r' :: '\n' :: cs => do
    let (text, rest) ← readBasicBlock skipping cs
    return (if skipping then text else '\n' :: text, rest)
  | skipping, '\n' :: cs => do
    let (text, rest) ← readBasicBlock skipping cs
    return (if skipping then text else '\n' :: text, rest)
  | _, '\\' :: 'u' :: a :: b :: c :: d :: cs => do
    let x ← (Json.hexNumber? [a, b, c, d]).bind scalar?
    let (text, rest) ← readBasicBlock false cs
    return (x :: text, rest)
  | _, '\\' :: 'U' :: a :: b :: c :: d :: e :: f :: g :: h :: cs => do
    let x ← (Json.hexNumber? [a, b, c, d, e, f, g, h]).bind scalar?
    let (text, rest) ← readBasicBlock false cs
    return (x :: text, rest)
  | _, '\\' :: e :: cs =>
    if endsLine (e :: cs) then readBasicBlock true (e :: cs)
    else do
      let x ← escaped? e
      let (text, rest) ← readBasicBlock false cs
      return (x :: text, rest)
  | skipping, c :: cs =>
    if skipping ∧ isBlank c then readBasicBlock true cs
    else do
      if c = '\\' ∨ !isPrintable c then none
      let (text, rest) ← readBasicBlock false cs
      return (c :: text, rest)

/-- Reads a literal string on one line, after its opening apostrophe. -/
def readLiteral : List Char → Option (List Char × List Char)
  | [] => none
  | '\'' :: cs => some ([], cs)
  | c :: cs => do
    if !isPrintable c then none
    let (text, rest) ← readLiteral cs
    return (c :: text, rest)

/-- Reads a literal string over several lines, after its opening apostrophes. -/
def readLiteralBlock : List Char → Option (List Char × List Char)
  | [] => none
  | '\'' :: '\'' :: '\'' :: '\'' :: '\'' :: cs => some (['\'', '\''], cs)
  | '\'' :: '\'' :: '\'' :: '\'' :: cs => some (['\''], cs)
  | '\'' :: '\'' :: '\'' :: cs => some ([], cs)
  | '\r' :: '\n' :: cs => do
    let (text, rest) ← readLiteralBlock cs
    return ('\n' :: text, rest)
  | c :: cs => do
    if c ≠ '\n' ∧ !isPrintable c then none
    let (text, rest) ← readLiteralBlock cs
    return (c :: text, rest)

/-- The first line break of a string over several lines does not belong to it. -/
def skipBreak : List Char → List Char
  | '\n' :: cs => cs
  | '\r' :: '\n' :: cs => cs
  | cs => cs

/-- Reads a string of one of the four kinds. -/
def readText : List Char → Option (List Char × List Char)
  | '"' :: '"' :: '"' :: cs => readBasicBlock false (skipBreak cs)
  | '"' :: cs => readBasic cs
  | '\'' :: '\'' :: '\'' :: cs => readLiteralBlock (skipBreak cs)
  | '\'' :: cs => readLiteral cs
  | _ => none

end ColumnAtlas.Toml
