namespace ColumnAtlas

/-- A JSON document. A string is `none` when its escapes leave half of a surrogate pair alone,
so that it stands for no text. -/
inductive Json where
  | null
  | bool (b : Bool)
  | int (n : Int)
  /-- A number written as `-0` or with a fraction or an exponent; its value is not kept. -/
  | real
  | str (text : Option String)
  | arr (items : List Json)
  | obj (members : List (Option String × Json))

namespace Json

def text (s : String) : Json := str (some s)

/-- An object with the given members, in their order. -/
def record (members : List (String × Json)) : Json :=
  obj (members.map fun m => (some m.1, m.2))

/-- Decimal digits, after a minus sign if the number is negative. -/
def printInt (n : Int) : List Char :=
  if n < 0 then '-' :: Nat.toDigits 10 n.natAbs else Nat.toDigits 10 n.natAbs

/-- A character inside a string: quotes, backslashes and control characters are escaped. -/
def printChar (c : Char) : List Char :=
  if c = '"' then ['\\', '"']
  else if c = '\\' then ['\\', '\\']
  else if c = '\x08' then ['\\', 'b']
  else if c = '\t' then ['\\', 't']
  else if c = '\n' then ['\\', 'n']
  else if c = '\x0c' then ['\\', 'f']
  else if c = '\r' then ['\\', 'r']
  else if c.toNat < 0x20 then
    ['\\', 'u', '0', '0', Nat.digitChar (c.toNat / 16), Nat.digitChar (c.toNat % 16)]
  else [c]

def printText (s : Option String) : List Char :=
  match s with
  | some s => '"' :: s.toList.flatMap printChar ++ ['"']
  | none => "\"\\ud800\"".toList

mutual

/-- The compact text of a document. -/
def print : Json → List Char
  | null => "null".toList
  | bool true => "true".toList
  | bool false => "false".toList
  | int n => printInt n
  | real => "-0".toList
  | str s => printText s
  | arr items => '[' :: printItems items ++ [']']
  | obj members => '{' :: printMembers members ++ ['}']

def printItems : List Json → List Char
  | [] => []
  | [v] => print v
  | v :: vs => print v ++ ',' :: printItems vs

def printMembers : List (Option String × Json) → List Char
  | [] => []
  | [(k, v)] => printText k ++ ':' :: print v
  | (k, v) :: ms => printText k ++ ':' :: print v ++ ',' :: printMembers ms

end

/-- The compact text of a document, as a string. -/
def render (v : Json) : String := String.ofList v.print

end Json

end ColumnAtlas
