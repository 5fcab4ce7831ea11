import ColumnAtlas.TomlScalar
import ColumnAtlas.TomlTree

namespace ColumnAtlas.Toml

/-- Keys have fewer parts than this, and arrays and inline tables fewer levels. -/
def depthLimit : Nat := 80

def skipBlanks (cs : List Char) : List Char := cs.dropWhile isBlank

/-- Skips blanks, line breaks and comments. The flag is set inside a comment. -/
def skipLayout : Bool → List Char → List Char
  | _, [] => []
  | _, '\n' :: cs => skipLayout false cs
  | _, '\r' :: '\n' :: cs => skipLayout false cs
  | comment, c :: cs =>
    if comment then if isPrintable c then skipLayout true cs else c :: cs
    else if isBlank c then skipLayout false cs
    else if c = '#' then skipLayout true cs
    else c :: cs

/-- Skips the blanks and the comment at the end of a line, and the line break unless the text ends
here. -/
def endLine (cs : List Char) : Option (List Char) :=
  let cs := skipBlanks cs
  let cs := if cs.head? = some '#' then cs.dropWhile isPrintable else cs
  match cs with
  | [] => some []
  | '\n' :: cs => some cs
  | '\r' :: '\n' :: cs => some cs
  | _ => none

def isBareKeyChar (c : Char) : Bool :=
  Json.isDigit c || ('a' ≤ c && c ≤ 'z') || ('A' ≤ c && c ≤ 'Z') || c = '_' || c = '-'

/-- Reads one part of a key: a bare word or a string on one line. -/
def readKeyPart : List Char → Option (String × List Char)
  | '"' :: cs => (readBasic cs).map fun r => (String.ofList r.1, r.2)
  | '\'' :: cs => (readLiteral cs).map fun r => (String.ofList r.1, r.2)
  | cs =>
    let word := cs.takeWhile isBareKeyChar
    if word.isEmpty then none else some (String.ofList word, cs.dropWhile isBareKeyChar)

/-- Reads the parts of a dotted key and the blanks around them. -/
def readKeyParts : Nat → List Char → Option (List String × List Char)
  | 0, _ => none
  | fuel + 1, cs => do
    let (part, cs) ← readKeyPart (skipBlanks cs)
    match skipBlanks cs with
    | '.' :: cs => (readKeyParts fuel cs).map fun r => (part :: r.1, r.2)
    | cs => some ([part], cs)

/-- Reads a dotted key: the parts before the last one, and the last one. -/
def readKey (cs : List Char) : Option ((List String × String) × List Char) := do
  let (parts, rest) ← readKeyParts cs.length cs
  if depthLimit ≤ parts.length then none
  let last ← parts.getLast?
  return ((parts.dropLast, last), rest)

/-- Reads a truth value, a number, a date or a time. A blank may stand between date and time. -/
def readScalar (cs : List Char) : Option (Value × List Char) :=
  let word := cs.takeWhile isScalarChar
  let rest := cs.dropWhile isScalarChar
  if word = "true".toList then some (.flag true, rest)
  else if word = "false".toList then some (.flag false, rest)
  else if isInteger word || isFloat word then some (.number, rest)
  else if isTime word || isDateTime word then some (.moment, rest)
  else if isDate word then
    match rest with
    | ' ' :: after =>
      let time := after.takeWhile isScalarChar
      if time.isEmpty then some (.moment, rest)
      else if isOffsetTime time then some (.moment, after.dropWhile isScalarChar)
      else none
    | _ => some (.moment, rest)
  else none

mutual

/-- Reads a value inside `depth` arrays and inline tables. The first argument bounds the depth of
the calls. -/
def readValue : Nat → Nat → List Char → Option (Value × List Char)
  | 0, _, _ => none
  | fuel + 1, depth, cs =>
    match cs with
    | '[' :: cs =>
      if depthLimit ≤ depth + 1 then none
      else (readItems fuel (depth + 1) cs).map fun rest => (.array, rest)
    | '{' :: cs =>
      if depthLimit ≤ depth + 1 then none
      else
        match skipBlanks cs with
        | '}' :: rest => some (.inlineTable, rest)
        | cs => (readMembers fuel (depth + 1) [] cs).map fun rest => (.inlineTable, rest)
    | '"' :: _ => (readText cs).map fun r => (.text (String.ofList r.1), r.2)
    | '\'' :: _ => (readText cs).map fun r => (.text (String.ofList r.1), r.2)
    | cs => readScalar cs

/-- Reads the items of an array and its closing bracket. -/
def readItems : Nat → Nat → List Char → Option (List Char)
  | 0, _, _ => none
  | fuel + 1, depth, cs =>
    match skipLayout false cs with
    | ']' :: rest => some rest
    | cs => do
      let (_, cs) ← readValue fuel depth cs
      match skipLayout false cs with
      | ',' :: cs => readItems fuel depth cs
      | ']' :: rest => some rest
      | _ => none

/-- Reads the members of an inline table that follow the ones in `es`, and its closing brace. -/
def readMembers : Nat → Nat → Entries → List Char → Option (List Char)
  | 0, _, _, _ => none
  | fuel + 1, depth, es, cs => do
    let ((path, last), cs) ← readKey cs
    match cs with
    | '=' :: cs => do
      let (v, cs) ← readValue fuel depth (skipBlanks cs)
      let es ← es.addValue v last path
      match skipBlanks cs with
      | ',' :: cs => readMembers fuel depth es cs
      | '}' :: rest => some rest
      | _ => none
    | _ => none

end

/-- The tables read so far, and the path to the one that the last header opened. -/
structure Progress where
  root : Entries
  path : List String

/-- Reads a header after its opening bracket or brackets. -/
def readHeader (p : Progress) (start : Option Node → Option Node) (closing cs : List Char) :
    Option (Progress × List Char) := do
  let ((path, last), cs) ← readKey cs
  if !closing.isPrefixOf cs then none
  let rest ← endLine (cs.drop closing.length)
  let root ← p.root.openAt start last path
  return (⟨root, path ++ [last]⟩, rest)

/-- Reads a key, its value and the end of their line. -/
def readAssignment (p : Progress) (cs : List Char) : Option (Progress × List Char) := do
  let ((path, last), cs) ← readKey cs
  match cs with
  | '=' :: cs => do
    let cs := skipBlanks cs
    let (v, cs) ← readValue (2 * cs.length + 1) 0 cs
    let rest ← endLine cs
    let root ← p.root.within (fun es => es.addValue v last path) p.path
    return (⟨root, p.path⟩, rest)
  | _ => none

/-- Reads the lines of a document. The first argument bounds their number. -/
def readLines : Nat → Progress → List Char → Option Entries
  | 0, _, _ => none
  | fuel + 1, p, cs =>
    match skipBlanks cs with
    | [] => some p.root
    | '[' :: '[' :: cs => do
      let (p, cs) ← readHeader p Entries.startTables [']', ']'] cs
      readLines fuel p cs
    | '[' :: cs => do
      let (p, cs) ← readHeader p Entries.startTable [']'] cs
      readLines fuel p cs
    | c :: cs =>
      if ['#', '\n', '\r'].contains c then do
        let cs ← endLine (c :: cs)
        readLines fuel p cs
      else do
        let (p, cs) ← readAssignment p (c :: cs)
        readLines fuel p cs

/-- The entries of a document outside its tables, and the tables. A byte order mark in front is
skipped. -/
def read? (s : String) : Option Entries :=
  let cs := if s.toList.head? = some '\uFEFF' then s.toList.tail else s.toList
  readLines (cs.length + 1) ⟨[], []⟩ cs

end ColumnAtlas.Toml
