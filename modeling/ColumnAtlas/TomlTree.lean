namespace ColumnAtlas.Toml

/-- A value. Only texts and truth values are kept; the others are known by their kind. -/
inductive Value where
  | text (s : String)
  | flag (b : Bool)
  | number
  | moment
  | array
  | inlineTable

/-- How a table came to be. -/
inductive Origin where
  /-- Named by a header of its own. -/
  | header
  /-- Named on the way to the table of a header. -/
  | implied
  /-- Named on the way to the last part of a dotted key. -/
  | dotted
  deriving DecidableEq

/-- What a key of a table stands for. -/
inductive Node where
  | value (v : Value)
  | table (origin : Origin) (entries : List (String × Node))
  /-- An array of tables with its last table, the only one that later lines can reach. -/
  | tables (last : List (String × Node))

abbrev Entries := List (String × Node)

namespace Entries

def get? (es : Entries) (k : String) : Option Node :=
  (es.find? fun e => e.1 = k).map Prod.snd

/-- Puts a node in the place of the one with the same key, or at the end. -/
def put (es : Entries) (k : String) (n : Node) : Entries :=
  if (es.get? k).isSome then es.map fun e => if e.1 = k then (k, n) else e else es ++ [(k, n)]

/-- Adds a value under a dotted key. Tables on the way are made if they are missing. A table with a
header of its own is closed to dotted keys, and the last table on the way must be made by them. -/
def addValue (es : Entries) (v : Value) (last : String) : List String → Option Entries
  | [] => if (es.get? last).isSome then none else some (es.put last (.value v))
  | k :: ks =>
    match es.get? k with
    | none => (addValue [] v last ks).map fun sub => es.put k (.table .dotted sub)
    | some (.table origin sub) =>
      if origin = .header ∨ (ks = [] ∧ origin ≠ .dotted) then none
      else (addValue sub v last ks).map fun sub => es.put k (.table origin sub)
    | some (.tables sub) =>
      if ks = [] then none else (addValue sub v last ks).map fun sub => es.put k (.tables sub)
    | some (.value _) => none

/-- Opens a table, or a new table of an array, with what its parent lets `start` do. Tables on the
way are made if they are missing. -/
def openAt (es : Entries) (start : Option Node → Option Node) (last : String) :
    List String → Option Entries
  | [] => (start (es.get? last)).map fun n => es.put last n
  | k :: ks =>
    match es.get? k with
    | none => (openAt [] start last ks).map fun sub => es.put k (.table .implied sub)
    | some (.table origin sub) =>
      (openAt sub start last ks).map fun sub => es.put k (.table origin sub)
    | some (.tables sub) => (openAt sub start last ks).map fun sub => es.put k (.tables sub)
    | some (.value _) => none

/-- A header names a new table, or one that was only implied so far. -/
def startTable : Option Node → Option Node
  | none => some (.table .header [])
  | some (.table .implied sub) => some (.table .header sub)
  | some _ => none

/-- A header in double brackets starts an array of tables or appends to one. -/
def startTables : Option Node → Option Node
  | none => some (.tables [])
  | some (.tables _) => some (.tables [])
  | some _ => none

/-- Changes the table that the last header opened. -/
def within (es : Entries) (change : Entries → Option Entries) : List String → Option Entries
  | [] => change es
  | k :: ks =>
    match es.get? k with
    | some (.table origin sub) => (within sub change ks).map fun sub => es.put k (.table origin sub)
    | some (.tables sub) => (within sub change ks).map fun sub => es.put k (.tables sub)
    | _ => none

end Entries

end ColumnAtlas.Toml
