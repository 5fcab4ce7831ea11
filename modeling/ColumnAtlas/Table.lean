import ColumnAtlas.Error

namespace ColumnAtlas

/-- The identity of a table, which stays the same when the table is renamed. -/
structure TableId where
  index : Nat
  deriving DecidableEq

/-- A stored column. -/
structure Column where
  name : String
  fieldType : FieldType
  /-- The table that a link column points at. -/
  target : Option TableId
  deriving DecidableEq

/-- A stored table. A column's position is its place in the list. -/
structure Table where
  name : String
  className : String
  columns : List Column
  deriving DecidableEq

namespace Table

def columnCount (t : Table) : Nat := t.columns.length

/-- The position of the column with a given name. -/
def columnIndex? (t : Table) (name : String) : Option Int :=
  (t.columns.findIdx? fun c => c.name = name).map Int.ofNat

/-- The column at a position; positions outside the table have none. -/
def columnAt? (t : Table) (position : Int) : Option Column :=
  if 0 ≤ position then t.columns[position.toNat]? else none

def columnName? (t : Table) (position : Int) : Option String :=
  (t.columnAt? position).map Column.name

def columnType (t : Table) (position : Int) : FieldType :=
  match t.columnAt? position with
  | some c => c.fieldType
  | none => .unsupported

def targetAt? (t : Table) (position : Int) : Option TableId :=
  (t.columnAt? position).bind Column.target

/-- Appends a column unless its name is taken, and returns its position. -/
def append (t : Table) (c : Column) : Except Error (Int × Table) :=
  if t.columns.any fun c' => c'.name = c.name then
    .error (.argument (.duplicateField t.className c.name))
  else .ok (t.columns.length, { t with columns := t.columns ++ [c] })

/-- Appends a column of plain values. -/
def addColumn (t : Table) (name : String) (type : FieldType) : Except Error (Int × Table) :=
  if type.isRelationship || type == .unsupported then
    .error (.argument (.unexpectedType name type FieldType.scalars))
  else t.append ⟨name, type, none⟩

/-- Appends a link column that points at a table. -/
def addLink (t : Table) (name : String) (type : FieldType) (target : TableId) :
    Except Error (Int × Table) :=
  if type.isLink then t.append ⟨name, type, some target⟩
  else .error (.argument (.unexpectedType name type FieldType.links))

/-- Removes a column; the columns after it move one place forward. -/
def removeColumn (t : Table) (name : String) : Table :=
  { t with columns := t.columns.filter fun c => c.name ≠ name }

/-- Removes a column and says whether there was one, which shows in the number of columns. -/
def dropColumn (t : Table) (name : String) : Bool × Table :=
  let left := t.removeColumn name
  (left.columnCount != t.columnCount, left)

def hasColumn (t : Table) (name : String) : Bool :=
  t.columns.any fun c => c.name = name

end Table

end ColumnAtlas
