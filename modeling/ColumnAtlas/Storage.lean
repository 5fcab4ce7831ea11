import ColumnAtlas.SortedMap
import ColumnAtlas.Table
import ColumnAtlas.TableName

namespace ColumnAtlas

/-- The identity of a database. -/
structure DatabaseId where
  index : Nat
  deriving DecidableEq

/-- A database: the tables under their names. -/
structure Database where
  path : String
  tablePrefix : String
  tables : SortedMap String TableId

/-- Every table and database made so far, in the order of their identities. A table stays alive
while it is in a database or held from outside. -/
structure Storage where
  tables : List Table
  databases : List Database
  held : List TableId

namespace Database

/-- The name of the table of a class in this database. -/
def tableName (db : Database) (className : String) : String :=
  tableNameOf db.tablePrefix className

/-- A database without tables. -/
def unopened : Database := ⟨"", "", .empty⟩

end Database

namespace Storage

def empty : Storage := ⟨[], [], []⟩

/-- The contents of a table; an identity that no table has reads as a table without columns. -/
def table (s : Storage) (t : TableId) : Table :=
  (s.tables[t.index]?).getD ⟨"", "", []⟩

def setTable (s : Storage) (t : TableId) (contents : Table) : Storage :=
  { s with tables := s.tables.set t.index contents }

def database (s : Storage) (d : DatabaseId) : Database :=
  (s.databases[d.index]?).getD .unopened

def setDatabase (s : Storage) (d : DatabaseId) (contents : Database) : Storage :=
  { s with databases := s.databases.set d.index contents }

/-- Replaces the tables of a database. -/
def setTables (s : Storage) (d : DatabaseId) (tables : SortedMap String TableId) : Storage :=
  s.setDatabase d { s.database d with tables := tables }

def openDatabase (s : Storage) (path tablePrefix : String) : DatabaseId × Storage :=
  (⟨s.databases.length⟩, { s with databases := s.databases ++ [⟨path, tablePrefix, .empty⟩] })

/-- Closes a database, which lets go of its tables. -/
def closeDatabase (s : Storage) (d : DatabaseId) : Storage :=
  s.setTables d .empty

/-- Says which tables are held from outside. -/
def hold (s : Storage) (tables : List TableId) : Storage :=
  { s with held := tables }

def isAlive (s : Storage) (t : TableId) : Bool :=
  s.held.contains t || s.databases.any fun db => db.tables.values.contains t

/-- The table that the link column at a position points at, if it is still alive. -/
def linkTarget? (s : Storage) (t : TableId) (position : Int) : Option TableId :=
  ((s.table t).targetAt? position).filter s.isAlive

/-- The table with a name. -/
def tableNamed? (s : Storage) (d : DatabaseId) (name : String) : Option TableId :=
  (s.database d).tables.get? name

/-- The table of a class. -/
def classTable? (s : Storage) (d : DatabaseId) (className : String) : Option TableId :=
  s.tableNamed? d ((s.database d).tableName className)

/-- The link columns of a table that point at another one. -/
def linksTo (s : Storage) (t target : TableId) : List String :=
  ((s.table t).columns.filter fun c => c.target.filter s.isAlive = some target).map Column.name

/-- Name, type and linked class of every column, in the order of their positions. -/
def columnsOf (s : Storage) (t : TableId) : List (String × FieldType × Option String) :=
  (s.table t).columns.map fun c =>
    (c.name, c.fieldType, (c.target.filter s.isAlive).map fun u => (s.table u).className)

/-- The classes in the order of their tables' names. -/
def classNames (s : Storage) (d : DatabaseId) : List String :=
  (s.database d).tables.values.map fun t => (s.table t).className

/-- The link fields of other classes that point at the table of a class. -/
def referencing (s : Storage) (d : DatabaseId) (className : String) : List (String × String) :=
  match s.classTable? d className with
  | none => []
  | some target =>
    ((s.database d).tables.values.filter (· ≠ target)).flatMap fun t =>
      (s.linksTo t target).map fun field => ((s.table t).className, field)

def addColumn (s : Storage) (t : TableId) (name : String) (type : FieldType) :
    Except Error (Int × Storage) := do
  let (position, contents) ← (s.table t).addColumn name type
  return (position, s.setTable t contents)

def addLink (s : Storage) (t : TableId) (name : String) (type : FieldType) (target : TableId) :
    Except Error (Int × Storage) := do
  let (position, contents) ← (s.table t).addLink name type target
  return (position, s.setTable t contents)

def removeColumn (s : Storage) (t : TableId) (name : String) : Storage :=
  s.setTable t ((s.table t).removeColumn name)

/-- Removes a column of a table and says whether there was one. -/
def dropColumn (s : Storage) (t : TableId) (name : String) : Bool × Storage :=
  let (existed, contents) := (s.table t).dropColumn name
  (existed, s.setTable t contents)

/-- Makes the table of a class. -/
def createTable (s : Storage) (d : DatabaseId) (className : String) :
    Except Error (TableId × Storage) :=
  let name := (s.database d).tableName className
  if className.isEmpty then .error (.argument .emptyClassName)
  else if (s.database d).tables.contains name then
    .error (.state (.classAlreadyExists className))
  else
    let t : TableId := ⟨s.tables.length⟩
    let made : Storage := { s with tables := s.tables ++ [⟨name, className, []⟩] }
    .ok (t, made.setTables d ((s.database d).tables.insert name t))

/-- Removes the table of a class, unless another class links to it. -/
def removeTable (s : Storage) (d : DatabaseId) (className : String) : Except Error Storage :=
  let name := (s.database d).tableName className
  if (s.classTable? d className).isNone then .error (.state (.classNotFound className))
  else
    match s.referencing d className with
    | (owner, field) :: _ =>
      .error (.state (.classStillReferenced className (owner ++ "." ++ field)))
    | [] => .ok (s.setTables d ((s.database d).tables.erase name))

/-- Renames a class and its table. Links keep pointing at the same table. -/
def renameTable (s : Storage) (d : DatabaseId) (old new : String) :
    Except Error (TableId × Storage) :=
  let db := s.database d
  if new.isEmpty then .error (.argument .emptyClassName)
  else if db.tables.contains (db.tableName new) then .error (.state (.classAlreadyExists new))
  else
    match db.tables.get? (db.tableName old) with
    | none => .error (.state (.classNotFound old))
    | some t =>
      let renamed :=
        s.setTable t { s.table t with name := db.tableName new, className := new }
      let tables := (db.tables.erase (db.tableName old)).insert (db.tableName new) t
      .ok (t, renamed.setTables d tables)

end Storage

end ColumnAtlas
