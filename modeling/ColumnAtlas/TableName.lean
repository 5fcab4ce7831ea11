import ColumnAtlas.ClassId

namespace ColumnAtlas

/-- What turns a class name into the name of its table, unless a setting says otherwise. -/
def defaultTablePrefix : String := "class_"

/-- The name of the table that stores a class. -/
def tableNameOf (tablePrefix className : String) : String :=
  tablePrefix ++ className

/-- The class stored in a table. A table name without the prefix is its own class name. -/
def classNameOf (tablePrefix tableName : String) : String :=
  if tablePrefix.toList.isPrefixOf tableName.toList then
    String.ofList (tableName.toList.drop tablePrefix.length)
  else tableName

theorem classNameOf_tableNameOf (tablePrefix className : String) :
    classNameOf tablePrefix (tableNameOf tablePrefix className) = className := by
  simp [classNameOf, tableNameOf, String.toList_append, ← String.length_toList]

/-- Table names by class identifier, for diagnostics only. -/
structure TableNaming where
  tableName : ClassId → String
  tablePrefix : String

/-- The class name behind an identifier. -/
def TableNaming.className (naming : TableNaming) (id : ClassId) : String :=
  classNameOf naming.tablePrefix (naming.tableName id)

end ColumnAtlas
