import ColumnAtlas.Error
import ColumnAtlas.TableName
import ColumnAtlas.Blank

namespace ColumnAtlas

/-- What registries, builders and databases are set up with. -/
structure Settings where
  tablePrefix : String
  /-- Compare declared field types with the stored column types. -/
  verifyColumnTypes : Bool
  deriving DecidableEq

namespace Settings

def default : Settings := ⟨defaultTablePrefix, true⟩

def tableName (s : Settings) (className : String) : String :=
  tableNameOf s.tablePrefix className

def className (s : Settings) (tableName : String) : String :=
  classNameOf s.tablePrefix tableName

/-- A usable prefix is not empty and does not contain the separator of field paths. -/
def validate (s : Settings) : Except Error Unit :=
  if s.tablePrefix.isEmpty then
    .error (.settings (.missingRequired "table_prefix"))
  else if s.tablePrefix.toList.contains '.' then
    .error (.settings (.invalidValue "table_prefix" s.tablePrefix "must not contain '.'"))
  else .ok ()

def validated (s : Settings) : Except Error Settings := do
  s.validate
  return s

/-- Reads a switch; blanks around it and the case of ASCII letters do not matter. -/
def readSwitch (field raw : String) : Except Error Bool :=
  let word := String.ofList ((trimBlanks raw.toList).map Char.toLower)
  if ["1", "true", "yes", "on"].contains word then .ok true
  else if ["0", "false", "no", "off"].contains word then .ok false
  else .error (.settings (.invalidValue field raw "expected a boolean"))

/-- The text of an environment variable. A value that is not valid UTF-8 counts as unset. -/
def variableText (value : Option ByteArray) : Option String :=
  value.bind String.fromUTF8?

/-- Settings from environment variables, with defaults for the unset ones. -/
def ofEnvironment (tablePrefix verifyColumnTypes : Option ByteArray) : Except Error Settings := do
  let verify ← match variableText verifyColumnTypes with
    | some raw => readSwitch "verify_column_types" raw
    | none => pure default.verifyColumnTypes
  validated ⟨(variableText tablePrefix).getD default.tablePrefix, verify⟩

end Settings

end ColumnAtlas
