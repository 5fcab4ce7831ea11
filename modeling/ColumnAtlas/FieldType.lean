namespace ColumnAtlas

/-- The kinds of value that a field can hold. -/
inductive FieldType where
  | integer
  | boolean
  | string
  | binary
  | date
  | float
  | double
  /-- A link to one object. -/
  | object
  /-- An ordered list of links. -/
  | list
  /-- A reverse relationship, read from a link column of another table. -/
  | backlink
  /-- The answer to a look-up that misses; no column stores it. -/
  | unsupported
  deriving DecidableEq

namespace FieldType

/-- Every field type, in declaration order. -/
def all : List FieldType :=
  [integer, boolean, string, binary, date, float, double, object, list, backlink, unsupported]

/-- The types of a plain column, which stores values and no links. -/
def scalars : List FieldType :=
  [integer, boolean, string, binary, date, float, double]

/-- The types of a link column. -/
def links : List FieldType :=
  [object, list]

/-- A forward link, stored in the declaring table. -/
def isLink (t : FieldType) : Bool :=
  links.contains t

/-- A forward link or a backlink: a field path may continue through it. -/
def isRelationship (t : FieldType) : Bool :=
  t.isLink || t == backlink

/-- The name under which the type is declared and stored in documents. -/
def name : FieldType → String
  | integer => "Integer"
  | boolean => "Boolean"
  | string => "String"
  | binary => "Binary"
  | date => "Date"
  | float => "Float"
  | double => "Double"
  | object => "Object"
  | list => "List"
  | backlink => "Backlink"
  | unsupported => "Unsupported"

/-- The name under which the type is reported. -/
def label : FieldType → String
  | integer => "INTEGER"
  | boolean => "BOOLEAN"
  | string => "STRING"
  | binary => "BINARY"
  | date => "DATE"
  | float => "FLOAT"
  | double => "DOUBLE"
  | object => "OBJECT"
  | list => "LIST"
  | backlink => "BACKLINK"
  | unsupported => "UNSUPPORTED"

/-- The type declared under a name. -/
def ofName? (s : String) : Option FieldType :=
  all.find? fun t => t.name = s

theorem ofName?_name (t : FieldType) : ofName? t.name = some t := by
  cases t <;> decide

theorem isRelationship_of_isLink {t : FieldType} (h : t.isLink) : t.isRelationship := by
  simp [isRelationship, h]

end FieldType

end ColumnAtlas
