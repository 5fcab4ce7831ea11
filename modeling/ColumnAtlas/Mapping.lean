import ColumnAtlas.Placement
import ColumnAtlas.SortedMap

namespace ColumnAtlas

/-- Where the fields of a class are stored. -/
structure Mapping where
  className : String
  fields : SortedMap String Placement
  deriving DecidableEq

namespace Mapping

def empty (className : String) : Mapping := ⟨className, .empty⟩

def get? (m : Mapping) (field : String) : Option Placement := m.fields.get? field

def size (m : Mapping) : Nat := m.fields.size

def columnIndex? (m : Mapping) (field : String) : Option Int :=
  (m.get? field).map Placement.index

/-- The type of a field; an unknown field has the unsupported type. -/
def columnType (m : Mapping) (field : String) : FieldType :=
  match m.get? field with
  | some p => p.fieldType
  | none => .unsupported

def linkedClass? (m : Mapping) (field : String) : Option String :=
  (m.get? field).bind Placement.linkedClass

/-- The fields by name, after the flag and the class. -/
def text (changeable : Bool) (m : Mapping) : String :=
  s!"ColumnInfo[{changeable},{m.className}" ++
    String.join (m.fields.entries.map fun e => s!",{e.1}->{e.2.text}") ++ "]"

end Mapping

end ColumnAtlas
