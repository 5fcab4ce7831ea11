import ColumnAtlas.FieldType
import ColumnAtlas.JsonRecord

namespace ColumnAtlas

/-- The class and the field that a backlink reads from. -/
structure BacklinkSource where
  className : String
  fieldName : String
  deriving DecidableEq

/-- Where a field is stored and what it holds. -/
structure Placement where
  index : Int
  fieldType : FieldType
  /-- The class on the other side of a link or backlink. -/
  linkedClass : Option String
  source : Option BacklinkSource
  deriving DecidableEq

namespace Placement

/-- The placement of a stored column. -/
def column (index : Int) (fieldType : FieldType) (linkedClass : Option String) : Placement :=
  ⟨index, fieldType, linkedClass, none⟩

/-- The placement of a backlink, which is the one of its source column. -/
def backlink (index : Int) (sourceClass sourceField : String) : Placement :=
  ⟨index, .backlink, some sourceClass, some ⟨sourceClass, sourceField⟩⟩

def isBacklink (p : Placement) : Bool := p.source.isSome

def text (p : Placement) : String :=
  s!"ColumnDetails[{p.index}, {p.fieldType.label}, " ++ p.linkedClass.getD "null" ++ "]"

end Placement

namespace BacklinkSource

def shape : RecordShape := ⟨["class_name", "field_name"], 2⟩

def toJson (b : BacklinkSource) : Json :=
  .record [("class_name", .text b.className), ("field_name", .text b.fieldName)]

def ofJson? (v : Json) : Option BacklinkSource := do
  let [className, fieldName] ← v.asRecord? shape | none
  return ⟨← Json.required? Json.asText? className, ← Json.required? Json.asText? fieldName⟩

end BacklinkSource

namespace Placement

def shape : RecordShape := ⟨["index", "field_type", "linked_class", "backlink"], 4⟩

def toJson (p : Placement) : Json :=
  .record [("index", .int p.index), ("field_type", p.fieldType.toJson),
    ("linked_class", .ofOption .text p.linkedClass),
    ("backlink", .ofOption BacklinkSource.toJson p.source)]

def ofJson? (v : Json) : Option Placement := do
  let [index, fieldType, linkedClass, source] ← v.asRecord? shape | none
  return ⟨← Json.required? (Json.asInt? (-0x8000000000000000) 0x7FFFFFFFFFFFFFFF) index,
    ← Json.required? FieldType.ofJson? fieldType,
    ← Json.optional? Json.asText? linkedClass,
    ← Json.optional? BacklinkSource.ofJson? source⟩

end Placement

end ColumnAtlas
