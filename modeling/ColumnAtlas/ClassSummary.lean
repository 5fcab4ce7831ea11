import ColumnAtlas.JsonRecord

namespace ColumnAtlas

/-- A field as it is stored now. -/
structure FieldSummary where
  name : String
  fieldType : FieldType
  linkedClass : Option String
  deriving DecidableEq

/-- A class as it is stored now. -/
structure ClassSummary where
  className : String
  fields : List FieldSummary
  deriving DecidableEq

namespace FieldSummary

def text (f : FieldSummary) : String :=
  f.name ++ ": " ++ f.fieldType.label ++
    match f.linkedClass with
    | some c => "<" ++ c ++ ">"
    | none => ""

def shape : RecordShape := ⟨["name", "field_type", "linked_class"], 2⟩

/-- The linked class is left out if there is none. -/
def toJson (f : FieldSummary) : Json :=
  .record ([("name", .text f.name), ("field_type", f.fieldType.toJson)] ++
    (f.linkedClass.map fun c => ("linked_class", .text c)).toList)

def ofJson? (v : Json) : Option FieldSummary := do
  let [name, fieldType, linkedClass] ← v.asRecord? shape | none
  return ⟨← Json.required? Json.asText? name, ← Json.required? FieldType.ofJson? fieldType,
    ← Json.optional? Json.asText? linkedClass⟩

end FieldSummary

namespace ClassSummary

/-- The first field with a name. -/
def field? (c : ClassSummary) (name : String) : Option FieldSummary :=
  c.fields.find? fun f => f.name = name

def hasField (c : ClassSummary) (name : String) : Bool := (c.field? name).isSome

def text (c : ClassSummary) : String :=
  c.className ++ "\x7b" ++ ", ".intercalate (c.fields.map FieldSummary.text) ++ "\x7d"

def shape : RecordShape := ⟨["class_name", "fields"], 2⟩

def toJson (c : ClassSummary) : Json :=
  .record [("class_name", .text c.className), ("fields", .arr (c.fields.map FieldSummary.toJson))]

def ofJson? (v : Json) : Option ClassSummary := do
  let [className, fields] ← v.asRecord? shape | none
  return ⟨← Json.required? Json.asText? className,
    ← Json.required? (Json.asList? FieldSummary.ofJson?) fields⟩

end ClassSummary

end ColumnAtlas
