import ColumnAtlas.JsonRecord
import ColumnAtlas.MappingBuilder

namespace ColumnAtlas

/-- Where a declared backlink reads from. -/
structure BacklinkDecl where
  sourceClass : String
  sourceField : String
  deriving DecidableEq

/-- A declared field. It is a backlink exactly when it says what it reads from. -/
structure FieldDecl where
  name : String
  fieldType : FieldType
  /-- The target of a link; it is only needed to make the column. -/
  linkedClass : Option String
  backlink : Option BacklinkDecl
  deriving DecidableEq

/-- A declared class and its fields. -/
structure ClassDecl where
  className : String
  fields : List FieldDecl
  deriving DecidableEq

namespace FieldDecl

def column (name : String) (fieldType : FieldType) : FieldDecl := ⟨name, fieldType, none, none⟩

def link (name : String) (fieldType : FieldType) (target : String) : FieldDecl :=
  ⟨name, fieldType, some target, none⟩

def reverse (name sourceClass sourceField : String) : FieldDecl :=
  ⟨name, .backlink, none, some ⟨sourceClass, sourceField⟩⟩

/-- The field reads from a class. -/
def readsFrom (f : FieldDecl) (className : String) : Bool :=
  f.backlink.any fun b => b.sourceClass = className

/-- Puts a new class name in the place of an old one in what a field refers to. -/
def renameClass (f : FieldDecl) (old new : String) : FieldDecl :=
  { f with
    linkedClass := f.linkedClass.map fun c => if c = old then new else c
    backlink := f.backlink.map fun b =>
      { b with sourceClass := if b.sourceClass = old then new else b.sourceClass } }

end FieldDecl

namespace ClassDecl

/-- A class without fields. -/
def named (className : String) : ClassDecl := ⟨className, []⟩

def add (c : ClassDecl) (f : FieldDecl) : ClassDecl := { c with fields := c.fields ++ [f] }

/-- The stored columns of a class, which are all fields but the backlinks. -/
def columns (c : ClassDecl) : List FieldDecl := c.fields.filter fun f => f.backlink.isNone

/-- Puts a new class name in the place of an old one in what the fields refer to. -/
def renameClass (c : ClassDecl) (old new : String) : ClassDecl :=
  { c with fields := c.fields.map fun f => f.renameClass old new }

end ClassDecl

namespace MappingBuilder

/-- Adds a declared field. -/
def addField (b : MappingBuilder) (s : Storage) (f : FieldDecl) :
    Except Error (Int × MappingBuilder) :=
  match f.backlink with
  | some source => b.addBacklink s f.name source.sourceClass source.sourceField
  | none => b.addColumn s f.name f.fieldType

/-- Adds declared fields in order, up to the first that fails. -/
def addFields (b : MappingBuilder) (s : Storage) : List FieldDecl → Except Error MappingBuilder
  | [] => .ok b
  | f :: fs => do
    let (_, b) ← b.addField s f
    b.addFields s fs

end MappingBuilder

/-- The mapping of a declared class, checked against the stored tables. -/
def ClassDecl.buildMapping (c : ClassDecl) (s : Storage) (d : DatabaseId) (settings : Settings) :
    Except Error Mapping := do
  let b ← MappingBuilder.start s d settings c.className
  let b ← b.addFields s c.fields
  return b.mapping

namespace BacklinkDecl

def shape : RecordShape := ⟨["source_class", "source_field"], 2⟩

def toJson (b : BacklinkDecl) : Json :=
  .record [("source_class", .text b.sourceClass), ("source_field", .text b.sourceField)]

def ofJson? (v : Json) : Option BacklinkDecl := do
  let [sourceClass, sourceField] ← v.asRecord? shape | none
  return ⟨← Json.required? Json.asText? sourceClass, ← Json.required? Json.asText? sourceField⟩

end BacklinkDecl

namespace FieldDecl

def shape : RecordShape := ⟨["name", "field_type", "linked_class", "backlink"], 2⟩

/-- What a field does not have is left out. -/
def toJson (f : FieldDecl) : Json :=
  .record ([("name", .text f.name), ("field_type", f.fieldType.toJson)] ++
    (f.linkedClass.map fun c => ("linked_class", .text c)).toList ++
    (f.backlink.map fun b => ("backlink", b.toJson)).toList)

def ofJson? (v : Json) : Option FieldDecl := do
  let [name, fieldType, linkedClass, backlink] ← v.asRecord? shape | none
  return ⟨← Json.required? Json.asText? name, ← Json.required? FieldType.ofJson? fieldType,
    ← Json.optional? Json.asText? linkedClass, ← Json.optional? BacklinkDecl.ofJson? backlink⟩

end FieldDecl

namespace ClassDecl

def shape : RecordShape := ⟨["class_name", "fields"], 1⟩

def toJson (c : ClassDecl) : Json :=
  .record [("class_name", .text c.className), ("fields", .arr (c.fields.map FieldDecl.toJson))]

def ofJson? (v : Json) : Option ClassDecl := do
  let [className, fields] ← v.asRecord? shape | none
  return ⟨← Json.required? Json.asText? className,
    ← Json.defaulted? [] (Json.asList? FieldDecl.ofJson?) fields⟩

end ClassDecl

end ColumnAtlas
