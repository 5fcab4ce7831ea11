import ColumnAtlas.Mapping
import ColumnAtlas.Settings
import ColumnAtlas.Storage

namespace ColumnAtlas

/-- A mapping under construction. Every field is checked against the stored tables when it is
added, and a field that fails leaves the builder as it was. -/
structure MappingBuilder where
  database : DatabaseId
  settings : Settings
  table : TableId
  mapping : Mapping

namespace MappingBuilder

/-- Starts the mapping of a class, whose table must exist. -/
def start (s : Storage) (d : DatabaseId) (settings : Settings) (className : String) :
    Except Error MappingBuilder :=
  match s.tableNamed? d (settings.tableName className) with
  | none => .error (.migration (.missingClass (s.database d).path className))
  | some t => .ok ⟨d, settings, t, .empty className⟩

def className (b : MappingBuilder) : String := b.mapping.className

/-- Adds the placement of a field. -/
def record (b : MappingBuilder) (field : String) (p : Placement) : MappingBuilder :=
  { b with mapping := { b.mapping with fields := b.mapping.fields.insert field p } }

/-- The placement of a stored column, whose type is the one found in the table. -/
def columnPlacement (b : MappingBuilder) (s : Storage) (field : String) (expected : FieldType) :
    Except Error Placement :=
  let path := (s.database b.database).path
  match (s.table b.table).columnIndex? field with
  | none => .error (.migration (.missingField path b.className field))
  | some index =>
    let found := (s.table b.table).columnType index
    if b.settings.verifyColumnTypes ∧ found ≠ expected then
      .error (.migration (.typeMismatch path b.className field expected found))
    else if found.isLink then
      match s.linkTarget? b.table index with
      | none => .error (.migration (.missingLinkTarget path b.className field))
      | some target => .ok (.column index found (some (s.table target).className))
    else .ok (.column index found none)

/-- The placement of a backlink that reads from a field of a source class. -/
def backlinkPlacement (b : MappingBuilder) (s : Storage) (field sourceClass sourceField : String) :
    Except Error Placement :=
  let path := (s.database b.database).path
  let missing : Error :=
    .migration (.missingBacklinkSource path b.className field sourceClass sourceField)
  match s.tableNamed? b.database (b.settings.tableName sourceClass) with
  | none => .error missing
  | some source =>
    match (s.table source).columnIndex? sourceField with
    | none => .error missing
    | some index =>
      let found := (s.table source).columnType index
      let pointsHere := (s.linkTarget? source index).any fun t =>
        (s.table t).className = b.className
      if b.settings.verifyColumnTypes ∧ !found.isLink then
        .error (.migration (.typeMismatch path sourceClass sourceField .object found))
      else if b.settings.verifyColumnTypes ∧ !pointsHere then .error missing
      else .ok (.backlink index sourceClass sourceField)

/-- Adds a field with the placement found for it, unless the field was added before. -/
def add (b : MappingBuilder) (field : String) (placement : Except Error Placement) :
    Except Error (Int × MappingBuilder) := do
  if b.mapping.fields.contains field then
    throw (.argument (.duplicateField b.className field))
  let p ← placement
  return (p.index, b.record field p)

def addColumn (b : MappingBuilder) (s : Storage) (field : String) (expected : FieldType) :
    Except Error (Int × MappingBuilder) :=
  b.add field (b.columnPlacement s field expected)

def addBacklink (b : MappingBuilder) (s : Storage) (field sourceClass sourceField : String) :
    Except Error (Int × MappingBuilder) :=
  b.add field (b.backlinkPlacement s field sourceClass sourceField)

end MappingBuilder

end ColumnAtlas
