import ColumnAtlas.FieldPath
import ColumnAtlas.Schema

namespace ColumnAtlas

/-- Where a field path leads, segment by segment. -/
structure Route where
  columns : List Int
  /-- The tables that links and backlinks lead to. -/
  tables : List (Option TableId)
  finalType : FieldType
  deriving DecidableEq

namespace Route

def length (r : Route) : Nat := r.columns.length

def lastColumn? (r : Route) : Option Int := r.columns.getLast?

end Route

namespace Workspace

/-- The cached mapping of a class, or a new one if the class is not cached yet. -/
def mappingOf (w : Workspace) (className : String) : Except Error Mapping :=
  match w.registry.classId? className with
  | none => .error (.argument (.unknownClass className))
  | some id =>
    match w.schema.cache.cell? id with
    | .error e => .error e
    | .ok (some i) => .ok (w.cells.mapping i)
    | .ok none => w.registry.buildMapping w.storage w.database id

/-- The table on the other side of a field of a class. -/
def across (w : Workspace) (className field : String) (p : Placement) :
    Except Error (Option (String × TableId)) :=
  match p.linkedClass with
  | none => .ok none
  | some target =>
    if p.fieldType.isRelationship then
      match w.classTable? target with
      | some t => .ok (some (target, t))
      | none =>
        let path := (w.storage.database w.database).path
        .error (.migration (.missingLinkTarget path className field))
    else .ok none

/-- Follows the segments of a path from a class. -/
def walk (w : Workspace) : String → List String → Except Error Route
  | _, [] => .ok ⟨[], [], .unsupported⟩
  | className, field :: rest => do
    let m ← w.mappingOf className
    match m.get? field with
    | none => throw (.argument (.fieldNotFound className field))
    | some p =>
      if !rest.isEmpty ∧ !p.fieldType.isRelationship then
        throw (.argument (.notALink className field p.fieldType))
      let next ← w.across className field p
      let route ← w.walk ((next.map Prod.fst).getD className) rest
      return ⟨p.index :: route.columns, next.map Prod.snd :: route.tables,
        if rest.isEmpty then p.fieldType else route.finalType⟩

/-- Follows a field path from a table to a field of one of the given types. -/
def resolve (w : Workspace) (t : TableId) (path : String) (types : List FieldType) :
    Except Error Route := do
  let segments ← FieldPath.parse path
  let route ← w.walk (w.storage.table t).className segments
  if types.contains route.finalType then return route
  throw (.argument (.unexpectedType path route.finalType types))

end Workspace

end ColumnAtlas
