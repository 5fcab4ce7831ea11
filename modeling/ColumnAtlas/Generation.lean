import ColumnAtlas.CellStore
import ColumnAtlas.TableName

namespace ColumnAtlas

/-- The mappings of all classes at one version of a schema, each in a cell of its own. -/
structure Generation where
  version : Int
  cells : SortedMap ClassId CellId
  mutable : Bool

/-- A generation that shares nothing with the cells and never changes. -/
structure FrozenGeneration where
  version : Int
  mappings : SortedMap ClassId Mapping
  deriving DecidableEq

namespace Generation

/-- Makes a mutable generation of mutable cells; the last of several cells of a class counts. -/
def new (version : Int) (classes : List (ClassId × Cell)) (s : CellStore) :
    Generation × CellStore :=
  let (cells, s) := s.addAll ((SortedMap.ofList classes).map fun _ c => c.copy true)
  (⟨version, cells, true⟩, s)

/-- A copy in new cells. -/
def snapshot (g : Generation) (mutable : Bool) (s : CellStore) : Generation × CellStore :=
  let (cells, s') := s.addAll (g.cells.map fun _ i => (s.read i).copy mutable)
  (⟨g.version, cells, mutable⟩, s')

/-- The mappings as they are now. -/
def mappings (g : Generation) (s : CellStore) : SortedMap ClassId Mapping :=
  g.cells.map fun _ i => s.mapping i

def freeze (g : Generation) (s : CellStore) : FrozenGeneration :=
  ⟨g.version, g.mappings s⟩

def cell? (g : Generation) (id : ClassId) : Option CellId := g.cells.get? id

def columnIndex? (g : Generation) (s : CellStore) (id : ClassId) (field : String) : Option Int :=
  (g.cell? id).bind fun i => (s.mapping i).columnIndex? field

/-- Copies the mappings of another generation into the given cells, up to the first class that the
other generation lacks. The cells before it keep their new mappings. -/
def copyCells (other : Generation) (naming : TableNaming) :
    List (ClassId × CellId) → CellStore → Except Error Unit × CellStore
  | [], s => (.ok (), s)
  | (id, i) :: rest, s =>
    match other.cell? id with
    | none => (.error (.state (.classSetMismatch (naming.className id))), s)
    | some source =>
      match s.copyFrom i source with
      | .error e => (.error e, s)
      | .ok s => copyCells other naming rest s

/-- Takes over the mappings and the version of another generation, class by class in ascending
order. Without a counterpart for every class the version stays as it was. -/
def copyFrom (g other : Generation) (naming : TableNaming) (s : CellStore) :
    Except Error Unit × Generation × CellStore :=
  if g.mutable then
    match copyCells other naming g.cells.entries s with
    | (.error e, s) => (.error e, g, s)
    | (.ok (), s) => (.ok (), { g with version := other.version }, s)
  else (.error (.state .immutableCache), g, s)

/-- Drops the classes that another generation lacks and adds copies of those that only it has. The
classes in both keep their cells. -/
def syncClasses (g other : Generation) (s : CellStore) : Except Error (Generation × CellStore) :=
  if g.mutable then
    let kept := g.cells.filter fun id _ => other.cells.contains id
    let fresh := other.cells.filter fun id _ => !g.cells.contains id
    let (added, s') := s.addAll (fresh.map fun _ i => (s.read i).copy true)
    .ok ({ g with cells := kept.insertAll added.entries }, s')
  else .error (.state .immutableCache)

def text (g : Generation) (s : CellStore) : String :=
  s!"ColumnIndices[{g.version},{g.mutable}" ++
    String.join (g.cells.values.map fun i =>
      s!",{(s.mapping i).className}->{(s.read i).text}") ++ "]"

end Generation

namespace FrozenGeneration

def mapping? (g : FrozenGeneration) (id : ClassId) : Option Mapping := g.mappings.get? id

def columnIndex? (g : FrozenGeneration) (id : ClassId) (field : String) : Option Int :=
  (g.mapping? id).bind fun m => m.columnIndex? field

/-- The type of a field; an unknown class or field has the unsupported type. -/
def columnType (g : FrozenGeneration) (id : ClassId) (field : String) : FieldType :=
  match g.mapping? id with
  | some m => m.columnType field
  | none => .unsupported

def linkedClass? (g : FrozenGeneration) (id : ClassId) (field : String) : Option String :=
  (g.mapping? id).bind fun m => m.linkedClass? field

def text (g : FrozenGeneration) : String :=
  s!"ColumnIndices[{g.version},false" ++
    String.join (g.mappings.values.map fun m => s!",{m.className}->{m.text false}") ++ "]"

end FrozenGeneration

end ColumnAtlas
