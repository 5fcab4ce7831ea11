import ColumnAtlas.Generation

namespace ColumnAtlas

/-- Holds the generation in use, which is installed once. -/
structure Cache where
  installed : Option Generation
  closed : Bool

namespace Cache

def new : Cache := ⟨none, false⟩

def isInitialized (c : Cache) : Bool := c.installed.isSome

/-- The installed generation. -/
def generation (c : Cache) : Except Error Generation :=
  match c.installed with
  | some g => .ok g
  | none => .error (.state .notInitialized)

/-- Nothing was installed yet, and the cache was not closed. -/
def isFresh (c : Cache) : Bool := c.installed.isNone && !c.closed

def install (c : Cache) (made : Generation × CellStore) : Except Error (Cache × CellStore) :=
  if c.isFresh then .ok ({ c with installed := some made.1 }, made.2)
  else .error (.state .alreadyInitialized)

/-- Installs a mutable copy of a generation. -/
def setInitial (c : Cache) (g : Generation) (s : CellStore) : Except Error (Cache × CellStore) :=
  c.install (g.snapshot true s)

/-- Installs a generation of the given cells. -/
def setInitialCells (c : Cache) (version : Int) (classes : List (ClassId × Cell)) (s : CellStore) :
    Except Error (Cache × CellStore) :=
  c.install (Generation.new version classes s)

/-- The cell of a class, nothing if the class is unknown. -/
def cell? (c : Cache) (id : ClassId) : Except Error (Option CellId) := do
  let g ← c.generation
  return g.cell? id

def columnIndex? (c : Cache) (s : CellStore) (id : ClassId) (field : String) :
    Except Error (Option Int) := do
  let g ← c.generation
  return g.columnIndex? s id field

def version (c : Cache) : Except Error Int := do
  let g ← c.generation
  return g.version

def freeze (c : Cache) (s : CellStore) : Except Error FrozenGeneration := do
  let g ← c.generation
  return g.freeze s

/-- Adds and drops classes so that the cached ones are those of another generation. -/
def syncClasses (c : Cache) (next : Generation) (s : CellStore) :
    Except Error (Cache × CellStore) := do
  let g ← c.generation
  let (g, s) ← g.syncClasses next s
  return ({ c with installed := some g }, s)

/-- Takes over the mappings and the version of another generation. -/
def update (c : Cache) (next : Generation) (naming : TableNaming) (s : CellStore) :
    Except Error Unit × Cache × CellStore :=
  match c.installed with
  | none => (.error (.state .notInitialized), c, s)
  | some g =>
    let (result, g, s) := g.copyFrom next naming s
    (result, { c with installed := some g }, s)

/-- Lets go of the generation for good. -/
def close (_ : Cache) : Cache := ⟨none, true⟩

end Cache

end ColumnAtlas
