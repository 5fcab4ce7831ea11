import ColumnAtlas.Cache
import ColumnAtlas.ClassSummary
import ColumnAtlas.Registry

namespace ColumnAtlas

/-- The declared classes of a database and the cache of their mappings. -/
structure Schema where
  database : DatabaseId
  registry : Registry
  cache : Cache
  /-- Classes changed since the cache was last brought up to date. -/
  needsRefresh : Bool

/-- A schema with the tables and cells that it works on. -/
structure Workspace where
  storage : Storage
  cells : CellStore
  schema : Schema

namespace Workspace

def registry (w : Workspace) : Registry := w.schema.registry

def database (w : Workspace) : DatabaseId := w.schema.database

/-- Opens a schema on a database whose tables agree with every registered class. -/
def start (s : Storage) (cells : CellStore) (d : DatabaseId) (r : Registry) (version : Int) :
    Except Error Workspace := do
  let (g, cells) ← r.buildGeneration s d version cells
  let (cache, cells) ← Cache.new.setInitial g cells
  return ⟨s, cells, ⟨d, r, cache, false⟩⟩

/-- Brings the cache up to date with the registered classes and the stored tables. -/
def refresh (w : Workspace) (version : Int) : Except Error Unit × Workspace :=
  let synced := do
    let (next, cells) ← w.registry.buildGeneration w.storage w.database version w.cells
    let (cache, cells) ← w.schema.cache.syncClasses next cells
    return (next, cache, cells)
  match synced with
  | .error e => (.error e, w)
  | .ok (next, cache, cells) =>
    match cache.update next w.registry.naming cells with
    | (.error e, cache, cells) =>
      (.error e, { w with cells := cells, schema := { w.schema with cache := cache } })
    | (.ok (), cache, cells) =>
      (.ok (), { w with
        cells := cells
        schema := { w.schema with cache := cache, needsRefresh := false } })

/-- The table of a class, under the name that the registry gives it. -/
def classTable? (w : Workspace) (className : String) : Option TableId :=
  w.storage.tableNamed? w.database (w.registry.settings.tableName className)

/-- The stored columns of a class in the order of their positions, then its declared backlinks. -/
def describe? (w : Workspace) (className : String) : Option ClassSummary := do
  let c ← w.registry.declNamed? className
  let t ← w.classTable? className
  let columns := (w.storage.columnsOf t).map fun f => ⟨f.1, f.2.1, f.2.2⟩
  let backlinks := c.fields.filterMap fun f =>
    f.backlink.map fun b => ⟨f.name, .backlink, some b.sourceClass⟩
  return ⟨className, columns ++ backlinks⟩

/-- Every class in the order of the names. -/
def describeAll (w : Workspace) : List ClassSummary :=
  w.registry.ids.keys.filterMap w.describe?

def contains (w : Workspace) (className : String) : Bool :=
  (w.registry.classId? className).isSome && (w.classTable? className).isSome

/-- The table of a registered class. -/
def table? (w : Workspace) (className : String) : Option TableId :=
  (w.registry.classId? className).bind fun _ => w.classTable? className

end Workspace

namespace Storage

/-- Adds the column of a declared field. The target of a link must have a table. -/
def addDeclared (s : Storage) (d : DatabaseId) (t : TableId) (owner : String) (f : FieldDecl) :
    Except Error Storage := do
  if f.fieldType.isLink then
    match f.linkedClass with
    | none => throw (.argument (.unknownClass (owner ++ "." ++ f.name)))
    | some className =>
      match s.classTable? d className with
      | none => throw (.argument (.unknownClass className))
      | some target =>
        let (_, s) ← s.addLink t f.name f.fieldType target
        return s
  else
    let (_, s) ← s.addColumn t f.name f.fieldType
    return s

/-- Adds the columns of declared fields, up to the first that fails. -/
def addAllDeclared (s : Storage) (d : DatabaseId) (t : TableId) (owner : String) :
    List FieldDecl → Except Error Unit × Storage
  | [] => (.ok (), s)
  | f :: fs =>
    match s.addDeclared d t owner f with
    | .error e => (.error e, s)
    | .ok s => s.addAllDeclared d t owner fs

/-- Makes the table of a declared class with its columns. After a failure the table may be there
with some of them. -/
def createDeclared (s : Storage) (d : DatabaseId) (c : ClassDecl) : Except Error Unit × Storage :=
  match s.createTable d c.className with
  | .error e => (.error e, s)
  | .ok (t, s) => s.addAllDeclared d t c.className c.columns

/-- Removes the table of a class if that is possible. -/
def discardTable (s : Storage) (d : DatabaseId) (className : String) : Storage :=
  match s.removeTable d className with
  | .ok s => s
  | .error _ => s

/-- Gives a table its old name back if that is possible. -/
def restoreName (s : Storage) (d : DatabaseId) (new old : String) : Storage :=
  match s.renameTable d new old with
  | .ok (_, s) => s
  | .error _ => s

end Storage

namespace Workspace

/-- The description of a class that was just changed. -/
def described (w : Workspace) (className : String) : Except Error ClassSummary × Workspace :=
  match w.describe? className with
  | some summary => (.ok summary, w)
  | none => (.error (.state (.classNotFound className)), w)

/-- Replaces the tables and the registry after a change of the classes. -/
def changed (w : Workspace) (s : Storage) (r : Registry) : Workspace :=
  { w with storage := s, schema := { w.schema with registry := r, needsRefresh := true } }

/-- Creates a class and its table. If the table cannot be completed it is removed again. -/
def create (w : Workspace) (c : ClassDecl) : Except Error ClassSummary × Workspace :=
  if c.className.isEmpty then (.error (.argument .emptyClassName), w)
  else if (w.registry.classId? c.className).isSome ∨
      (w.storage.classTable? w.database c.className).isSome then
    (.error (.state (.classAlreadyExists c.className)), w)
  else
    let (made, s) := w.storage.createDeclared w.database c
    let checked := made.bind fun _ => c.buildMapping s w.database w.registry.settings
    match checked with
    | .error e => (.error e, { w with storage := s.discardTable w.database c.className })
    | .ok _ =>
      match w.registry.register c with
      | .error e => (.error e, { w with storage := s })
      | .ok (_, r) => (w.changed s r).described c.className

/-- Removes a class and its table, unless another class refers to it. -/
def remove (w : Workspace) (className : String) : Except Error Unit × Workspace :=
  match w.registry.classId? className with
  | none => (.error (.state (.classNotFound className)), w)
  | some id =>
    match w.registry.backlinksFrom className with
    | user :: _ => (.error (.state (.classStillReferenced className user)), w)
    | [] =>
      match w.storage.removeTable w.database className with
      | .error e => (.error e, w)
      | .ok s =>
        match w.registry.unregister id with
        | some (_, r) => (.ok (), w.changed s r)
        | none => (.ok (), w.changed s w.registry)

/-- Renames a class and its table. -/
def rename (w : Workspace) (old new : String) : Except Error ClassSummary × Workspace :=
  match w.registry.classId? old with
  | none => (.error (.state (.classNotFound old)), w)
  | some id =>
    if (w.registry.classId? new).isSome then (.error (.state (.classAlreadyExists new)), w)
    else
      match w.storage.renameTable w.database old new with
      | .error e => (.error e, w)
      | .ok (_, s) =>
        match w.registry.rename id new with
        | .error e => (.error e, { w with storage := s.restoreName w.database new old })
        | .ok r => (w.changed s r).described new

end Workspace

end ColumnAtlas
