import ColumnAtlas.ClassDecl
import ColumnAtlas.Generation

namespace ColumnAtlas

/-- The declared classes under identifiers that are never used again. -/
structure Registry where
  settings : Settings
  classes : SortedMap ClassId ClassDecl
  /-- The identifiers of the registered classes by name. -/
  ids : SortedMap String ClassId
  /-- The last names of the classes that are no longer registered. -/
  retired : SortedMap ClassId String
  nextId : UInt32

/-- Why a registry could not be loaded. -/
inductive LoadError where
  | malformed
  | rejected (cause : Error)

namespace Registry

def new (settings : Settings) : Registry := ⟨settings, .empty, .empty, .empty, 0⟩

def size (r : Registry) : Nat := r.classes.size

/-- Registers a class. The largest identifier is never handed out. -/
def register (r : Registry) (c : ClassDecl) : Except Error (ClassId × Registry) :=
  if c.className.isEmpty then .error (.argument .emptyClassName)
  else if r.ids.contains c.className then .error (.argument (.duplicateClass c.className))
  else if r.nextId = 0xFFFFFFFF then .error (.state .classIdsExhausted)
  else
    let id : ClassId := ⟨r.nextId⟩
    .ok (id, { r with
      classes := r.classes.insert id c
      ids := r.ids.insert c.className id
      nextId := r.nextId + 1 })

/-- Forgets a class but not its name. -/
def unregister (r : Registry) (id : ClassId) : Option (ClassDecl × Registry) :=
  (r.classes.get? id).map fun c =>
    (c, { r with
      classes := r.classes.erase id
      ids := r.ids.erase c.className
      retired := r.retired.insert id c.className })

/-- Gives a class a new name, which all references to it follow. -/
def rename (r : Registry) (id : ClassId) (new : String) : Except Error Registry :=
  if r.ids.contains new then .error (.argument (.duplicateClass new))
  else
    match r.classes.get? id with
    | none => .error (.argument (.unknownClass id.text))
    | some c =>
      let renamed := r.classes.insert id { c with className := new }
      .ok { r with
        classes := renamed.map fun _ c' => c'.renameClass c.className new
        ids := (r.ids.erase c.className).insert new id }

def classId? (r : Registry) (className : String) : Option ClassId := r.ids.get? className

def decl? (r : Registry) (id : ClassId) : Option ClassDecl := r.classes.get? id

def declNamed? (r : Registry) (className : String) : Option ClassDecl :=
  (r.classId? className).bind r.decl?

/-- The backlinks of other classes that read from a class. -/
def backlinksFrom (r : Registry) (className : String) : List String :=
  (r.classes.values.filter fun c => c.className ≠ className).flatMap fun c =>
    (c.fields.filter fun f => f.readsFrom className).map fun f => c.className ++ "." ++ f.name

/-- The name that a class has, or had when it was registered last. -/
def lastName? (r : Registry) (id : ClassId) : Option String :=
  ((r.decl? id).map ClassDecl.className).or (r.retired.get? id)

def tableName (r : Registry) (id : ClassId) : String :=
  match r.lastName? id with
  | some name => r.settings.tableName name
  | none => id.text

/-- The registry as a source of table names. -/
def naming (r : Registry) : TableNaming := ⟨r.tableName, r.settings.tablePrefix⟩

/-- The mapping of a registered class, checked against the stored tables. -/
def buildMapping (r : Registry) (s : Storage) (d : DatabaseId) (id : ClassId) :
    Except Error Mapping :=
  match r.decl? id with
  | none => .error (.argument (.unknownClass id.text))
  | some c => c.buildMapping s d r.settings

/-- The mappings of declared classes, up to the first that disagrees with the stored tables. -/
def buildAll (settings : Settings) (s : Storage) (d : DatabaseId) :
    List (ClassId × ClassDecl) → Except Error (List (ClassId × Mapping))
  | [] => .ok []
  | (id, c) :: rest => do
    let m ← c.buildMapping s d settings
    let ms ← buildAll settings s d rest
    return (id, m) :: ms

/-- A generation with the mappings of all registered classes. -/
def buildGeneration (r : Registry) (s : Storage) (d : DatabaseId) (version : Int)
    (cells : CellStore) : Except Error (Generation × CellStore) := do
  let ms ← buildAll r.settings s d r.classes.entries
  return Generation.new version (ms.map fun e => (e.1, ⟨e.2, true⟩)) cells

/-- Registers classes in order, up to the first that is refused. -/
def registerAll (r : Registry) : List ClassDecl → Except Error Registry
  | [] => .ok r
  | c :: cs => do
    let (_, r) ← r.register c
    r.registerAll cs

/-- The classes that a JSON text declares. -/
def readClasses? (raw : String) : Option (List ClassDecl) :=
  (Json.read? raw).bind (Json.asList? ClassDecl.ofJson?)

/-- A registry with the classes of a JSON text, none of which is registered unless all are
readable. -/
def load (settings : Settings) (raw : String) : Except LoadError Registry :=
  match readClasses? raw with
  | none => .error .malformed
  | some cs =>
    match (new settings).registerAll cs with
    | .ok r => .ok r
    | .error e => .error (.rejected e)

end Registry

end ColumnAtlas
