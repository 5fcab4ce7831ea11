import ColumnAtlas.FieldType

namespace ColumnAtlas

/-- The stored tables no longer match the declared classes. -/
inductive MigrationError where
  | missingClass (path className : String)
  | missingField (path className fieldName : String)
  | typeMismatch (path className fieldName : String) (expected found : FieldType)
  | missingLinkTarget (path className fieldName : String)
  | missingBacklinkSource (path className fieldName sourceClass sourceField : String)
  deriving DecidableEq

/-- An operation that the state of a store, cache or schema does not allow. -/
inductive StateError where
  | immutableCache
  | alreadyInitialized
  | notInitialized
  | classSetMismatch (className : String)
  | classStillReferenced (className referencedBy : String)
  | classNotFound (className : String)
  | classAlreadyExists (className : String)
  | classIdsExhausted
  deriving DecidableEq

/-- Malformed input of a query, a declaration or a build. -/
inductive ArgumentError where
  | emptyFieldPath
  | trailingSeparator (path : String)
  | fieldNotFound (className fieldName : String)
  | notALink (className fieldName : String) (found : FieldType)
  | unexpectedType (fieldName : String) (found : FieldType) (expected : List FieldType)
  | duplicateField (className fieldName : String)
  | duplicateClass (className : String)
  | unknownClass (className : String)
  | emptyClassName
  deriving DecidableEq

/-- A faulty setting. -/
inductive SettingsError where
  | missingRequired (field : String)
  | invalidValue (field value reason : String)
  | malformed (reason : String)
  deriving DecidableEq

/-- Every way in which an operation can fail. -/
inductive Error where
  | migration (cause : MigrationError)
  | state (cause : StateError)
  | argument (cause : ArgumentError)
  | settings (cause : SettingsError)
  deriving DecidableEq

namespace MigrationError

/-- The class whose table disagrees with its declaration. -/
def className : MigrationError → String
  | missingClass _ c => c
  | missingField _ c _ => c
  | typeMismatch _ c _ _ _ => c
  | missingLinkTarget _ c _ => c
  | missingBacklinkSource _ c _ _ _ => c

/-- The offending field, unless the whole table is missing. -/
def fieldName? : MigrationError → Option String
  | missingClass _ _ => none
  | missingField _ _ f => some f
  | typeMismatch _ _ f _ _ => some f
  | missingLinkTarget _ _ f => some f
  | missingBacklinkSource _ _ f _ _ => some f

def message : MigrationError → String
  | missingClass path c => s!"Migration needed for {path}: class '{c}' has no table"
  | missingField path c f => s!"Migration needed for {path}: field '{f}' not found for type {c}"
  | typeMismatch path c f expected found =>
    s!"Migration needed for {path}: field '{f}' of {c}: expected type {expected.label} " ++
      s!"but found {found.label}"
  | missingLinkTarget path c f =>
    s!"Migration needed for {path}: link field '{f}' of {c} has no target table"
  | missingBacklinkSource path c f sourceClass sourceField =>
    s!"Migration needed for {path}: backlink '{f}' of {c} reads from missing field " ++
      s!"'{sourceField}' of {sourceClass}"

end MigrationError

def StateError.message : StateError → String
  | immutableCache => "Attempt to modify immutable cache"
  | alreadyInitialized => "An instance of ColumnIndices is already set"
  | notInitialized => "Attempt to use column index before set"
  | classSetMismatch c => s!"Failed to copy ColumnIndices cache: {c}"
  | classStillReferenced c user => s!"Class '{c}' is still referenced by {user}"
  | classNotFound c => s!"Class '{c}' does not exist"
  | classAlreadyExists c => s!"Class '{c}' already exists"
  | classIdsExhausted => "No class identifiers left"

/-- The names of field types, as a bracketed list. -/
def FieldType.listText (ts : List FieldType) : String :=
  "[" ++ ", ".intercalate (ts.map name) ++ "]"

def ArgumentError.message : ArgumentError → String
  | emptyFieldPath => "Invalid query: field name is empty"
  | trailingSeparator path =>
    s!"Invalid query: field name must not end with a period ('.'): {path}"
  | fieldNotFound c f => s!"Invalid query: field '{f}' does not exist in class {c}"
  | notALink c f found =>
    s!"Invalid query: field '{f}' in class {c} is of invalid type {found.label}"
  | unexpectedType f found expected =>
    s!"Invalid query: field '{f}' has unexpected type {found.label}, " ++
      s!"expected one of {FieldType.listText expected}"
  | duplicateField c f => s!"Field '{f}' declared twice for {c}"
  | duplicateClass c => s!"Class '{c}' is already registered"
  | unknownClass c => s!"Unknown class: {c}"
  | emptyClassName => "Class name must not be empty"

def SettingsError.message : SettingsError → String
  | missingRequired field => s!"Missing required configuration field: {field}"
  | invalidValue field value reason => s!"Invalid value for {field}: {value} - {reason}"
  | malformed reason => s!"Failed to parse configuration: {reason}"

def Error.message : Error → String
  | migration e => e.message
  | state e => "Invalid state: " ++ e.message
  | argument e => "Invalid argument: " ++ e.message
  | settings e => "Config error: " ++ e.message

end ColumnAtlas
