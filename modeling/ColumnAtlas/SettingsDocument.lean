import ColumnAtlas.JsonRecord
import ColumnAtlas.Settings
import ColumnAtlas.TomlReader

namespace ColumnAtlas

namespace Toml.Entries

/-- The text under a key, or another one if the key is missing. -/
def textAt? (es : Entries) (k other : String) : Option String :=
  match es.get? k with
  | none => some other
  | some (.value (.text s)) => some s
  | some _ => none

/-- The truth value under a key, or another one if the key is missing. -/
def flagAt? (es : Entries) (k : String) (other : Bool) : Option Bool :=
  match es.get? k with
  | none => some other
  | some (.value (.flag b)) => some b
  | some _ => none

end Toml.Entries

namespace Settings

/-- Settings from a TOML document. Other keys are ignored. -/
def ofToml (s : String) : Except Error Settings :=
  match Toml.read? s with
  | none => .error (.settings (.malformed "not a TOML document"))
  | some es =>
    match es.textAt? "table_prefix" default.tablePrefix,
      es.flagAt? "verify_column_types" default.verifyColumnTypes with
    | some tablePrefix, some verify => validated ⟨tablePrefix, verify⟩
    | _, _ => .error (.settings (.malformed "a setting has a value of another type"))

def shape : RecordShape := ⟨["table_prefix", "verify_column_types"], 0⟩

def toJson (s : Settings) : Json :=
  .record [("table_prefix", .text s.tablePrefix), ("verify_column_types", .bool s.verifyColumnTypes)]

def ofJson? (v : Json) : Option Settings := do
  let [tablePrefix, verify] ← v.asRecord? shape | none
  return ⟨← Json.defaulted? default.tablePrefix Json.asText? tablePrefix,
    ← Json.defaulted? default.verifyColumnTypes Json.asBool? verify⟩

end Settings

end ColumnAtlas
