import ColumnAtlas.FieldType
import ColumnAtlas.ClassId
import ColumnAtlas.JsonReader

namespace ColumnAtlas

/-- The fields of a record in declaration order. A record is written as an object, or as the array
of its fields; the array may leave out the fields at its end that are not `required`. -/
structure RecordShape where
  fields : List String
  required : Nat

namespace Json

def asText? : Json → Option String
  | str s => s
  | _ => none

def asBool? : Json → Option Bool
  | bool b => some b
  | _ => none

/-- An integer between two bounds. -/
def asInt? (low high : Int) : Json → Option Int
  | int n => if low ≤ n ∧ n ≤ high then some n else none
  | _ => none

/-- A list whose items can all be decoded. -/
def asList? {α : Type} (decode : Json → Option α) : Json → Option (List α)
  | arr items => items.mapM decode
  | _ => none

/-- Nothing if the value is `null`. -/
def asNullable? {α : Type} (decode : Json → Option α) : Json → Option (Option α)
  | null => some none
  | v => (decode v).map some

/-- The only value of a field in an object, `none` if it is missing; a repeated field is refused. -/
def member? (members : List (Option String × Json)) (field : String) : Option (Option Json) :=
  match members.filter fun m => m.1 = some field with
  | [] => some none
  | [m] => some (some m.2)
  | _ => none

/-- The values of the fields of a record, in declaration order. -/
def asRecord? (shape : RecordShape) : Json → Option (List (Option Json))
  | arr items =>
    if shape.required ≤ items.length ∧ items.length ≤ shape.fields.length then
      some (items.map some ++ List.replicate (shape.fields.length - items.length) none)
    else none
  | obj members =>
    if members.all fun m => m.1.isSome then shape.fields.mapM (member? members) else none
  | _ => none

/-- A field that must be there. -/
def required? {α : Type} (decode : Json → Option α) (v : Option Json) : Option α :=
  v.bind decode

/-- A field that has a value of its own when it is missing. -/
def defaulted? {α : Type} (default : α) (decode : Json → Option α) : Option Json → Option α
  | none => some default
  | some v => decode v

/-- A field that may be missing or `null`. -/
def optional? {α : Type} (decode : Json → Option α) (v : Option Json) : Option (Option α) :=
  defaulted? none (asNullable? decode) v

def ofOption {α : Type} (encode : α → Json) : Option α → Json
  | none => null
  | some a => encode a

end Json

namespace FieldType

def toJson (t : FieldType) : Json := .text t.name

/-- A type is written as its name, or as an object with that name as its only member, `null`. -/
def ofJson? : Json → Option FieldType
  | .str (some s) => ofName? s
  | .obj [(some s, .null)] => ofName? s
  | _ => none

end FieldType

namespace ClassId

def toJson (id : ClassId) : Json := .int id.raw.toNat

def ofJson? (v : Json) : Option ClassId := do
  let n ← v.asInt? 0 0xFFFFFFFF
  return ⟨n.toNat.toUInt32⟩

end ClassId

end ColumnAtlas
