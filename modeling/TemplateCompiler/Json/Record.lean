/-
Records in JSON.

A record with named fields is written as an object with the names as keys, or as an array
with the fields in their order.  No field may be given twice.  Whether there may be other
keys, and how many fields an array must give, depends on the record.
-/
import TemplateCompiler.Json.Value

namespace TemplateCompiler

namespace Json

/-- How a record may be written. -/
structure RecordShape where
  /-- The names of the fields in order. -/
  fields : List String
  /-- An object may have other keys, which are passed over. -/
  isOpen : Bool
  /-- The number of fields that an array must give. -/
  required : Nat

namespace RecordShape

/-- The members under their names, if every key is a text. -/
def namedMembers? (members : List (Option String × Value)) : Option (List (String × Value)) :=
  members.mapM fun (member : Option String × Value) => member.1.map fun key => (key, member.2)

/-- The fields of a record in order, each with its value if it has one. -/
def read? (shape : RecordShape) : Value → Option (List (Option Value))
  | .array items =>
    if shape.required ≤ items.length ∧ items.length ≤ shape.fields.length then
      some (shape.fields.mapIdx fun i _ => items[i]?)
    else none
  | .object members =>
    (namedMembers? members).bind fun members =>
      let keys := members.map Prod.fst
      if (shape.isOpen || keys.all shape.fields.contains) &&
          shape.fields.all fun field => keys.count field ≤ 1 then
        some (shape.fields.map fun field => members.lookup field)
      else none
  | _ => none

end RecordShape

namespace Value

/-! ### Values of one kind -/

def bool? : Value → Option Bool
  | bool b => some b
  | _ => none

def float? : Value → Option Float
  | number n => n.toFloat?
  | _ => none

def text? : Value → Option String
  | string text => text
  | _ => none

def texts? : Value → Option (List String)
  | array items => items.mapM text?
  | _ => none

end Value

/-- A field that may be missing or null. -/
def optional {α : Type} (read : Value → Option α) : Option Value → Option (Option α)
  | none | some .null => some none
  | some value => (read value).map some

/-- A field that may be missing, but not null. -/
def withDefault {α : Type} (default : α) (read : Value → Option α) : Option Value → Option α
  | none => some default
  | some value => read value

end Json

end TemplateCompiler
