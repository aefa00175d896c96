import TestLanes.Json.Value

/-!
# Values as data

How structures, enumerations and options are given by JSON values.  A structure is an object with
its fields by name, each at most once and others disregarded, or an array with its fields in order.

The decoders are small functions that a structure's own decoder puts together: `structure?` finds
the values of the fields, and `required`, `nullable` and the decoders of basic values say what each
field may hold.  Fields that are disregarded may be anything, unreadable values included.
-/

namespace TestLanes.Json

mutual

/-- Whether no part of a value is unreadable. -/
def Value.isReadable : Value → Bool
  | .array items => areReadable items
  | .object fields => fieldsAreReadable fields
  | .unreadable => false
  | _ => true

def areReadable : List Value → Bool
  | [] => true
  | v :: vs => v.isReadable && areReadable vs

def fieldsAreReadable : List (String × Value) → Bool
  | [] => true
  | (_, v) :: fs => v.isReadable && fieldsAreReadable fs

end

/-- The value of a field that may be missing but must not be given twice. -/
def field? (fields : List (String × Value)) (name : String) : Option (Option Value) :=
  match fields.filter (·.1 = name) with
  | [] => some none
  | [(_, v)] => some (some v)
  | _ => none

/-- The values of the named fields of a structure, in the order of the names. -/
def Value.structure? (names : List String) : Value → Option (List (Option Value))
  | .object fields => names.mapM (field? fields)
  | .array items =>
    if items.length ≤ names.length then
      some (items.map some ++ List.replicate (names.length - items.length) none)
    else none
  | _ => none

/-- A field that must be there. -/
def required (decode : Value → Option α) : Option Value → Option α
  | none => none
  | some v => decode v

/-- A field that may be null or missing. -/
def nullable (decode : Value → Option α) : Option Value → Option (Option α)
  | none | some .null => some none
  | some v => (decode v).map some

def Value.text? : Value → Option String
  | .string s => some s
  | _ => none

def Value.natural? : Value → Option Nat
  | .number (.natural n) => some n
  | _ => none

def Value.items? (decode : Value → Option α) : Value → Option (List α)
  | .array items => items.mapM decode
  | _ => none

/-- One of several names, as a text or as the only name of an object with the value null. -/
def Value.variant? (ofName? : String → Option α) : Value → Option α
  | .string s => ofName? s
  | .object [(s, .null)] => ofName? s
  | _ => none

end TestLanes.Json
