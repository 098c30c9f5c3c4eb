import OpcodeDispatch.Json.Reader

/-!
Deserializers: how JSON text becomes values of the types of a program. A deserializer reads texts as
trees, and trees as values of each kind of type. The program says of its types only what is their own: the
bound of a number, the names of variants, the fields of a record and what they set. `standard` is one
deserializer.
-/

namespace OpcodeDispatch

/-- A field of the record `σ`: its name, and what a value of it does to the record. -/
structure RecordField (σ : Type) where
  name : String
  read : Json → Except String (σ → σ)

/-- A failure says why in words. -/
structure Deserializer where
  tree : String → Except String Json
  /-- unsigned integers below a bound -/
  unsigned : (bound : Nat) → Json → Except String (Fin bound)
  list : {α : Type} → (Json → Except String α) → Json → Except String (List α)
  /-- one of some variants without data, which are given by their names -/
  variant : {α : Type} → List (String × α) → Json → Except String α
  /-- a record, of which the fields that are left out are as in the given one -/
  record : {σ : Type} → List (RecordField σ) → σ → Json → Except String σ

namespace Deserializer

def orElse (reason : String) : Option α → Except String α
  | some a => .ok a
  | none => .error reason

def standardUnsigned (bound : Nat) (j : Json) : Except String (Fin bound) := do
  let n ← orElse "not an unsigned integer" j.nat?
  if h : n < bound then return ⟨n, h⟩ else .error "out of range"

def standardList (item : Json → Except String α) : Json → Except String (List α)
  | .array js => js.mapM item
  | _ => .error "not an array"

/-- A variant is a string, or an object whose one member has the variant's name and no value. -/
def standardVariant (names : List (String × α)) : Json → Except String α
  | .string literal | .object [(literal, .null)] => do
    let name ← orElse "not a character" (Json.decode? literal)
    orElse "unknown variant" (names.lookup name)
  | _ => .error "not a variant"

/-- Sets the fields that are members of an object. Each is set at most once, `seen` holds those that are
set, and members of other names are passed over. -/
def standardMembers (fields : List (RecordField σ)) (seen : List String) (s : σ) :
    List (String × Json) → Except String σ
  | [] => .ok s
  | (literal, v) :: ms => do
    let key ← orElse "not a character" (Json.decode? literal)
    match fields.find? (·.name == key) with
    | none => standardMembers fields seen s ms
    | some field =>
      if key ∈ seen then .error "duplicate field"
      else do
        let set ← field.read v
        standardMembers fields (key :: seen) (set s) ms

/-- Sets the first fields to the items of an array. -/
def standardItems : List (RecordField σ) → σ → List Json → Except String σ
  | _, s, [] => .ok s
  | [], _, _ :: _ => .error "too many items"
  | field :: fields, s, j :: js => do
    let set ← field.read j
    standardItems fields (set s) js

def standardRecord (fields : List (RecordField σ)) (base : σ) : Json → Except String σ
  | .object ms => standardMembers fields [] base ms
  | .array js => standardItems fields base js
  | _ => .error "not a record"

def standard : Deserializer where
  tree text := orElse "not JSON" (Json.parse? text)
  unsigned := standardUnsigned
  list := standardList
  variant := standardVariant
  record := standardRecord

end Deserializer
end OpcodeDispatch
