import TextTemplate.Number.Shortest

/-!
Bound data. A value is shaped like a JSON document with one more kind: a function, known only by a
handle of type `φ`. The order of a record's fields carries no meaning, and no name occurs twice in
a record built by `set`.
-/
namespace TextTemplate

inductive Value (φ : Type) where
  | null
  | bool (b : Bool)
  | number (x : Float)
  | string (s : String)
  | array (items : List (Value φ))
  | record (fields : List (String × Value φ))
  | function (f : φ)

namespace Value
variable {φ : Type}

instance : Inhabited (Value φ) := ⟨.null⟩

/-- The field of a record; no other kind has fields. -/
def get? (key : String) : Value φ → Option (Value φ)
  | record fields => fields.lookup key
  | _ => none

/-- Gives a name its value: in place when the name is there, else as a new last field. -/
def setField (key : String) (v : Value φ) : List (String × Value φ) → List (String × Value φ)
  | [] => [(key, v)]
  | (k, w) :: fields => if k = key then (key, v) :: fields else (k, w) :: setField key v fields

/-- Sets a field of a record and leaves every other kind alone. -/
def set (target : Value φ) (key : String) (v : Value φ) : Value φ :=
  match target with
  | record fields => record (setField key v fields)
  | other => other

def kind : Value φ → String
  | null => "null"
  | bool _ => "bool"
  | number _ => "number"
  | string _ => "string"
  | array _ => "array"
  | record _ => "object"
  | function _ => "function"

def isNull : Value φ → Bool
  | null => true
  | _ => false

def isArray : Value φ → Bool
  | array _ => true
  | _ => false

def isFunction : Value φ → Bool
  | function _ => true
  | _ => false

def string? : Value φ → Option String
  | string s => some s
  | _ => none

def items? : Value φ → Option (List (Value φ))
  | array items => some items
  | _ => none

/-- How many items a section over the value has: none for null, one for anything but an array. -/
def size : Value φ → Nat
  | null => 0
  | array items => items.length
  | _ => 1

/-- Values that are written as nothing whatever the format. -/
def isBlank : Value φ → Bool
  | null => true
  | bool b => !b
  | string s => s.isEmpty
  | number x => x.isNaN
  | _ => false

mutual

/-- The text of a value before any format is applied. -/
def plain : Value φ → String
  | null => ""
  | bool b => if b then "true" else "false"
  | number x => Number.plain x
  | string s => s
  | array items => String.intercalate "," (plainItems items)
  | record _ => "[object]"
  | function _ => "[function]"

def plainItems : List (Value φ) → List String
  | [] => []
  | v :: items => plain v :: plainItems items

end

mutual

/-- Whether no function occurs in the value, at any depth. -/
def isData : Value φ → Bool
  | array items => itemsAreData items
  | record fields => fieldsAreData fields
  | function _ => false
  | _ => true

def itemsAreData : List (Value φ) → Bool
  | [] => true
  | v :: items => isData v && itemsAreData items

def fieldsAreData : List (String × Value φ) → Bool
  | [] => true
  | (_, v) :: fields => isData v && fieldsAreData fields

end

@[simp] theorem lookup_setField_self (key : String) (v : Value φ)
    (fields : List (String × Value φ)) :
    (setField key v fields).lookup key = some v := by
  induction fields with
  | nil => simp [setField]
  | cons p fields ih =>
    obtain ⟨k, w⟩ := p
    by_cases h : k = key
    · simp [setField, h]
    · have h' : (key == k) = false := by simpa using Ne.symm h
      simp [setField, h, List.lookup_cons, h', ih]

theorem lookup_setField_of_ne {key other : String} (h : other ≠ key) (v : Value φ)
    (fields : List (String × Value φ)) :
    (setField key v fields).lookup other = fields.lookup other := by
  induction fields with
  | nil => simp [setField, List.lookup_cons, beq_eq_false_iff_ne.2 h]
  | cons p fields ih =>
    obtain ⟨k, w⟩ := p
    by_cases hk : k = key
    · subst hk
      simp [setField, List.lookup_cons, beq_eq_false_iff_ne.2 h]
    · by_cases ho : other = k
      · subst ho
        simp [setField, hk]
      · have ho' : (other == k) = false := by simpa using ho
        simp [setField, hk, List.lookup_cons, ho', ih]

end Value

end TextTemplate
