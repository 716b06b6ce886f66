import TextTemplate.Value

/-!
JSON documents and bound data. A document becomes data field by field; data becomes a document in
which functions and numbers that are not finite are null.
-/
namespace TextTemplate

inductive Json where
  | null
  | bool (b : Bool)
  | number (x : Float)
  | string (s : String)
  | array (items : List Json)
  | object (fields : List (String × Json))
  deriving Inhabited

namespace Json

/-- Gives a name its value: in place when the name is there, else as a new last field. -/
def setField (key : String) (v : Json) : List (String × Json) → List (String × Json)
  | [] => [(key, v)]
  | (k, w) :: fields => if k = key then (key, v) :: fields else (k, w) :: setField key v fields

/-- An object of the given members; of members with one name the last is kept. -/
def ofMembers (members : List (String × Json)) : Json :=
  object (members.foldl (fun kept (key, v) => setField key v kept) [])

end Json

namespace Value
variable {φ : Type}

mutual

def ofJson : Json → Value φ
  | .null => null
  | .bool b => bool b
  | .number x => number x
  | .string s => string s
  | .array items => array (ofJsonItems items)
  | .object fields => record (ofJsonFields fields)

def ofJsonItems : List Json → List (Value φ)
  | [] => []
  | j :: items => ofJson j :: ofJsonItems items

def ofJsonFields : List (String × Json) → List (String × Value φ)
  | [] => []
  | (key, j) :: fields => (key, ofJson j) :: ofJsonFields fields

end

mutual

def toJson : Value φ → Json
  | null => .null
  | bool b => .bool b
  | number x => if x.isFinite then .number x else .null
  | string s => .string s
  | array items => .array (toJsonItems items)
  | record fields => .object (toJsonFields fields)
  | function _ => .null

def toJsonItems : List (Value φ) → List Json
  | [] => []
  | v :: items => toJson v :: toJsonItems items

def toJsonFields : List (String × Value φ) → List (String × Json)
  | [] => []
  | (key, v) :: fields => (key, toJson v) :: toJsonFields fields

end

end Value

end TextTemplate
