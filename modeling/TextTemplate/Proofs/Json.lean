import TextTemplate.Json

/-!
Data written to JSON and read back. JSON knows no functions and no numbers that are not finite, so
these come back as null wherever they stand. Nothing else is lost.
-/
namespace TextTemplate.Value
variable {φ : Type}

mutual

/-- The value with null in the place of functions and of numbers that are not finite. -/
def kept : Value φ → Value φ
  | null => null
  | bool b => bool b
  | number x => if x.isFinite then number x else null
  | string s => string s
  | array items => array (keptItems items)
  | record fields => record (keptFields fields)
  | function _ => null

def keptItems : List (Value φ) → List (Value φ)
  | [] => []
  | v :: items => kept v :: keptItems items

def keptFields : List (String × Value φ) → List (String × Value φ)
  | [] => []
  | (key, v) :: fields => (key, kept v) :: keptFields fields

end

mutual

/-- Whether all numbers in the value, at any depth, are finite. -/
def isFinite : Value φ → Bool
  | number x => x.isFinite
  | array items => itemsAreFinite items
  | record fields => fieldsAreFinite fields
  | _ => true

def itemsAreFinite : List (Value φ) → Bool
  | [] => true
  | v :: items => isFinite v && itemsAreFinite items

def fieldsAreFinite : List (String × Value φ) → Bool
  | [] => true
  | (_, v) :: fields => isFinite v && fieldsAreFinite fields

end

mutual

/-- What is kept holds no function. -/
private theorem isData_kept : (v : Value φ) → v.kept.isData = true
  | null | bool _ | string _ | function _ => rfl
  | number x => by
    rw [kept]
    split <;> rfl
  | array items => itemsAreData_keptItems items
  | record fields => fieldsAreData_keptFields fields

private theorem itemsAreData_keptItems : (items : List (Value φ)) → itemsAreData
    (keptItems items) = true
  | [] => rfl
  | v :: items => by
    rw [keptItems, itemsAreData, isData_kept v, itemsAreData_keptItems items, Bool.and_self]

private theorem fieldsAreData_keptFields :
    (fields : List (String × Value φ)) → fieldsAreData (keptFields fields) = true
  | [] => rfl
  | (_, v) :: fields => by
    rw [keptFields, fieldsAreData, isData_kept v, fieldsAreData_keptFields fields, Bool.and_self]

end

mutual

/-- What is kept holds finite numbers only. -/
private theorem isFinite_kept : (v : Value φ) → v.kept.isFinite = true
  | null | bool _ | string _ | function _ => rfl
  | number x => by
    rw [kept]
    split
    · assumption
    · rfl
  | array items => itemsAreFinite_keptItems items
  | record fields => fieldsAreFinite_keptFields fields

private theorem itemsAreFinite_keptItems :
    (items : List (Value φ)) → itemsAreFinite (keptItems items) = true
  | [] => rfl
  | v :: items => by
    rw [keptItems, itemsAreFinite, isFinite_kept v, itemsAreFinite_keptItems items, Bool.and_self]

private theorem fieldsAreFinite_keptFields :
    (fields : List (String × Value φ)) → fieldsAreFinite (keptFields fields) = true
  | [] => rfl
  | (_, v) :: fields => by
    rw [keptFields, fieldsAreFinite, isFinite_kept v, fieldsAreFinite_keptFields fields,
      Bool.and_self]

end

mutual

/-- A value without functions and with finite numbers only is kept as it is. -/
private theorem kept_eq_self :
    (v : Value φ) → v.isData = true → v.isFinite = true → v.kept = v
  | null, _, _ | bool _, _, _ | string _, _, _ => rfl
  | number _, _, hfinite => if_pos hfinite
  | array items, hdata, hfinite => congrArg array (keptItems_eq_self items hdata hfinite)
  | record fields, hdata, hfinite => congrArg record (keptFields_eq_self fields hdata hfinite)
  | function _, hdata, _ => nomatch hdata

private theorem keptItems_eq_self : (items : List (Value φ)) → itemsAreData items = true →
    itemsAreFinite items = true → keptItems items = items
  | [], _, _ => rfl
  | v :: items, hdata, hfinite => by
    obtain ⟨hv, hitems⟩ := Bool.and_eq_true_iff.1 hdata
    obtain ⟨hv', hitems'⟩ := Bool.and_eq_true_iff.1 hfinite
    rw [keptItems, kept_eq_self v hv hv', keptItems_eq_self items hitems hitems']

private theorem keptFields_eq_self :
    (fields : List (String × Value φ)) → fieldsAreData fields = true →
    fieldsAreFinite fields = true → keptFields fields = fields
  | [], _, _ => rfl
  | (_, v) :: fields, hdata, hfinite => by
    obtain ⟨hv, hfields⟩ := Bool.and_eq_true_iff.1 hdata
    obtain ⟨hv', hfields'⟩ := Bool.and_eq_true_iff.1 hfinite
    rw [keptFields, kept_eq_self v hv hv', keptFields_eq_self fields hfields hfields']

end

theorem kept_eq_self_iff {v : Value φ} :
    v.kept = v ↔ v.isData = true ∧ v.isFinite = true := by
  constructor
  · intro h
    rw [← h]
    exact ⟨isData_kept v, isFinite_kept v⟩
  · rintro ⟨hdata, hfinite⟩
    exact kept_eq_self v hdata hfinite

/-- The item or the field of a value to which a number or a name leads. -/
def within? (v : Value φ) : Nat ⊕ String → Option (Value φ)
  | .inl i => v.items?.bind fun items => items[i]?
  | .inr key => v.get? key

/-- What stands in a value, at any depth, where item numbers and field names lead. -/
def at? (v : Value φ) (steps : List (Nat ⊕ String)) : Option (Value φ) := steps.foldlM within? v

private theorem getElem?_keptItems (items : List (Value φ)) (i : Nat) :
    (keptItems items)[i]? = items[i]?.map kept := by
  induction items generalizing i with
  | nil => rfl
  | cons v items ih =>
    cases i with
    | zero => rfl
    | succ i => exact ih i

private theorem lookup_keptFields (fields : List (String × Value φ)) (key : String) :
    (keptFields fields).lookup key = (fields.lookup key).map kept := by
  induction fields with
  | nil => rfl
  | cons field fields ih =>
    obtain ⟨name, v⟩ := field
    rw [keptFields, List.lookup_cons, List.lookup_cons]
    cases key == name with
    | true => rfl
    | false => exact ih

private theorem within?_kept (v : Value φ) (step : Nat ⊕ String) :
    v.kept.within? step = (v.within? step).map kept := by
  cases v with
  | array items =>
    cases step with
    | inl i => exact getElem?_keptItems items i
    | inr key => rfl
  | record fields =>
    cases step with
    | inl i => rfl
    | inr key => exact lookup_keptFields fields key
  | number x =>
    rw [kept]
    split <;> cases step <;> rfl
  | _ => cases step <;> rfl

/-- The places are the same, and at each stands what is kept of what stood there. -/
private theorem at?_kept (v : Value φ) (steps : List (Nat ⊕ String)) :
    v.kept.at? steps = (v.at? steps).map kept := by
  induction steps generalizing v with
  | nil => rfl
  | cons step steps ih =>
    simp only [at?, List.foldlM_cons, within?_kept]
    cases v.within? step with
    | none => rfl
    | some w => exact ih w

mutual

/-- What comes back from JSON is what is kept. -/
theorem ofJson_toJson : (v : Value φ) → (ofJson v.toJson : Value φ) = v.kept
  | null | bool _ | string _ | function _ => rfl
  | number x => by
    rw [toJson, kept]
    split <;> rfl
  | array items => congrArg array (ofJsonItems_toJsonItems items)
  | record fields => congrArg record (ofJsonFields_toJsonFields fields)

theorem ofJsonItems_toJsonItems :
    (items : List (Value φ)) → (ofJsonItems (toJsonItems items) : List (Value φ)) = keptItems items
  | [] => rfl
  | v :: items => by
    rw [toJsonItems, ofJsonItems, ofJson_toJson v, ofJsonItems_toJsonItems items, keptItems]

theorem ofJsonFields_toJsonFields : (fields : List (String × Value φ)) →
    (ofJsonFields (toJsonFields fields) : List (String × Value φ)) = keptFields fields
  | [] => rfl
  | (_, v) :: fields => by
    rw [toJsonFields, ofJsonFields, ofJson_toJson v, ofJsonFields_toJsonFields fields, keptFields]

end

/-- **The round trip through JSON.** Functions and numbers that are not finite come back as null,
and all else as it was. So exactly the data without them comes back whole, and a second round trip
changes nothing. -/
theorem json_roundTrip (v : Value φ) :
    (ofJson v.toJson : Value φ) = v.kept ∧
      (∀ steps, (ofJson v.toJson : Value φ).at? steps = (v.at? steps).map kept) ∧
      ((ofJson v.toJson : Value φ) = v ↔ v.isData = true ∧ v.isFinite = true) ∧
      (ofJson (ofJson v.toJson : Value φ).toJson : Value φ) = ofJson v.toJson := by
  refine ⟨ofJson_toJson v, fun steps => ?_, ?_, ?_⟩
  · rw [ofJson_toJson, at?_kept]
  · rw [ofJson_toJson, kept_eq_self_iff]
  · rw [ofJson_toJson, ofJson_toJson, kept_eq_self v.kept (isData_kept v) (isFinite_kept v)]

example : (ofJson (toJson (record [("a", array [number 1, number (0 / 0)]), ("f", function ())])) :
    Value Unit) = record [("a", array [number 1, null]), ("f", null)] := rfl

end TextTemplate.Value
