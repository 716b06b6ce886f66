import TextTemplate.Settings.Fields

/-!
The tables of a TOML document. Who may add to a table depends on how it came to be.
-/
namespace TextTemplate.Toml

/-- How a table came to be, which decides who may add to it. -/
inductive Origin where
  /-- Passed through by the header of a table inside it. -/
  | implied
  /-- Opened by a header of its own. -/
  | header
  /-- Made by a dotted key. -/
  | dotted
  deriving DecidableEq

inductive Item where
  | value (e : Entry)
  | table (origin : Origin) (items : List (String × Item))
  /-- Tables under one repeated header, last first. -/
  | tables (all : List (List (String × Item)))

/-- Puts an item in the place of the one with its name, or at the end. -/
def putItem (key : String) (item : Item) : List (String × Item) → List (String × Item)
  | [] => [(key, item)]
  | (k, i) :: items => if k = key then (key, item) :: items else (k, i) :: putItem key item items

/-- Changes the table at a path of names, making tables on the way and going to the last table of
an array. -/
def changeAt? (made : Origin) (enter : Origin → Bool)
    (change : Option Origin → List (String × Item) → Option (List (String × Item))) :
    (path : List String) → (origin : Option Origin) → List (String × Item) →
      Option (List (String × Item))
  | [], origin, items => change origin items
  | key :: path, _, items =>
    match items.lookup key with
    | none => (changeAt? made enter change path (some made) []).map fun inner =>
        putItem key (.table made inner) items
    | some (.table origin inner) =>
      if enter origin then
        (changeAt? made enter change path (some origin) inner).map fun inner =>
          putItem key (.table origin inner) items
      else none
    | some (.tables (last :: before)) =>
      (changeAt? made enter change path (some .header) last).map fun last =>
        putItem key (.tables (last :: before)) items
    | some _ => none

/-- Adds a value under a dotted key. Dotted keys go only through tables made by dotted keys. -/
def addValue? (path : List String) (name : String) (e : Entry) (items : List (String × Item)) :
    Option (List (String × Item)) :=
  changeAt? .dotted (fun origin => origin != .header)
    (fun origin items =>
      if (items.lookup name).isSome || (origin.any fun origin => origin != .dotted) then none
      else some (putItem name (.value e) items)) path none items

/-- Opens the table a header names. -/
def openTable? (path : List String) (name : String) (items : List (String × Item)) :
    Option (List (String × Item)) :=
  changeAt? .implied (fun _ => true)
    (fun _ items =>
      match items.lookup name with
      | none => some (putItem name (.table .header []) items)
      | some (.table .implied inner) => some (putItem name (.table .header inner) items)
      | some _ => none) path none items

/-- Adds a table to the array a header names. -/
def openArray? (path : List String) (name : String) (items : List (String × Item)) :
    Option (List (String × Item)) :=
  changeAt? .implied (fun _ => true)
    (fun _ items =>
      match items.lookup name with
      | none => some (putItem name (.tables [[]]) items)
      | some (.tables all) => some (putItem name (.tables ([] :: all)) items)
      | some _ => none) path none items

/-- Adds a value to the table that the last header named: the one at `table`, entered through
whatever tables and arrays lead there. -/
def addUnder? (table path : List String) (name : String) (e : Entry)
    (items : List (String × Item)) : Option (List (String × Item)) :=
  changeAt? .implied (fun _ => true) (fun _ inner => addValue? path name e inner) table none items

end TextTemplate.Toml
