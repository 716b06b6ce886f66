import TextTemplate.Json.Reader
import TextTemplate.Settings

/-!
Settings given by name or by position. All formats of option files come down to entries, which keep
of a value only what a setting can be read from.
-/
namespace TextTemplate

/-- A value in an option file. -/
inductive Entry where
  | null
  | flag (b : Bool)
  | text (s : String)
  | list (items : List Entry)
  /-- A value no setting can be read from. -/
  | other
  deriving Inhabited

namespace Entry

def ofJson : Json → Entry
  | .null => null
  | .bool b => flag b
  | .string s => text s
  | .array items => list (items.map fun
    | .string s => text s
    | _ => other)
  | _ => other

def isNull : Entry → Bool
  | null => true
  | _ => false

def flag? : Entry → Option Bool
  | flag b => some b
  | _ => none

def text? : Entry → Option String
  | text s => some s
  | _ => none

end Entry

/-- What a format accepts: null for a setting left alone, and more than two delimiters. -/
structure EntryRules where
  allowNull : Bool
  allowMore : Bool
  deriving DecidableEq, Repr

namespace EntryRules

/-- Reads an entry that may be null. -/
def optional? {α : Type} (rules : EntryRules) (read : Entry → Option α) (e : Entry) :
    Option (Option α) :=
  if rules.allowNull && e.isNull then some none else (read e).map some

def delimiters? (rules : EntryRules) : Entry → Option Delimiters
  | .list (a :: b :: more) => do
    if !more.isEmpty && !rules.allowMore then none
    return ⟨← a.text?, ← b.text?⟩
  | _ => none

end EntryRules

/-- The five settings that can be given from outside. -/
inductive Setting where
  | errorOnFuncFailure
  | evalZeroAsTrue
  | escapeAll
  | errorOnMissingTags
  | delimiters
  deriving DecidableEq, Repr

namespace Setting

/-- All settings, in the order in which they are given by position. -/
def all : List Setting :=
  [errorOnFuncFailure, evalZeroAsTrue, escapeAll, errorOnMissingTags, delimiters]

/-- The names of a setting: words joined by underscores or by capitals. -/
def names : Setting → List String
  | errorOnFuncFailure => ["error_on_func_failure", "errorOnFuncFailure"]
  | evalZeroAsTrue => ["eval_zero_as_true", "evalZeroAsTrue"]
  | escapeAll => ["escape_all", "escapeAll"]
  | errorOnMissingTags => ["error_on_missing_tags", "errorOnMissingTags"]
  | delimiters => ["delimiters"]

def ofName? (name : String) : Option Setting := all.find? fun s => s.names.contains name

end Setting

namespace Layer

/-- The layer with one setting read from an entry. -/
def give? (rules : EntryRules) (layer : Layer) (e : Entry) : Setting → Option Layer
  | .errorOnFuncFailure =>
    (rules.optional? Entry.flag? e).map fun b => { layer with errorOnFuncFailure := b }
  | .evalZeroAsTrue =>
    (rules.optional? Entry.flag? e).map fun b => { layer with evalZeroAsTrue := b }
  | .escapeAll =>
    (rules.optional? Entry.flag? e).map fun b => { layer with escapeAll := b }
  | .errorOnMissingTags =>
    (rules.optional? Entry.flag? e).map fun b => { layer with errorOnMissingTags := b }
  | .delimiters =>
    (rules.optional? rules.delimiters? e).map fun d => { layer with delimiters := d }

/-- Settings by name. Other names are skipped; no setting may be given twice, in either spelling. -/
def ofNamed? (rules : EntryRules) (fields : List (String × Entry)) : Option Layer :=
  let given := fields.filterMap fun (name, e) => (Setting.ofName? name).map fun s => (s, e)
  if (given.map Prod.fst).Nodup then
    given.foldlM (fun layer (s, e) => layer.give? rules e s) Layer.empty
  else none

/-- Settings by position; those at the end may be left out. -/
def ofPositional? (rules : EntryRules) (entries : List Entry) : Option Layer :=
  if entries.length ≤ Setting.all.length then
    (Setting.all.zip entries).foldlM (fun layer (s, e) => layer.give? rules e s) Layer.empty
  else none

/-- Reads a JSON text that holds an object or an array of settings. -/
def ofJsonText? (rules : EntryRules) (text : String) : Option Layer :=
  match Json.parseMembers? (fun name => (Setting.ofName? name).isSome) text with
  | some members => ofNamed? rules (members.map fun (name, j) => (name, Entry.ofJson j))
  | none =>
    match Json.parse? text with
    | some (.array items) => ofPositional? rules (items.map Entry.ofJson)
    | _ => none

end Layer

/-- Settings in a JSON text, laid over the defaults. Here null is no value for a setting. -/
def Settings.ofJsonText? (text : String) : Option Settings :=
  (Layer.ofJsonText? ⟨false, false⟩ text).map Settings.default.merge

end TextTemplate
