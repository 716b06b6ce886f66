import TextTemplate.Format
import TextTemplate.Resolution

/-!
What a resolved binding puts out: the text of a tag, and whether a section over a value is shown.
-/
namespace TextTemplate
variable {φ : Type}

/-- The record field that decides whether a section over the record is shown. -/
def displayKey : String := "_display"

/-- Whether a value counts as something that holds. -/
def Value.isTruthy (zeroIsTrue : Bool) : Value φ → Bool
  | .null => false
  | .bool b => b
  | .number x => if x == 0 then zeroIsTrue else !x.isNaN
  | .string s => !(Text.trim s.toList).isEmpty
  | .array items => !items.isEmpty
  | .record _ => true
  | .function _ => true

/-- The text of an array inside another text. -/
def Value.bracketed (v : Value φ) : String := "[" ++ v.plain ++ "]"

/-- One item of a list in running text. -/
def itemText (numbers : Number.Formatter) (format : Option String) (escape : Bool)
    (v : Value φ) : String :=
  if v.isArray then v.bracketed else formatValue numbers format escape v

/-- The text of a value at a tag. Formats apply to single values and to the items of a list. -/
def valueText (numbers : Number.Formatter) (asList : Bool) (format : Option String)
    (escape : Bool) : Value φ → String
  | .null => ""
  | .array items =>
    if asList then Text.joinList (items.map (itemText numbers format escape))
    else formatValue numbers none escape (.string (φ := φ) (Value.array items).bracketed)
  | .record fields => formatValue numbers none escape (.string (φ := φ) (Value.record fields).plain)
  | .function f => formatValue numbers none escape (.string (φ := φ) (Value.function f).plain)
  | v => formatValue numbers format escape v

/-- The text of a tag whose value is known. After a chain of functions the tag's own format has
been applied, and escaping is up to the last link first. -/
def tagText (env : Env φ) (tag : Tag) (v : Value φ) : String :=
  if tag.links.isEmpty then
    valueText env.numbers tag.isList tag.format (tag.escape || env.settings.escapeAll) v
  else
    valueText env.numbers tag.isList none (env.settings.escapeAll && !tag.outputEscaped) v

namespace Run

/-- Something that is missing is an error or nothing at all. -/
def missing (env : Env φ) (raw : String) : Run φ Unit :=
  if env.settings.errorOnMissingTags then throw (.missingBinding raw) else return

/-- Whether a section over `v` is shown. A record may decide for itself. -/
def display (env : Env φ) (inclusive : Bool) (v : Value φ) (raw : String) : Run φ Bool := do
  let holds ← match v.get? displayKey with
    | some (.function f) =>
      let root := (← tree).data ScopeTree.root
      evaluate env.host (env.policy raw) f v root
    | some flag => pure flag
    | none => pure v
  return holds.isTruthy env.settings.evalZeroAsTrue == inclusive

end Run

end TextTemplate
