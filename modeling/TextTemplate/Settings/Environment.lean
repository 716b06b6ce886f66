import TextTemplate.Settings
import TextTemplate.Text.Characters

/-!
Settings from environment variables: four flags, and a pair of delimiters with blanks between them.
-/
namespace TextTemplate

namespace Variable

def errorOnFuncFailure : String := "TEMPLATIZE_ERROR_ON_FUNC_FAILURE"

def evalZeroAsTrue : String := "TEMPLATIZE_EVAL_ZERO_AS_TRUE"

def escapeAll : String := "TEMPLATIZE_ESCAPE_ALL"

def errorOnMissingTags : String := "TEMPLATIZE_ERROR_ON_MISSING_TAGS"

def delimiters : String := "TEMPLATIZE_DELIMITERS"

/-- A flag in words, without regard to case and blanks around it. -/
def readFlag (name raw : String) : Except TemplateError Bool :=
  let word := String.ofList ((Text.trim raw.toList).map Char.toLower)
  if word = "true" ∨ word = "1" ∨ word = "yes" then .ok true
  else if word = "false" ∨ word = "0" ∨ word = "no" then .ok false
  else .error (.config ("Invalid " ++ name ++ " value '" ++ raw ++ "'") none)

/-- The flag a variable holds, when it is set. -/
def flag? (lookup : String → Option String) (name : String) : Except TemplateError (Option Bool) :=
  match lookup name with
  | none => .ok none
  | some raw => (readFlag name raw).map some

def readDelimiters (raw : String) : Except TemplateError Delimiters :=
  match Text.words raw.toList with
  | [opening, closing] => .ok ⟨String.ofList opening, String.ofList closing⟩
  | _ =>
    .error (.config ("Invalid " ++ delimiters ++ " value '" ++ raw ++
      "': expected \"<open> <close>\"") none)

end Variable

/-- The layer set by the environment. The flags are read first, in order, then the delimiters. -/
def Layer.ofEnvironment (lookup : String → Option String) : Except TemplateError Layer := do
  let errorOnFuncFailure ← Variable.flag? lookup Variable.errorOnFuncFailure
  let evalZeroAsTrue ← Variable.flag? lookup Variable.evalZeroAsTrue
  let escapeAll ← Variable.flag? lookup Variable.escapeAll
  let errorOnMissingTags ← Variable.flag? lookup Variable.errorOnMissingTags
  let delimiters ← match lookup Variable.delimiters with
    | none => pure none
    | some raw => (Variable.readDelimiters raw).map some
  return { errorOnFuncFailure, evalZeroAsTrue, escapeAll, errorOnMissingTags, delimiters }

end TextTemplate
