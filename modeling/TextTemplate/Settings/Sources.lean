import TextTemplate.Settings.Environment
import TextTemplate.Settings.Fields
import TextTemplate.Settings.Toml
import TextTemplate.Settings.Yaml

/-!
Loading settings: sources are laid over the defaults one after another, so the last one that sets
something wins, and only the outcome has to be usable.
-/
namespace TextTemplate

/-- What stands at a path. -/
inductive FileState where
  | missing
  /-- There is something, but it is no readable text. -/
  | unreadable
  | text (content : String)
  deriving DecidableEq, Repr

inductive FileFormat where
  | toml
  | yaml
  | json
  deriving DecidableEq, Repr

namespace FileFormat

def name : FileFormat → String
  | toml => "TOML"
  | yaml => "YAML"
  | json => "JSON"

/-- The last part of a path. -/
def fileName (path : List Char) : List Char :=
  let trimmed := path.reverse.dropWhile (· == '/')
  (trimmed.takeWhile (· != '/')).reverse

/-- What follows the last dot of a file's name; a dot in front of the name starts no extension. -/
def extension? (path : String) : Option String :=
  let name := (fileName path.toList).reverse
  let tail := name.takeWhile (· != '.')
  match name.drop tail.length with
  | _ :: _ :: _ => if name = ['.', '.'] then none else some (String.ofList tail.reverse)
  | _ => none

/-- The format a file is read in; JSON unless its extension says otherwise. -/
def ofPath (path : String) : FileFormat :=
  let extension := extension? path
  if extension = some "toml" then toml
  else if extension = some "yaml" ∨ extension = some "yml" then yaml
  else json

/-- What the text of a file sets; a text that does not fit the format sets nothing at all. -/
def read? : FileFormat → String → Option Layer
  | toml, text => Layer.ofTomlText? text
  | yaml, text => Layer.ofYamlText? text
  | json, text => Layer.ofJsonText? ⟨true, false⟩ text

end FileFormat

/-- What can be looked up while settings are loaded, and what the text of a file sets in its format. -/
structure Surroundings where
  file : String → FileState
  environment : String → Option String
  read : FileFormat → String → Option Layer := FileFormat.read?

/-- The layer a file holds; a file that is not there sets nothing. -/
def Layer.ofFile (path : String) (state : FileState)
    (read : FileFormat → String → Option Layer := FileFormat.read?) : Except TemplateError Layer :=
  match state with
  | .missing => .ok .empty
  | .unreadable =>
    .error (.config "Failed to read options file" ("Reading options from '" ++ path ++ "'"))
  | .text content =>
    let format := FileFormat.ofPath path
    match read format content with
    | some layer => .ok layer
    | none =>
      .error (.config ("Failed to parse " ++ format.name ++ " options")
        ("Deserializing " ++ format.name ++ " options from '" ++ path ++ "'"))

inductive Source where
  | file (path : String)
  | environment
  | layer (layer : Layer)
  | defaults
  deriving DecidableEq, Repr

/-- The layer a source sets. -/
def Source.load (around : Surroundings) : Source → Except TemplateError Layer
  | file path => Layer.ofFile path (around.file path) around.read
  | environment => Layer.ofEnvironment around.environment
  | layer l => .ok l
  | defaults => .ok Settings.default.toLayer

namespace Settings

/-- Lays sources over settings, in order, up to the first that cannot be loaded. -/
def mergeSources (around : Surroundings) (s : Settings) :
    List Source → Except TemplateError Settings
  | [] => .ok s
  | source :: sources =>
    match source.load around with
    | .ok layer => mergeSources around (s.merge layer) sources
    | .error e => .error e

def load (around : Surroundings) (sources : List Source) : Except TemplateError Settings := do
  let s ← mergeSources around default sources
  s.validate
  return s

/-- Files looked at when no other is asked for. -/
def defaultFiles : List String := ["templatize.toml", "templatize.json"]

/-- Loads the given files, then the environment. -/
def loadFiles (around : Surroundings) (paths : List String) : Except TemplateError Settings :=
  load around (.defaults :: paths.map .file ++ [.environment])

end Settings

end TextTemplate
