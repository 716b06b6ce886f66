import TextTemplate.Error

/-!
Settings of a render, and layers that set some of them. Laying a layer over settings changes what
the layer sets and keeps the rest. The delimiters, the marks a tag stands between, are usable when
neither is empty and they differ.
-/
namespace TextTemplate

structure Delimiters where
  opening : String
  closing : String
  deriving DecidableEq, Repr

namespace Delimiters

def default : Delimiters := ⟨"\x7b\x7b", "\x7d\x7d"⟩

def validate (d : Delimiters) : Except TemplateError Unit :=
  if d.opening.isEmpty || d.closing.isEmpty then
    .error (.config "delimiters must not be empty" none)
  else if d.opening = d.closing then
    let detail := "opening and closing delimiters must differ (both '" ++ d.opening ++ "')"
    .error (.config detail none)
  else .ok ()

end Delimiters

structure Settings where
  /-- A bound function that fails is an error instead of empty text. -/
  errorOnFuncFailure : Bool
  /-- Sections take the number zero for something that holds. -/
  evalZeroAsTrue : Bool
  /-- Every value is escaped for HTML. -/
  escapeAll : Bool
  /-- A key or an included template that is missing is an error. -/
  errorOnMissingTags : Bool
  delimiters : Delimiters
  deriving DecidableEq, Repr

structure Layer where
  errorOnFuncFailure : Option Bool
  evalZeroAsTrue : Option Bool
  escapeAll : Option Bool
  errorOnMissingTags : Option Bool
  delimiters : Option Delimiters
  deriving DecidableEq, Repr

def Layer.empty : Layer := ⟨none, none, none, none, none⟩

namespace Settings

def default : Settings := ⟨false, false, false, false, Delimiters.default⟩

def merge (s : Settings) (layer : Layer) : Settings where
  errorOnFuncFailure := layer.errorOnFuncFailure.getD s.errorOnFuncFailure
  evalZeroAsTrue := layer.evalZeroAsTrue.getD s.evalZeroAsTrue
  escapeAll := layer.escapeAll.getD s.escapeAll
  errorOnMissingTags := layer.errorOnMissingTags.getD s.errorOnMissingTags
  delimiters := layer.delimiters.getD s.delimiters

def validate (s : Settings) : Except TemplateError Unit := s.delimiters.validate

/-- The layer that sets everything to these settings. -/
def toLayer (s : Settings) : Layer :=
  ⟨s.errorOnFuncFailure, s.evalZeroAsTrue, s.escapeAll, s.errorOnMissingTags, s.delimiters⟩

@[simp] theorem merge_empty (s : Settings) : s.merge Layer.empty = s := rfl

@[simp] theorem merge_toLayer (s t : Settings) : s.merge t.toLayer = t := rfl

end Settings

end TextTemplate
