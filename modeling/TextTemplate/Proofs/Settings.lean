import TextTemplate.Settings.Sources
import Mathlib.Data.List.Forall2

/-!
Settings from several sources. What a source sets is told setting by setting. The outcome has, for
each setting, what the last source that sets it gives, and only the outcome has to be usable.
-/
namespace TextTemplate

namespace Setting

/-- The values a setting can have. -/
abbrev Holds : Setting → Type
  | delimiters => Delimiters
  | _ => Bool

def inSettings : (setting : Setting) → Settings → setting.Holds
  | errorOnFuncFailure, s => s.errorOnFuncFailure
  | evalZeroAsTrue, s => s.evalZeroAsTrue
  | escapeAll, s => s.escapeAll
  | errorOnMissingTags, s => s.errorOnMissingTags
  | delimiters, s => s.delimiters

def inLayer : (setting : Setting) → Layer → Option setting.Holds
  | errorOnFuncFailure, l => l.errorOnFuncFailure
  | evalZeroAsTrue, l => l.evalZeroAsTrue
  | escapeAll, l => l.escapeAll
  | errorOnMissingTags, l => l.errorOnMissingTags
  | delimiters, l => l.delimiters

/-- The environment variable for a setting. -/
def variableName : Setting → String
  | errorOnFuncFailure => Variable.errorOnFuncFailure
  | evalZeroAsTrue => Variable.evalZeroAsTrue
  | escapeAll => Variable.escapeAll
  | errorOnMissingTags => Variable.errorOnMissingTags
  | delimiters => Variable.delimiters

/-- Reads the text of the variable. -/
def readVariable : (setting : Setting) → String → Except TemplateError setting.Holds
  | errorOnFuncFailure, raw => Variable.readFlag Variable.errorOnFuncFailure raw
  | evalZeroAsTrue, raw => Variable.readFlag Variable.evalZeroAsTrue raw
  | escapeAll, raw => Variable.readFlag Variable.escapeAll raw
  | errorOnMissingTags, raw => Variable.readFlag Variable.errorOnMissingTags raw
  | delimiters, raw => Variable.readDelimiters raw

/-- A layer's value for a setting when the variable has the text, or is not set. -/
def FromVariable (setting : Setting) (layer : Layer) : Option String → Prop
  | none => setting.inLayer layer = none
  | some raw => ∃ v, setting.readVariable raw = .ok v ∧ setting.inLayer layer = some v

/-- `after` is what the last of the layers that set the setting gives it. When none does, it is what
was there before. -/
inductive LastWord (setting : Setting) (before : setting.Holds) :
    (layers : List Layer) → (after : setting.Holds) → Prop where
  | set (earlier : List Layer) {later : List Layer} {layer : Layer} {v : setting.Holds}
      (sets : setting.inLayer layer = some v) (silent : ∀ l ∈ later, setting.inLayer l = none) :
      LastWord setting before (earlier ++ layer :: later) v
  | unset {layers : List Layer} (silent : ∀ l ∈ layers, setting.inLayer l = none) :
      LastWord setting before layers before

@[simp] theorem inLayer_empty (setting : Setting) : setting.inLayer .empty = none := by
  cases setting <;> rfl

@[simp] theorem inLayer_toLayer (setting : Setting) (s : Settings) :
    setting.inLayer s.toLayer = some (setting.inSettings s) := by
  cases setting <;> rfl

theorem inSettings_merge (setting : Setting) (s : Settings) (layer : Layer) :
    setting.inSettings (s.merge layer) = (setting.inLayer layer).getD (setting.inSettings s) := by
  cases setting <;> rfl

end Setting

theorem Layer.ext_setting {l m : Layer}
    (h : ∀ setting : Setting, setting.inLayer l = setting.inLayer m) : l = m := by
  obtain ⟨a, b, c, d, e⟩ := l
  obtain ⟨a', b', c', d', e'⟩ := m
  obtain rfl : a = a' := h .errorOnFuncFailure
  obtain rfl : b = b' := h .evalZeroAsTrue
  obtain rfl : c = c' := h .escapeAll
  obtain rfl : d = d' := h .errorOnMissingTags
  obtain rfl : e = e' := h .delimiters
  rfl

/-- A word said later counts more than one said before. -/
theorem Setting.LastWord.cons {setting : Setting} {before after : setting.Holds} {layer : Layer}
    {layers : List Layer}
    (h : setting.LastWord ((setting.inLayer layer).getD before) layers after) :
    setting.LastWord before (layer :: layers) after := by
  cases h with
  | set earlier sets silent => exact .set (layer :: earlier) sets silent
  | unset silent =>
    cases hset : setting.inLayer layer with
    | none =>
      refine .unset fun l hl => ?_
      rcases List.mem_cons.1 hl with rfl | hl
      · exact hset
      · exact silent l hl
    | some v => exact .set [] hset silent

theorem Settings.lastWord_foldl_merge (setting : Setting) (layers : List Layer) (s : Settings) :
    setting.LastWord (setting.inSettings s) layers (setting.inSettings (layers.foldl merge s)) := by
  induction layers generalizing s with
  | nil => exact .unset nofun
  | cons layer layers ih =>
    have hrest := ih (s.merge layer)
    rw [Setting.inSettings_merge] at hrest
    exact hrest.cons

/-- The layer is what is read from a file. A file that is not there sets nothing. -/
def Layer.FromFile (read : FileFormat → String → Option Layer) (path : String) (l : Layer) :
    FileState → Prop
  | .missing => ∀ setting : Setting, setting.inLayer l = none
  | .unreadable => False
  | .text content => read (FileFormat.ofPath path) content = some l

/-- The layer is what the source sets. -/
def Source.Sets (around : Surroundings) : Source → Layer → Prop
  | file path, l => l.FromFile around.read path (around.file path)
  | environment, l =>
    ∀ setting : Setting, setting.FromVariable l (around.environment setting.variableName)
  | layer m, l => l = m
  | defaults, l => ∀ setting : Setting, setting.inLayer l = some (setting.inSettings .default)

namespace Setting

/-- What the environment holds for a setting. -/
def fetch (lookup : String → Option String) (setting : Setting) :
    Except TemplateError (Option setting.Holds) :=
  match lookup setting.variableName with
  | none => .ok none
  | some raw => (setting.readVariable raw).map some

private theorem fetch_eq_ok_iff {lookup : String → Option String} {setting : Setting}
    {layer : Layer} :
    setting.fetch lookup = .ok (setting.inLayer layer) ↔
      setting.FromVariable layer (lookup setting.variableName) := by
  rw [fetch]
  cases lookup setting.variableName with
  | none => exact ⟨fun h => (Except.ok.inj h).symm, fun h => congrArg Except.ok h.symm⟩
  | some raw =>
    cases hread : setting.readVariable raw with
    | error e => simp [FromVariable, hread, Except.map]
    | ok v => simp [FromVariable, hread, Except.map, eq_comm]

end Setting

theorem Layer.ofEnvironment_eq (lookup : String → Option String) : ofEnvironment lookup = do
    let errorOnFuncFailure ← Setting.errorOnFuncFailure.fetch lookup
    let evalZeroAsTrue ← Setting.evalZeroAsTrue.fetch lookup
    let escapeAll ← Setting.escapeAll.fetch lookup
    let errorOnMissingTags ← Setting.errorOnMissingTags.fetch lookup
    let delimiters ← Setting.delimiters.fetch lookup
    return { errorOnFuncFailure, evalZeroAsTrue, escapeAll, errorOnMissingTags, delimiters } := by
  have hlast : Setting.delimiters.fetch lookup = match lookup Variable.delimiters with
      | none => pure none
      | some raw => (Variable.readDelimiters raw).map some := rfl
  rw [hlast, ofEnvironment]
  cases lookup Variable.delimiters <;> rfl

private theorem Layer.ofEnvironment_eq_ok_iff {lookup : String → Option String} {l : Layer} :
    ofEnvironment lookup = .ok l ↔
      ∀ setting : Setting, setting.FromVariable l (lookup setting.variableName) := by
  simp only [ofEnvironment_eq, bind_eq_ok_iff, ← Setting.fetch_eq_ok_iff]
  constructor
  · rintro ⟨a, ha, b, hb, c, hc, d, hd, e, he, hl⟩ setting
    obtain rfl := Except.ok.inj hl
    cases setting <;> assumption
  · intro h
    exact ⟨_, h .errorOnFuncFailure, _, h .evalZeroAsTrue, _, h .escapeAll, _,
      h .errorOnMissingTags, _, h .delimiters, rfl⟩

private theorem Layer.ofFile_eq_ok_iff {read : FileFormat → String → Option Layer} {path : String}
    {state : FileState} {l : Layer} :
    ofFile path state read = .ok l ↔ l.FromFile read path state := by
  cases state with
  | missing =>
    constructor
    · rintro ⟨⟩ setting
      exact setting.inLayer_empty
    · intro hsilent
      refine congrArg Except.ok (ext_setting fun setting => ?_)
      rw [hsilent setting, setting.inLayer_empty]
  | unreadable =>
    constructor
    · rintro ⟨⟩
    · exact False.elim
  | text content =>
    rw [ofFile, FromFile]
    cases hread : read (FileFormat.ofPath path) content with
    | none =>
      constructor
      · rintro ⟨⟩
      · rintro ⟨⟩
    | some m => exact ⟨fun h => congrArg some (Except.ok.inj h), fun h => by rw [Option.some.inj h]⟩

/-- A source loads just when there is a layer that it sets, and loads that layer. -/
private theorem Source.load_eq_ok_iff {around : Surroundings} {source : Source} {l : Layer} :
    source.load around = .ok l ↔ source.Sets around l := by
  cases source with
  | file path => exact Layer.ofFile_eq_ok_iff
  | environment => exact Layer.ofEnvironment_eq_ok_iff
  | layer m => exact ⟨fun h => (Except.ok.inj h).symm, fun h => congrArg Except.ok h.symm⟩
  | defaults =>
    constructor
    · rintro ⟨⟩ setting
      exact setting.inLayer_toLayer .default
    · intro hall
      refine congrArg Except.ok (Layer.ext_setting fun setting => ?_)
      rw [hall setting, setting.inLayer_toLayer]

namespace Settings

section Rows

variable {around : Surroundings} {sources earlier later : List Source} {source : Source}
  {layers : List Layer} {s : Settings} {e : TemplateError}

/-- Sources may be laid over settings in two goes. -/
private theorem mergeSources_append (around : Surroundings) (s : Settings)
    (first second : List Source) :
    mergeSources around s (first ++ second) =
      (mergeSources around s first).bind fun merged => mergeSources around merged second := by
  induction first generalizing s with
  | nil => rfl
  | cons source first ih =>
    rw [List.cons_append, mergeSources, mergeSources]
    cases source.load around with
    | error e => rfl
    | ok layer => exact ih (s.merge layer)

private theorem mergeSources_of_sets (h : List.Forall₂ (Source.Sets around) sources layers) :
    mergeSources around s sources = .ok (layers.foldl merge s) := by
  induction h generalizing s with
  | nil => rfl
  | cons hsets _ ih =>
    rw [mergeSources, Source.load_eq_ok_iff.2 hsets]
    exact ih

private theorem mergeSources_of_error (hearlier : ∀ s ∈ earlier, ∃ layer, s.Sets around layer)
    (h : source.load around = .error e) :
    mergeSources around s (earlier ++ source :: later) = .error e := by
  induction earlier generalizing s with
  | nil => rw [List.nil_append, mergeSources, h]
  | cons first earlier ih =>
    obtain ⟨⟨layer, hlayer⟩, hrest⟩ := List.forall_mem_cons.1 hearlier
    rw [List.cons_append, mergeSources, Source.load_eq_ok_iff.2 hlayer]
    exact ih hrest

/-- Either every source loads, or there is a first one that does not. -/
theorem sets_or_error (around : Surroundings) (sources : List Source) :
    (∃ layers, List.Forall₂ (Source.Sets around) sources layers) ∨
      ∃ earlier source later e, sources = earlier ++ source :: later ∧
        (∀ s ∈ earlier, ∃ layer, s.Sets around layer) ∧ source.load around = .error e := by
  induction sources with
  | nil => exact .inl ⟨[], .nil⟩
  | cons source sources ih =>
    cases hload : source.load around with
    | error e => exact .inr ⟨[], source, sources, e, rfl, nofun, hload⟩
    | ok layer =>
      have hsets := Source.load_eq_ok_iff.1 hload
      rcases ih with ⟨layers, hlayers⟩ | ⟨earlier, failing, later, e, rfl, hearlier, hfails⟩
      · exact .inl ⟨layer :: layers, .cons hsets hlayers⟩
      · refine .inr ⟨source :: earlier, failing, later, e, rfl, ?_, hfails⟩
        exact List.forall_mem_cons.2 ⟨⟨layer, hsets⟩, hearlier⟩

end Rows

/-- Settings cannot be used when a delimiter is empty or both are the same. -/
private theorem validate_eq_error_iff {s : Settings} : (∃ e, s.validate = .error e) ↔
    s.delimiters.opening = "" ∨ s.delimiters.closing = "" ∨
      s.delimiters.opening = s.delimiters.closing := by
  simp only [validate, Delimiters.validate, Bool.or_eq_true, String.isEmpty_iff]
  rw [← or_assoc]
  split
  · simp_all
  · split <;> simp_all

/-- **The last word counts.** Loading fails with the error of the first source that does not load.
When all sources load, each setting of the outcome is what the last source that sets it gives, or
the default, and loading fails exactly when the delimiters of the outcome cannot be used. Sources
may be merged in two goes. -/
theorem load_lastWord (around : Surroundings) (sources : List Source) :
    ((∃ earlier source later e, sources = earlier ++ source :: later ∧
        (∀ s ∈ earlier, ∃ layer, s.Sets around layer) ∧
        (∀ layer, ¬ source.Sets around layer) ∧
        source.load around = .error e ∧ load around sources = .error e) ∨
      ∃ layers merged, List.Forall₂ (Source.Sets around) sources layers ∧
        mergeSources around default sources = .ok merged ∧
        (∀ setting : Setting, setting.LastWord (setting.inSettings default) layers
          (setting.inSettings merged)) ∧
        load around sources = merged.validate.map (fun _ => merged) ∧
        ((∃ e, load around sources = .error e) ↔
          merged.delimiters.opening = "" ∨ merged.delimiters.closing = "" ∨
            merged.delimiters.opening = merged.delimiters.closing)) ∧
    ∀ first second, mergeSources around default (first ++ second) =
      (mergeSources around default first).bind fun merged => mergeSources around merged second := by
  refine ⟨?_, mergeSources_append around default⟩
  rcases sets_or_error around sources with
    ⟨layers, hlayers⟩ | ⟨earlier, source, later, e, rfl, hearlier, hfails⟩
  · right
    have hmerged := mergeSources_of_sets (s := default) hlayers
    have hload : load around sources =
        (layers.foldl merge default).validate.map fun _ => layers.foldl merge default := by
      rw [load, hmerged]
      rfl
    refine ⟨layers, layers.foldl merge default, hlayers, hmerged,
      fun setting => lastWord_foldl_merge setting layers default, hload, ?_⟩
    rw [hload, ← validate_eq_error_iff]
    cases (layers.foldl merge default).validate <;> simp [Except.map]
  · left
    refine ⟨earlier, source, later, e, rfl, hearlier, fun layer hsets => ?_, hfails, ?_⟩
    · cases hfails.symm.trans (Source.load_eq_ok_iff.2 hsets)
    · rw [load, mergeSources_of_error hearlier hfails]
      rfl

/-- Delimiters that cannot be used do no harm when a later source sets others. -/
example (around : Surroundings) :
    load around [.layer { Layer.empty with delimiters := some ⟨"##", "##"⟩ }, .defaults] =
      .ok default := rfl

end Settings

end TextTemplate
