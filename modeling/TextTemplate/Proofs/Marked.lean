import TextTemplate.Proofs.Inclusions
import TextTemplate.Proofs.Marked.Passes
import TextTemplate.Proofs.Scope.Growth

/-!
Escaping everything and escaping every tag. The setting is looked at where a tag is put out, and so is
the mark on the tag, which goes with it through both passes. So a template without links renders under
the setting as it does without, once each of its tags and of those it includes has the mark.
-/
namespace TextTemplate
variable {φ : Type}

open TemplateError (Reworded)

/-- Nothing that goes wrong inside a nested run gets out. -/
private theorem alike_nested {E E' : TemplateError → TemplateError → Prop}
    {body body' : Run φ String}
    (h : Alike E Eq body body') (tree : ScopeTree φ) :
    Alike E' Eq (Run.nested tree body) (Run.nested tree body') := by
  intro s
  have hs := h ⟨tree, s.calls⟩
  simp only [Run.nested]
  cases hbody : body ⟨tree, s.calls⟩ with
  | ok text inner =>
    rw [hbody] at hs
    obtain ⟨_, hbody', rfl⟩ := hs
    rw [hbody']
    exact ⟨_, rfl, rfl⟩
  | error e inner =>
    rw [hbody] at hs
    obtain ⟨_, hbody', -⟩ := hs
    rw [hbody']
    exact ⟨_, rfl, rfl⟩

section Renders

variable {rename : Tag → String} {env : Env φ} {E : TemplateError → TemplateError → Prop}

theorem Template.Unlinked.marks {template : Template} (h : template.Unlinked)
    (hE : ∀ tag ∈ template.tags, ∀ e e', Reworded tag.raw (rename tag) e e' → E e e') :
    Node.EveryTag (Tag.Marks rename E) template.nodes :=
  Node.everyTag_allTags template.nodes fun tag ht => ⟨h tag ht, hE tag ht⟩

variable (hall : env.settings.escapeAll = true)
  (hp : ∀ entry ∈ env.templates, entry.2.Unlinked)
include hall hp

private theorem alike_includeText (levels : Nat) {E : TemplateError → TemplateError → Prop}
    (hE : ∀ e, E e e) (i : Inclusion) (scope : ScopeId) :
    Alike E Eq (Run.includeText env levels i scope)
      (Run.includeText (env.marked rename) levels i scope) := by
  have hlookup : (env.marked rename).templates.lookup i.key.text =
      (env.templates.lookup i.key.text).map (Template.marked rename) :=
    Template.lookup_allMarked rename env.templates i.key.text
  cases hl : env.templates.lookup i.key.text with
  | none =>
    rw [hl] at hlookup
    rw [Run.includeText_none hl, Run.includeText_none hlookup]
    exact .refl hE (Run.notThere env i)
  | some template =>
    rw [hl] at hlookup
    cases levels with
    | zero =>
      rw [Run.includeText_zero hl, Run.includeText_zero hlookup]
      exact .pure rfl
    | succ levels =>
      have hunlinked : template.Unlinked := hp (i.key.text, template) (ScopeTree.mem_of_lookup hl)
      have hincluded : ∀ start, Alike E Eq (Run.included env levels i template start)
          (Run.included (env.marked rename) levels i (template.marked rename) start) := by
        intro start
        -- errors inside are not told apart
        have hlevel : Alike (fun _ _ => True) Eq
            (Run.renderNodes env (Run.includeText env levels) start.1 template.nodes)
            (Run.renderNodes (env.marked rename) (Run.includeText (env.marked rename) levels)
              start.1 (Node.allMarked rename template.nodes)) :=
          alike_renderNodes hall (fun _ => trivial)
            (alike_includeText levels fun _ => trivial) start.1
            (hunlinked.marks fun _ _ _ _ _ => trivial)
        exact (alike_nested hlevel start.2).andThen fun text => .refl hE _
      rw [Run.includeText_succ hl, Run.includeText_succ hlookup]
      refine .look fun t => ?_
      split
      · exact .step hE (Run.value env.host (env.policy i.raw) scope) fun v =>
          .look fun t' => hincluded _
      · exact hincluded _

private theorem alike_render (hE : ∀ e, E e e) {template : Template}
    (h : Node.EveryTag (Tag.Marks rename E) template.nodes) :
    Alike E Eq (Run.render env template)
      (Run.render (env.marked rename) (template.marked rename)) :=
  alike_renderNodes hall hE (alike_includeText hall hp maxPartialDepth hE) ScopeTree.root h

end Renders

section Options

variable (rename : Tag → String)

/-- The partial in its parsed form, with marks. One that does not parse stays as it is. -/
def Partial.marked (delimiters : Delimiters) (name : String) (p : Partial) : Partial :=
  match p.compile delimiters name with
  | .ok template => .compiled (template.marked rename)
  | .error _ => p

theorem Partial.compile_marked (delimiters : Delimiters) (name : String) (p : Partial) :
    (p.marked rename delimiters name).compile delimiters name =
      (p.compile delimiters name).map (Template.marked rename) := by
  rw [Partial.marked]
  cases hp : p.compile delimiters name with
  | ok template => rfl
  | error e => exact hp

/-- The options of the marked template: not everything is escaped, but the partials are marked. -/
def RenderOptions.marked (options : RenderOptions) : RenderOptions :=
  { options with
    escapeAll := false
    partials := options.partials.map fun (name, p) =>
      (name, p.marked rename options.delimiters name) }

theorem RenderOptions.compilePartials_marked (options : RenderOptions) :
    (options.marked rename).compilePartials =
      options.compilePartials.map (Template.allMarked rename) := by
  have hpartials : (options.marked rename).compilePartials = options.partials.mapM fun (name, p) =>
      ((p.compile options.delimiters name).map (Template.marked rename)).map fun t => (name, t) := by
    rw [compilePartials, marked, List.mapM_map]
    refine congrArg (List.mapM · options.partials) (funext fun (name, p) => ?_)
    exact congrArg (Except.map _) (Partial.compile_marked rename options.delimiters name p)
  rw [hpartials, compilePartials]
  induction options.partials with
  | nil => rfl
  | cons entry partials ih =>
    obtain ⟨name, p⟩ := entry
    rw [List.mapM_cons, List.mapM_cons, ih]
    dsimp only
    cases p.compile options.delimiters name with
    | error e => rfl
    | ok template =>
      cases List.mapM (m := Except TemplateError) _ partials with
      | error e => rfl
      | ok templates => rfl

end Options

namespace Template

/-- The second result is the first, but an error may have a tag as `rename` writes it. -/
inductive SameBut (rename : Tag → String) (tags : List Tag) :
    Except TemplateError String → Except TemplateError String → Prop
  | same (result : Except TemplateError String) : SameBut rename tags result result
  | tag {tag : Tag} {e : TemplateError} (mem : tag ∈ tags) (about : e.raw? = some tag.raw) :
    SameBut rename tags (.error e) (.error (e.withRaw (rename tag)))

theorem SameBut.eq {rename : Tag → String} {tags : List Tag} {r r' : Except TemplateError String}
    (h : SameBut rename tags r r') (hsame : ∀ tag ∈ tags, rename tag = tag.raw) : r' = r := by
  cases h with
  | same => rfl
  | tag mem about => rw [hsame _ mem, TemplateError.withRaw_of_raw about]

/-- What comes of a run. -/
def outcome : EStateM.Result TemplateError (Session φ) String → Outcome φ
  | .ok text s => ⟨.ok text, s.calls.reverse⟩
  | .error e s => ⟨.error e, s.calls.reverse⟩

theorem render_of_compiled (host : Host φ) (template : Template) (data : Value φ)
    {options : RenderOptions} {templates : List (String × Template)}
    (h : options.compilePartials = .ok templates) :
    template.render host data options =
      outcome (Run.render ⟨host, options.toSettings, options.numbers, templates⟩ template
        (.start data)) := by
  rw [render, h]
  dsimp only
  cases Run.render ⟨host, options.toSettings, options.numbers, templates⟩ template (.start data) with
  | ok text s => rfl
  | error e s => rfl

theorem outcome_of_alike {rename : Tag → String} {tags : List Tag} {m m' : Run φ String}
    (h : Alike (fun e e' => SameBut rename tags (.error e) (.error e')) Eq m m') (s : Session φ) :
    (outcome (m' s)).calls = (outcome (m s)).calls ∧
      SameBut rename tags (outcome (m s)).result (outcome (m' s)).result := by
  have hs := h s
  cases hm : m s with
  | ok text t =>
    rw [hm] at hs
    obtain ⟨_, hm', rfl⟩ := hs
    rw [hm']
    exact ⟨rfl, .same _⟩
  | error e t =>
    rw [hm] at hs
    obtain ⟨e', hm', he⟩ := hs
    rw [hm']
    exact ⟨rfl, he⟩

/-- **Escaping everything is marking every tag.** A template without links, rendered with everything
escaped, renders like the template with a mark on every tag in it and in the partials: to the same
text or error, with the same calls. Where the marked tags are written differently, so are they in
errors. -/
theorem render_marked (host : Host φ) {template : Template} {options : RenderOptions}
    (hu : template.Unlinked)
    (hp : ∀ templates, options.compilePartials = .ok templates →
      ∀ entry ∈ templates, entry.2.Unlinked)
    (data : Value φ) (rename : Tag → String) :
    let plain := template.render host data { options with escapeAll := true }
    let marked := (template.marked rename).render host data (options.marked rename)
    marked.calls = plain.calls ∧ SameBut rename template.tags plain.result marked.result ∧
      ((∀ tag ∈ template.tags, rename tag = tag.raw) → marked = plain) := by
  intro plain marked
  suffices h : marked.calls = plain.calls ∧
      SameBut rename template.tags plain.result marked.result by
    refine ⟨h.1, h.2, fun hsame => ?_⟩
    have hresult : marked.result = plain.result := h.2.eq hsame
    exact (Outcome.mk.injEq ..).mpr ⟨hresult, h.1⟩
  have hcompile : RenderOptions.compilePartials { options with escapeAll := true } =
      options.compilePartials := rfl
  have hmarked := RenderOptions.compilePartials_marked rename options
  cases hc : options.compilePartials with
  | error e =>
    rw [hc] at hcompile hmarked
    have hplain : plain = ⟨.error e, []⟩ := by simp only [plain, render, hcompile]
    have hfailed : marked = ⟨.error e, []⟩ := by
      simp only [marked, render, hmarked, Except.map]
    rw [hplain, hfailed]
    exact ⟨rfl, .same _⟩
  | ok templates =>
    rw [hc] at hcompile hmarked
    let env : Env φ :=
      ⟨host, { options.toSettings with escapeAll := true }, options.numbers, templates⟩
    have hmarks : Node.EveryTag
        (Tag.Marks rename fun e e' => SameBut rename template.tags (.error e) (.error e'))
        template.nodes :=
      hu.marks fun tag ht e e' he => by
        obtain rfl | ⟨habout, rfl⟩ := he
        · exact .same _
        · exact .tag ht habout
    have halike : Alike _ Eq (Run.render env template) _ :=
      alike_render rfl (hp templates hc) (fun e => .same _) hmarks
    have hplain : plain = outcome (Run.render env template (.start data)) :=
      render_of_compiled host template data hcompile
    have hrun : marked = outcome (Run.render (env.marked rename) (template.marked rename)
        (.start data)) := render_of_compiled host (template.marked rename) data hmarked
    rw [hplain, hrun]
    exact outcome_of_alike halike (.start data)

end Template

namespace MarkedNotes

/-- Every function gives an opening bracket. -/
def host : Host Unit := ⟨fun _ _ _ _ => .ok (.string "<")⟩

def tag (raw : String) (directive : Option Directive) (key : String) (inContext : Bool) : Node :=
  .tag ⟨raw, directive, .ofPath key inContext, [], none, false⟩

/-- The notes with their signs, then what is signed twice, once in a partial. -/
def template : Template where
  nodes := [.block ⟨⟨"\x7b\x7b#notes\x7d\x7d", some .sectionInclude, .ofPath "notes" false, [], none, false⟩,
      .ofPath "notes" false, []⟩ [tag "\x7b\x7b.text\x7d\x7d" none "text" true, .text " "],
    tag "\x7b\x7b&signs\x7d\x7d" (some .list) "signs" false, .inclusion ⟨"\x7b\x7b>end\x7d\x7d", .ofPath "end" false, none,
      false⟩]
  delimiters := .default

def options : RenderOptions :=
  { RenderOptions.default with
    partials := [("end", .compiled ⟨[tag "\x7b\x7bsign\x7d\x7d" none "sign" false], .default⟩)] }

def data : Value Unit :=
  .record [("notes", .array [.record [("text", .string "a<b")], .record [("text", .string "c&d")]]),
    ("signs", .array [.string "<x>", .string "y"]), ("sign", .function ())]

/-- The mark is put before the closing braces. -/
def rename (tag : Tag) : String := String.ofList (tag.raw.toList.dropLast.dropLast ++ [';', '}', '}'])

end MarkedNotes

open MarkedNotes in
theorem Template.render_marked_notes :
    (template.render host data { options with escapeAll := true }).result.toOption =
        some "a&lt;b c&amp;d &lt;x&gt; and y&lt;" ∧
      (template.render host data { options with escapeAll := false }).result.toOption =
        some "a<b c&d <x> and y<" ∧
      ((template.marked rename).render host data (options.marked rename)).result.toOption =
        some "a&lt;b c&amp;d &lt;x&gt; and y&lt;" ∧
      (template.marked Tag.raw).render host data (options.marked Tag.raw) =
        template.render host data { options with escapeAll := true } := by
  have hu : template.Unlinked := by
    unfold Template.Unlinked
    decide +kernel
  have hp : ∀ templates, options.compilePartials = .ok templates →
      ∀ entry ∈ templates, entry.2.Unlinked := by
    intro templates h
    obtain rfl := Except.ok.inj h
    unfold Template.Unlinked
    decide +kernel
  refine ⟨by decide +kernel, by decide +kernel, by decide +kernel, ?_⟩
  exact (Template.render_marked host hu hp data Tag.raw).2.2 fun _ _ => rfl

end TextTemplate
