import TextTemplate.Proofs.Compositional
import TextTemplate.Proofs.Parsing
import TextTemplate.Proofs.Refinement
import TextTemplate.Proofs.Scope.Upkeep

/-!
Rendering again and again in one session. Earlier renders leave scopes, caches, read functions and
items behind, also when they fail half way. As long as functions depend on their arguments alone and
no section formats what its functions return, later renders come to what they come to in a new session.
-/
namespace TextTemplate
variable {φ : Type}

/-- What there is to see of a run: how it ends, and the tree it leaves. -/
def Run.seen {α : Type} (m : Run φ α) (s : Session φ) : Except TemplateError α × ScopeTree φ :=
  (m.ending s, (m.left s).tree)

/-- Nothing that is seen of a run hangs on the calls made before. -/
def Run.Forgetful {α : Type} (m : Run φ α) : Prop :=
  ∀ t calls calls', m.seen ⟨t, calls⟩ = m.seen ⟨t, calls'⟩

namespace Run

section Forgetful

variable {α β : Type}

theorem seen_bind (m : Run φ α) (f : α → Run φ β) (s : Session φ) :
    (m >>= f).seen s = match m.ending s with
      | .ok a => (f a).seen (m.left s)
      | .error e => (.error e, (m.left s).tree) := by
  simp only [seen, ending, left, bind, EStateM.bind]
  cases m s <;> rfl

theorem Forgetful.pure (a : α) : Forgetful (Pure.pure a : Run φ α) := fun _ _ _ => rfl

theorem Forgetful.throw (e : TemplateError) : Forgetful (MonadExcept.throw e : Run φ α) :=
  fun _ _ _ => rfl

theorem Forgetful.step (g : ScopeTree φ → α × ScopeTree φ) : Forgetful (onTree g) := fun _ _ _ => rfl

theorem Forgetful.bind {m : Run φ α} {f : α → Run φ β} (hm : Forgetful m)
    (hf : ∀ a, Forgetful (f a)) : Forgetful (m >>= f) := by
  intro t calls calls'
  obtain ⟨hend, htree⟩ := Prod.mk.inj (hm t calls calls')
  rw [seen_bind, seen_bind, hend, htree]
  cases m.ending ⟨t, calls'⟩ with
  | error e => rfl
  | ok a =>
    generalize m.left ⟨t, calls⟩ = s, m.left ⟨t, calls'⟩ = s' at htree
    obtain ⟨tree, old⟩ := s
    obtain ⟨tree', old'⟩ := s'
    cases htree
    exact hf a tree old old'

theorem Forgetful.evaluate {host : Host φ} (hpure : host.IsPure) (policy : FailurePolicy) (f : φ)
    (context root : Value φ) : Forgetful (evaluate host policy f context root) := by
  have hseen : ∀ s : Session φ, (Run.evaluate host policy f context root).seen s =
      (host.outcome policy f context root, s.tree) := by
    intro s
    rw [← Host.evaluate_fst hpure policy f context root s.calls]
    simp only [seen, ending, left, Run.evaluate]
    cases host.evaluate policy f context root s.calls with
    | mk r calls => cases r <;> rfl
  intro t calls calls'
  rw [hseen, hseen]

/-- Of a run on a tree of its own only its text is seen. -/
theorem nested_apply (tree : ScopeTree φ) (body : Run φ String) (s : Session φ) :
    nested tree body s = .ok (body.ending ⟨tree, s.calls⟩).toOption
      { s with calls := (body.left ⟨tree, s.calls⟩).calls } := by
  simp only [nested, ending, left]
  cases body ⟨tree, s.calls⟩ <;> rfl

theorem Forgetful.ending_eq {m : Run φ α} (h : Forgetful m) (t : ScopeTree φ)
    (calls calls' : List (Call φ)) : m.ending ⟨t, calls⟩ = m.ending ⟨t, calls'⟩ :=
  congrArg Prod.fst (h t calls calls')

theorem Forgetful.nested (tree : ScopeTree φ) {body : Run φ String} (h : Forgetful body) :
    Forgetful (nested tree body) := by
  have hseen : ∀ s : Session φ, (Run.nested tree body).seen s =
      (.ok (body.ending ⟨tree, s.calls⟩).toOption, s.tree) := fun s => by
    obtain ⟨hend, hleft⟩ := ending_of_ok (nested_apply tree body s)
    rw [seen, hend, hleft]
  intro t calls calls'
  rw [hseen, hseen, h.ending_eq tree calls calls']

theorem compositional_forgetful {host : Host φ} (hpure : host.IsPure) :
    Compositional host fun _ m => Forgetful m where
  pure := .pure
  throw := .throw
  bind := .bind
  step := .step
  evaluate := .evaluate hpure
  nested tree _ h := .nested tree h

end Forgetful

/-- The text of an included template by the place it is included from. All the rest is its own: it is
rendered in a new tree. -/
def includeAt (env : Env φ) (data : Value φ) :
    (levels : Nat) → Inclusion → Place φ → Except TemplateError String
  | levels, i, place => do
    match env.templates.lookup i.key.text with
    | none =>
      if env.settings.errorOnMissingTags then throw (.missingPartial i.key.text i.raw)
      return ""
    | some template =>
      match levels with
      | 0 => return ""
      | levels + 1 =>
        let (top, inner) ←
          if i.key.inContext then
            let v ← place.read env.host (env.policy i.raw)
            pure (ScopeTree.newAt data place.path v)
          else pure (ScopeTree.root, ScopeTree.new data)
        match (renderNodes env (includeText env levels) top template.nodes).ending ⟨inner, []⟩ with
        | .error _ => return ""
        | .ok text =>
          if i.format.isSome || i.escape then
            return formatValue env.numbers i.format i.escape (.string (φ := φ) text)
          else return text

variable {env : Env φ} {data : Value φ} {t : ScopeTree φ}

section Simulation

variable {I : ScopeTree φ → Prop}

/-- Whatever is in an included template, its text hangs on what it starts from alone. -/
theorem simulates_included_alone (hpure : env.host.IsPure) (levels : Nat) (i : Inclusion)
    (template : Template) (start : ScopeId × ScopeTree φ) :
    Simulates I t (included env levels i template start)
      (match (renderNodes env (includeText env levels) start.1 template.nodes).ending
          ⟨start.2, []⟩ with
        | .error _ => return ""
        | .ok text =>
          if i.format.isSome || i.escape then
            return formatValue env.numbers i.format i.escape (.string (φ := φ) text)
          else return text) fun _ a b => a = b := by
  have hforget := (compositional_forgetful hpure).renderNodes
    ((compositional_forgetful hpure).includeText levels) start.1 template.nodes
  rw [included]
  generalize renderNodes env (includeText env levels) start.1 template.nodes = body at hforget
  have hnested : Simulates I t (nested start.2 body)
      (.ok (body.ending ⟨start.2, []⟩).toOption) fun _ a b => a = b := fun s _ hs =>
    ⟨_, _, nested_apply start.2 body s, .refl _, hs, by
      rw [hforget.ending_eq start.2 s.calls []]⟩
  refine hnested.bindOk fun t' text _ _ htext => ?_
  subst htext
  cases body.ending ⟨start.2, []⟩ with
  | error e => exact .pure fun _ _ _ => rfl
  | ok text =>
    simp only [Except.toOption]
    split
    · exact .pure fun _ _ _ => rfl
    · exact .pure fun _ _ _ => rfl

theorem simulates_includeAt (hpure : env.host.IsPure)
    (hI : Readable env.host env.settings.errorOnFuncFailure I)
    (htop : ∀ {t}, I t → t.data ScopeTree.root = data) (levels : Nat) (i : Inclusion)
    {scope : ScopeId} {place : Place φ} (hp : t.Stands scope place) :
    Simulates I t (includeText env levels i scope) (includeAt env data levels i place)
      fun _ a b => a = b := by
  cases hl : env.templates.lookup i.key.text with
  | none =>
    rw [includeText_none hl, includeAt, hl]
    exact simulates_notThere i
  | some template =>
    cases levels with
    | zero =>
      rw [includeText_zero hl, includeAt, hl]
      exact .pure fun _ _ _ => rfl
    | succ levels =>
      rw [includeText_succ hl, includeAt, hl]
      refine .look fun t₁ he₁ hf₁ => ?_
      rw [htop hf₁]
      dsimp only
      split
      · refine (simulates_value hI (hp.mono he₁) i.raw).bind fun t₂ v w he₂ _ _ ⟨hv, _, _⟩ => ?_
        subst hv
        refine .look fun t₃ he₃ _ => ?_
        rw [((hp.mono he₁).mono (he₂.trans he₃)).path]
        exact simulates_included_alone hpure levels i template _
      · exact simulates_included_alone hpure levels i template _

end Simulation

theorem follows_includeAt (hpure : env.host.IsPure) (levels : Nat) :
    Includes env (fun _ => True) data (includeText env levels) (includeAt env data levels) :=
  fun _ i _ _ _ hp => simulates_includeAt hpure (readable_faithful (.inl hpure))
    (fun hf => hf.data_root) levels i hp

/-- Renders templates one after another in one session. What a render leaves there stays, also when
the render fails. -/
def renderEach (env : Env φ) : List Template → Session φ → List (Except TemplateError String)
  | [], _ => []
  | template :: rest, s =>
    (render env template).ending s :: renderEach env rest ((render env template).left s)

/-- One render: from any faithful tree it comes to what it comes to from the new one, and it leaves a
faithful tree. -/
theorem ending_render (hpure : env.host.IsPure) {template : Template}
    (hn : Node.AllSound (fun _ => True) data template.nodes) {s : Session φ}
    (hs : s.tree.Faithful env.host env.settings.errorOnFuncFailure data) :
    (render env template).ending s = outcome env template data ∧
      ((render env template).left s).tree.Faithful env.host env.settings.errorOnFuncFailure data := by
  have hfollows : ∀ s : Session φ, s.tree.Faithful env.host env.settings.errorOnFuncFailure data →
      Follows env.host env.settings.errorOnFuncFailure data s.tree (render env template) _
        fun _ a b => a = b := fun s hs =>
    follows_renderNodes (.inl hpure) (follows_includeAt hpure maxPartialDepth)
      ⟨hs.top_lt, hs.top_place⟩ hn
  have hnew := ScopeTree.faithful_new env.host env.settings.errorOnFuncFailure hs.data_value
  refine ⟨?_, (hfollows s hs).left (.refl _) hs⟩
  rw [outcome_eq_ending, (hfollows s hs).ending (.refl _) hs]
  exact ((hfollows (.start data) hnew).ending (.refl _) hnew).symm

theorem renderEach_eq (hpure : env.host.IsPure) {templates : List Template}
    (ht : ∀ template ∈ templates, Node.AllSound (fun _ => True) data template.nodes) {s : Session φ}
    (hs : s.tree.Faithful env.host env.settings.errorOnFuncFailure data) :
    renderEach env templates s = templates.map fun template => outcome env template data := by
  induction templates generalizing s with
  | nil => rfl
  | cons template rest ih =>
    obtain ⟨hend, hleft⟩ := ending_render hpure (ht template List.mem_cons_self) hs
    rw [renderEach, hend, List.map_cons, ih (fun t hm => ht t (List.mem_cons_of_mem _ hm)) hleft]

end Run

/-- Nodes without links, and without sections whose text is passed on. They may include any
templates. -/
abbrev Node.AllUnlinked : List Node → Prop :=
  EveryOf (fun t => t.links = []) (fun _ => True) fun s => s.links = [] ∧ s.passesText = false

theorem Node.AllUnlinked.sound {nodes : List Node} (h : Node.AllUnlinked nodes)
    (hf : Node.AllFormed nodes) (data : Value φ) : Node.AllSound (fun _ => True) data nodes :=
  (h.and nodes hf).imp (fun _ ht => ht.2) (fun _ _ => trivial)
    (fun _ hs => ⟨hs.2.keys, .inr ⟨rfl, rfl, by simp [Section.binding, hs.1.1]⟩⟩) nodes

/-- **A used session is as good as a new one.** Every render in a row of renders over the same data
comes to what it comes to alone. -/
theorem Run.renderEach_eq_alone {env : Env φ} (hpure : env.host.IsPure) {data : Value φ}
    (hd : data.isFunction = false) {templates : List Template}
    (ht : ∀ template ∈ templates, template.Formed ∧ Node.AllUnlinked template.nodes) :
    renderEach env templates (.start data) =
      templates.map fun template => outcome env template data :=
  renderEach_eq hpure (fun template hm => (ht template hm).2.sound (ht template hm).1 data)
    (ScopeTree.faithful_new env.host env.settings.errorOnFuncFailure hd)

namespace AfterFailure

/-- A function that gives a text; whatever is missing is an error. -/
def env : Env Unit where
  host := ⟨fun _ _ _ _ => .ok (.string "called")⟩
  settings := { Settings.default with errorOnMissingTags := true }
  numbers := Number.specFormatter
  templates := []

def data : Value Unit := .record [("f", .function ()), ("xs", .array [.string "a", .string "b"])]

def tag (path : String) : Node := .tag ⟨path, none, .ofPath path true, [], none, false⟩

/-- The tag `f`, and then a section over the items of `xs`. -/
def template (body : List Node) : Template where
  nodes := [tag "f", .block ⟨⟨"#.xs", some .sectionInclude, .ofPath "xs" true, [], none, false⟩,
    .ofPath "xs" true, []⟩ body]
  delimiters := .default

/-- No item has a field. -/
def broken : Template := template [tag "gone"]

def whole : Template := template [tag "", .text ";"]

theorem formed_tag (path : String) :
    Node.Formed (tag path) ∧ Node.Every (fun t => t.links = []) (fun _ => True)
      (fun s => s.links = [] ∧ s.passesText = false) (tag path) := by
  have hkey : (Key.ofPath path true).Formed := Key.formed_ofPath (by simp)
  exact ⟨by simpa [tag, Node.Formed, Node.Every, Binding.Formed, Binding.keys, Tag.binding] using hkey,
    rfl⟩

theorem formed_template {body : List Node} (hf : Node.AllFormed body) (hu : Node.AllUnlinked body) :
    (template body).Formed ∧ Node.AllUnlinked (template body).nodes := by
  have hkey : (Key.ofPath "xs" true).Formed := Key.formed_ofPath (by simp)
  have hhead : ∀ tag : Tag, tag.directive = some .sectionInclude →
      Section.Formed ⟨tag, .ofPath "xs" true, []⟩ := fun tag hd =>
    ⟨by simpa [Binding.Formed, Binding.keys, Section.binding] using hkey,
      fun hp => absurd hp (by simp [Section.passesText, hd])⟩
  exact ⟨⟨(formed_tag "f").1, ⟨hhead _ rfl, hf⟩, trivial⟩,
    ⟨(formed_tag "f").2, ⟨⟨rfl, rfl⟩, hu⟩, trivial⟩⟩

end AfterFailure

open AfterFailure in
/-- The first render fails at an item of the section, and leaves scopes for the second. -/
theorem Run.renderEach_eq_alone_afterFailure :
    1 < ((render env broken).left (.start data)).tree.scopes.size ∧
      (renderEach env [broken, whole] (.start data)).map Except.toOption =
        [none, some "calleda;b;"] := by
  have hbroken : (outcome env broken data).toOption = none := by decide +kernel
  have hwhole : (outcome env whole data).toOption = some "calleda;b;" := by decide +kernel
  refine ⟨by decide +kernel, ?_⟩
  rw [Run.renderEach_eq_alone (fun _ _ _ _ _ => rfl) rfl fun template hm => ?_]
  · simp [hbroken, hwhole]
  · rcases List.mem_pair.1 hm with rfl | rfl
    · exact formed_template ⟨(formed_tag "gone").1, trivial⟩ ⟨(formed_tag "gone").2, trivial⟩
    · exact formed_template ⟨(formed_tag "").1, trivial, trivial⟩ ⟨(formed_tag "").2, trivial, trivial⟩

end TextTemplate
