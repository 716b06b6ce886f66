import TextTemplate.Proofs.Paired.Passes
import TextTemplate.Proofs.Scope.Policies

/-!
Strict settings. A key that is missing is nothing, and a function that fails is empty text, unless the
settings make them errors. That is all these settings do: a render that is strict and has no error
goes on step by step like one that is not, over the same scopes and with the same calls.
-/
namespace TextTemplate
variable {φ α β : Type}

/-- Two runs in one session, of which the second may go on where the first fails. -/
def Pairing.lenient (φ : Type) : Pairing φ where
  World := Unit
  Later _ _ := True
  Holds _ s s' := s' = s
  Same _ a a' := a' = a
  Read _ _ _ := True
  Good _ := True
  Faults := False
  refl _ := trivial
  trans _ _ := trivial
  same _ h := h
  read _ h := h
  string _ := trivial

namespace Lenient

/-- What the first run gives, the second gives, and leaves the same session. -/
abbrev Repeats (m m' : Run φ α) : Prop := Paired (Pairing.lenient φ) () (fun _ => Eq) m m'

private theorem repeats_refl (m : Run φ α) : Repeats m m := by
  intro v s s' _ hs
  obtain rfl : s' = s := hs
  cases hm : m s' with
  | ok a t => exact ⟨a, t, v, rfl, trivial, rfl, rfl⟩
  | error e t => exact False.elim

theorem Repeats.eq_ok {m m' : Run φ α} (h : Repeats m m') {s t : Session φ} {a : α}
    (hm : m s = .ok a t) : m' s = .ok a t := by
  have hs := h () s s trivial rfl
  rw [hm] at hs
  obtain ⟨_, _, _, hm', -, rfl, rfl⟩ := hs
  exact hm'

section Scopes

variable {host : Host φ} {raw : String} {strict lax : Bool} (h : lax = true → strict = true)
include h

/-- A function that does not fail gives the same whatever a failure would be. -/
private theorem repeats_evaluate (f : φ) (context root : Value φ) :
    Repeats (Run.evaluate host ⟨raw, strict⟩ f context root)
      (Run.evaluate host ⟨raw, lax⟩ f context root) := by
  have hrefl := repeats_refl (Run.evaluate host ⟨raw, strict⟩ f context root)
  cases strict with
  | false => rwa [show lax = false from Bool.eq_false_iff.2 fun hl => Bool.noConfusion (h hl)]
  | true =>
    intro v s s' _ hs
    obtain rfl : s' = s := hs
    simp only [Run.evaluate, Host.evaluate]
    cases host.follow context root (maxReturned + 1) (.function f) s'.calls with
    | mk r calls =>
      cases r with
      | ok w => exact ⟨w, _, v, rfl, trivial, rfl, rfl⟩
      | error fault => exact False.elim

theorem policies :
    Policies host ⟨raw, strict⟩ ⟨raw, lax⟩ fun {_} (m m' : Run φ _) => Repeats m m' where
  refl := repeats_refl
  andThen hm hf := hm.andThen fun _ a _ => hf a
  evaluate := repeats_evaluate h

end Scopes

/-- Nodes without templates to include. -/
abbrev NoneIncluded : List Node → Prop :=
  Node.EveryOf (fun _ => True) (fun _ => False) fun _ => True

/-- The same but for what functions that fail and keys that are missing come to. -/
def withErrors (env : Env φ) (func missing : Bool) : Env φ :=
  { env with settings :=
    { env.settings with errorOnFuncFailure := func, errorOnMissingTags := missing } }

variable {env : Env φ} {func missing : Bool}

theorem reads (hf : func = true → env.settings.errorOnFuncFailure = true) :
    (Pairing.lenient φ).Reads env (withErrors env func missing) fun _ => True where
  path hs ha := by rw [hs, ha]
  function hs ha := by rw [hs, ha]
  top hs := by rw [hs]
  search {w a a' key} raw _ ha := by
    obtain rfl : a' = a := ha
    refine ((policies hf).search a' key).weaken fun _ r r' _ hr => ?_
    subst hr
    cases r with
    | none => exact .none
    | some id => exact .some rfl
  value {w a a'} raw ha := by
    obtain rfl : a' = a := ha
    exact ((policies hf).value a').weaken fun _ _ _ _ hv => ⟨hv, trivial, trivial⟩
  evaluate raw f context root :=
    (repeats_evaluate hf f context root).weaken fun _ _ _ _ hv => ⟨hv, trivial⟩
  numbers := rfl
  evalZeroAsTrue := rfl
  escapeAll := rfl

private theorem repeats_missing (hm : missing = true → env.settings.errorOnMissingTags = true)
    (raw : String) : Repeats (Run.missing env raw) (Run.missing (withErrors env func missing) raw) := by
  rw [Run.missing, Run.missing]
  cases hs : env.settings.errorOnMissingTags with
  | true => exact fun _ _ _ _ _ => False.elim
  | false =>
    have hl : missing = false := Bool.eq_false_iff.2 fun hl => Bool.noConfusion (hs.symm.trans (hm hl))
    simp only [withErrors, hl]
    exact repeats_refl _

private theorem repeats_innerScope {r r' : Resolution φ}
    (hr : (Pairing.lenient φ).Resolves () r r') : Repeats (Run.innerScope r) (Run.innerScope r') := by
  have hchain : r'.chain = r.chain := by
    have := hr.chain
    revert this
    generalize r.chain = c
    generalize r'.chain = c'
    intro hc
    induction hc with
    | nil => rfl
    | cons hxy _ ih => rw [ih, Prod.ext hxy.1 hxy.2.symm]
  have hscope : r'.scope = r.scope := hr.scope
  rw [Run.innerScope, Run.innerScope, hscope, hchain, hr.value, hr.isRepeating, hr.isDynamic]
  exact repeats_refl _

theorem passes (hf : func = true → env.settings.errorOnFuncFailure = true)
    (hm : missing = true → env.settings.errorOnMissingTags = true)
    (inc inc' : Inclusion → ScopeId → Run φ String) :
    (Pairing.lenient φ).Passes env (withErrors env func missing) inc inc'
      (fun b => ∀ key ∈ b.keys, True) (fun _ => True) (fun _ => False) []
      (Pairing.Resolves (Pairing.lenient φ)) :=
  (reads hf).passes (fun _ _ _ _ _ _ he => nomatch he) (fun _ _ _ => trivial)
    (fun hr => (repeats_innerScope hr).weaken fun _ _ _ _ ha => ⟨ha.symm, fun _ => trivial⟩)
    (fun {_ a a'} raw index ha _ => by
      obtain rfl : a' = a := ha
      exact ((policies hf).item a' index).weaken fun _ _ _ _ hi => hi.symm)
    (fun raw => repeats_missing hm raw) (fun hi => hi.elim)

private theorem repeats_render (hf : func = true → env.settings.errorOnFuncFailure = true)
    (hm : missing = true → env.settings.errorOnMissingTags = true) {template : Template}
    (hn : NoneIncluded template.nodes) :
    Repeats (Run.render env template) (Run.render (withErrors env func missing) template) :=
  (passes hf hm _ _).renderNodes
    (hn.imp (fun _ _ => ⟨fun _ _ => trivial, trivial⟩) (fun _ hi => hi)
      (fun _ _ => ⟨fun _ _ => trivial, trivial⟩) template.nodes) rfl

end Lenient

/-- **Strict settings only turn texts into errors.** What is rendered under strict settings is rendered
under lenient ones, with the same calls in the same order. -/
theorem Template.render_lenient (host : Host φ) {template : Template}
    (hn : Lenient.NoneIncluded template.nodes)
    (data : Value φ) (options : RenderOptions) (func missing : Bool)
    (hf : func = true → options.errorOnFuncFailure = true)
    (hm : missing = true → options.errorOnMissingTags = true) {text : String}
    (h : (template.render host data options).result = .ok text) :
    template.render host data
        { options with errorOnFuncFailure := func, errorOnMissingTags := missing } =
      template.render host data options := by
  have hcompile : ({ options with errorOnFuncFailure := func, errorOnMissingTags := missing } :
      RenderOptions).compilePartials = options.compilePartials := rfl
  rw [Template.render] at h
  rw [Template.render, Template.render, hcompile]
  cases hc : options.compilePartials with
  | error e => rfl
  | ok templates =>
    rw [hc] at h
    dsimp only at h ⊢
    have hrepeats : Lenient.Repeats
        (Run.render ⟨host, options.toSettings, options.numbers, templates⟩ template) _ :=
      Lenient.repeats_render hf hm hn
    cases hrun : Run.render ⟨host, options.toSettings, options.numbers, templates⟩ template
        (.start data) with
    | error e s =>
      rw [hrun] at h
      cases h
    | ok found s =>
      have hlax := hrepeats.eq_ok hrun
      rw [show Run.render ⟨host, _, options.numbers, templates⟩ template (.start data) = _ from hlax]

namespace Greeting

/-- Whatever function is called, with a name around it, says hello to the name. -/
def host : Host Unit where
  call _ _ context _ :=
    match context.get? "name" with
    | some (.string name) => .ok (.string ("Hello " ++ name))
    | _ => .error "nobody there"

def data : Value Unit :=
  .record [("guests", .array [.record [("name", .string "Ada"), ("hello", .function ())],
    .record [("name", .string "Bob"), ("hello", .function ())]])]

/-- A section over the guests, with what the function says to each. -/
def template : Template where
  nodes := [.block ⟨⟨"{{#.guests}}", some .sectionInclude, .ofPath "guests" true, [], none, false⟩,
    .ofPath "guests" true, []⟩
    [.tag ⟨"{{.hello}}", none, .ofPath "hello" true, [], none, false⟩, .text "!"]]
  delimiters := .default

def strict : RenderOptions :=
  { RenderOptions.default with errorOnFuncFailure := true, errorOnMissingTags := true }

end Greeting

open Greeting in
/-- Each guest is greeted once, whether or not errors are let through. -/
theorem Template.render_lenient_greeting :
    (template.render host data strict).result.toOption = some "Hello Ada!Hello Bob!" ∧
      template.render host data
          { strict with errorOnFuncFailure := false, errorOnMissingTags := false } =
        template.render host data strict ∧
      (template.render host data
        { strict with errorOnFuncFailure := false, errorOnMissingTags := false }).calls.length = 2 := by
  have htext : (template.render host data strict).result.toOption = some "Hello Ada!Hello Bob!" := by
    decide +kernel
  have hn : Lenient.NoneIncluded template.nodes := ⟨⟨trivial, trivial, trivial, trivial⟩, trivial⟩
  cases h : (template.render host data strict).result with
  | error e =>
    rw [h] at htext
    cases htext
  | ok text =>
    have hsame := template.render_lenient host hn data strict false false nofun nofun h
    refine ⟨by rw [← h, htext], hsame, ?_⟩
    rw [hsame]
    decide +kernel

end TextTemplate
