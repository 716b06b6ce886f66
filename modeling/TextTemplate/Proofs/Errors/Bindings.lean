import TextTemplate.Proofs.Inclusions

/-!
What can go wrong at a tag, at a section or at an included template, and which of it settings let
through. Looking up a binding, passing a value through its functions and showing it end with no other
error than those of the binding.
-/
namespace TextTemplate
variable {φ α β : Type}

/-- The errors that a tag or a section can end a render with. -/
inductive Binding.Fault (settings : Settings) (b : Binding) : TemplateError → Prop where
  | missing (strict : settings.errorOnMissingTags = true) :
    Fault settings b (.missingBinding b.raw)
  | failed (strict : settings.errorOnFuncFailure = true) (message : String) :
    Fault settings b (.functionFailed message b.raw)
  | unresolved (linked : b.links ≠ []) : Fault settings b (.unresolvedFunction b.raw)
  | nonFunction (linked : b.links ≠ []) : Fault settings b (.nonFunction b.raw)

/-- The errors that an included template can end a render with: it is not there, or a function fails
in the scope it is to start from. -/
inductive Inclusion.Fault (settings : Settings) (i : Inclusion) : TemplateError → Prop where
  | missing (strict : settings.errorOnMissingTags = true) :
    Fault settings i (.missingPartial i.key.text i.raw)
  | failed (strict : settings.errorOnFuncFailure = true) (message : String) :
    Fault settings i (.functionFailed message i.raw)

namespace Node

/-- The errors that the parts of a template can end a render with. -/
inductive Fault (settings : Settings) : List Node → TemplateError → Prop where
  | tag {nodes : List Node} {t : Tag} {e : TemplateError} (mem : .tag t ∈ nodes)
      (fault : t.binding.Fault settings e) : Fault settings nodes e
  | inclusion {nodes : List Node} {i : Inclusion} {e : TemplateError} (mem : .inclusion i ∈ nodes)
      (fault : i.Fault settings e) : Fault settings nodes e
  | head {nodes body : List Node} {head : Section} {e : TemplateError}
      (mem : .block head body ∈ nodes) (fault : head.binding.Fault settings e) :
      Fault settings nodes e
  | inside {nodes body : List Node} {head : Section} {e : TemplateError}
      (mem : .block head body ∈ nodes) (fault : Fault settings body e) : Fault settings nodes e

mutual

/-- The source texts of the tags in a node. -/
def raws : Node → List String
  | text _ => []
  | tag t => [t.raw]
  | inclusion i => [i.raw]
  | block head body => head.raw :: allRaws body

def allRaws : List Node → List String
  | [] => []
  | node :: nodes => raws node ++ allRaws nodes

end

theorem raws_subset {node : Node} {nodes : List Node} (h : node ∈ nodes) :
    raws node ⊆ allRaws nodes := by
  induction nodes with
  | nil => cases h
  | cons n nodes ih =>
    rw [allRaws]
    rcases List.mem_cons.1 h with rfl | h
    · exact List.subset_append_left _ _
    · exact List.subset_append_of_subset_right _ (ih h)

end Node

/-- The errors that settings let through. -/
def TemplateError.Allowed (settings : Settings) : TemplateError → Prop
  | missingBinding _ => settings.errorOnMissingTags = true
  | missingPartial _ _ => settings.errorOnMissingTags = true
  | functionFailed _ _ => settings.errorOnFuncFailure = true
  | functionChain _ _ => True
  | _ => False

theorem Binding.Fault.about {settings : Settings} {b : Binding} {e : TemplateError}
    (h : b.Fault settings e) : e.Allowed settings ∧ e.raw? = some b.raw := by
  cases h with
  | missing strict => exact ⟨strict, rfl⟩
  | failed strict message => exact ⟨strict, rfl⟩
  | unresolved linked => exact ⟨trivial, rfl⟩
  | nonFunction linked => exact ⟨trivial, rfl⟩

theorem Inclusion.Fault.about {settings : Settings} {i : Inclusion} {e : TemplateError}
    (h : i.Fault settings e) : e.Allowed settings ∧ e.raw? = some i.raw := by
  cases h with
  | missing strict => exact ⟨strict, rfl⟩
  | failed strict message => exact ⟨strict, rfl⟩

/-- An error of a template is let through, and is about one of its tags. -/
theorem Node.Fault.about {settings : Settings} {nodes : List Node} {e : TemplateError}
    (h : Fault settings nodes e) :
    e.Allowed settings ∧ ∃ raw ∈ allRaws nodes, e.raw? = some raw := by
  induction h with
  | @tag nodes t e mem fault =>
    obtain ⟨hallowed, hraw⟩ := fault.about
    exact ⟨hallowed, t.raw, raws_subset mem (by simp [raws]), hraw⟩
  | @inclusion nodes i e mem fault =>
    obtain ⟨hallowed, hraw⟩ := fault.about
    exact ⟨hallowed, i.raw, raws_subset mem (by simp [raws]), hraw⟩
  | @head nodes body head e mem fault =>
    obtain ⟨hallowed, hraw⟩ := fault.about
    exact ⟨hallowed, head.raw, raws_subset mem (by simp [raws]), hraw⟩
  | @inside nodes body head e mem fault ih =>
    obtain ⟨hallowed, raw, hmem, hraw⟩ := ih
    refine ⟨hallowed, raw, raws_subset mem ?_, hraw⟩
    rw [raws]
    exact List.mem_cons_of_mem _ hmem

namespace Run

/-- However the run is started, it gives something with the property `P`, or ends in an error with
the property `E`. -/
def Ends (E : TemplateError → Prop) (P : α → Prop) (m : Run φ α) : Prop :=
  ∀ s, match m s with
  | .ok a _ => P a
  | .error e _ => E e

namespace Ends

variable {E : TemplateError → Prop} {P : α → Prop} {Q : β → Prop}

theorem pure {a : α} (h : P a) : Ends E P (Pure.pure a : Run φ α) := fun _ => h

theorem throw {e : TemplateError} (h : E e) : Ends E P (MonadExcept.throw e : Run φ α) := fun _ => h

theorem bind {m : Run φ α} {f : α → Run φ β} (h : Ends E P m) (hf : ∀ a, P a → Ends E Q (f a)) :
    Ends E Q (m >>= f) := by
  intro s
  have hm := h s
  simp only [Bind.bind, EStateM.bind]
  cases hs : m s with
  | error e s' =>
    rw [hs] at hm
    exact hm
  | ok a s' =>
    rw [hs] at hm
    exact hf a hm s'

/-- A run that looks at the tree first. -/
theorem look {f : ScopeTree φ → Run φ α} (h : ∀ t, Ends E P (f t)) : Ends E P (Run.tree >>= f) :=
  fun s => h s.tree s

theorem step {g : ScopeTree φ → α × ScopeTree φ} (h : ∀ t, P (g t).1) : Ends E P (onTree g) :=
  fun s => h s.tree

end Ends

section Scopes

variable {E : TemplateError → Prop} {host : Host φ} {policy : FailurePolicy}

/-- The errors of a function that fails under the policy are among those of `E`. -/
abbrev Fails (E : TemplateError → Prop) (policy : FailurePolicy) : Prop :=
  policy.propagate = true → ∀ message, E (.functionFailed message policy.raw)

private theorem ends_evaluate (hE : Fails E policy) (f : φ) (context root : Value φ) :
    Ends E (fun _ => True) (evaluate host policy f context root) := by
  intro s
  simp only [evaluate, Host.evaluate]
  cases host.follow context root (maxReturned + 1) (.function f) s.calls with
  | mk r calls =>
    cases r with
    | ok v => trivial
    | error fault =>
      by_cases hp : policy.propagate = true
      · simp only [FailurePolicy.settle, hp, if_true]
        exact hE hp fault.message
      · simp only [FailurePolicy.settle, hp]
        trivial

private theorem ends_force (hE : Fails E policy) (id : ScopeId) :
    Ends E (fun _ => True) (force host policy id) := by
  apply Ends.look
  intro t
  split
  · exact .pure trivial
  · exact (ends_evaluate hE _ _ _).bind fun _ _ _ => trivial

theorem ends_value (hE : Fails E policy) (id : ScopeId) :
    Ends E (fun _ => True) (value host policy id) :=
  (ends_force hE id).bind fun _ _ => .look fun _ => .pure trivial

private theorem ends_field (hE : Fails E policy) (id : ScopeId) (key : String) (skipCache : Bool) :
    Ends E (fun _ => True) (field host policy id key skipCache) :=
  (ends_force hE id).bind fun _ _ => .step fun _ => trivial

theorem ends_item (hE : Fails E policy) (id : ScopeId) (index : Nat) :
    Ends E (fun _ => True) (item host policy id index) := by
  apply Ends.look
  intro t
  split
  · exact .pure trivial
  · dsimp only
    split
    · exact (Ends.pure (P := fun _ => True) trivial).bind fun _ _ => .step fun _ => trivial
    · exact (ends_value hE id).bind fun _ _ => .step fun _ => trivial

private theorem ends_descend (hE : Fails E policy) (target joined : String) (segments : List String)
    (id : ScopeId) : Ends E (fun _ => True) (descend host policy target joined segments id) := by
  induction segments generalizing id joined with
  | nil => exact .pure trivial
  | cons segment segments ih =>
    rw [descend]
    apply (ends_field hE id _ true).bind
    intro child _
    cases child with
    | none => exact ih _ id
    | some child =>
      dsimp only
      split
      · exact .pure trivial
      · apply Ends.look
        intro t
        split
        · exact .pure trivial
        · exact ih _ child

private theorem ends_search (hE : Fails E policy) (id : ScopeId) (key : Key) :
    Ends E (fun _ => True) (search host policy id key) := by
  rw [search]
  apply Ends.look
  intro t
  cases key.inContext with
  | true =>
    simp only [if_true]
    split
    · exact .pure trivial
    · split
      · exact .pure trivial
      · split
        · exact .pure trivial
        · exact ends_descend hE _ _ _ id
  | false =>
    simp only [Bool.false_eq_true, if_false]
    split
    · exact .pure trivial
    · exact ends_descend hE _ _ _ _

private theorem ends_findScope (hE : Fails E policy) (scope : ScopeId) (overlays : List ScopeId)
    (key : Key) : Ends E (fun _ => True) (findScope host policy scope overlays key) := by
  apply Ends.look
  intro t
  split
  · exact ends_search hE _ key
  · exact ends_search hE scope key

private theorem ends_findChain (hE : Fails E policy) (scope : ScopeId) (overlays : List ScopeId)
    {links : List Link}
    (hl : links ≠ [] → E (.unresolvedFunction policy.raw) ∧ E (.nonFunction policy.raw)) :
    Ends E (fun _ => True) (findChain host policy scope overlays links) := by
  induction links with
  | nil => exact .pure trivial
  | cons link links ih =>
    obtain ⟨hunresolved, hnone⟩ := hl (by simp)
    apply (ends_findScope hE scope overlays link.key).bind
    intro found _
    cases found with
    | none => exact .throw hunresolved
    | some id =>
      apply Ends.look
      intro t
      split
      · exact .throw hnone
      · exact (ih fun _ => ⟨hunresolved, hnone⟩).bind fun _ _ => .pure trivial

end Scopes

section Bindings

variable {E : TemplateError → Prop} {env : Env φ} {b : Binding}

/-- The errors of the binding are among those of `E`. -/
abbrev Bears (E : TemplateError → Prop) (env : Env φ) (b : Binding) : Prop :=
  ∀ e, b.Fault env.settings e → E e

theorem Bears.fails (hb : Bears E env b) : Fails E (env.policy b.raw) := fun strict message =>
  hb _ (.failed strict message)

theorem ends_passThrough (hb : Bears E env b) (steps : List (φ × Link)) (v : Value φ) :
    Ends E (fun _ => True) (passThrough env (env.policy b.raw) steps v) := by
  induction steps generalizing v with
  | nil => exact .pure trivial
  | cons step steps ih =>
    apply Ends.look
    intro t
    exact (ends_evaluate hb.fails _ _ _).bind fun w _ => ih _

theorem ends_resolve (hb : Bears E env b) (scope : ScopeId) (overlays : List ScopeId) :
    Ends E (fun _ => True) (resolve env b scope overlays) := by
  apply (ends_findScope hb.fails scope overlays b.key).bind
  intro found _
  cases found with
  | none => exact .pure trivial
  | some found =>
    dsimp only
    split
    · exact (ends_value hb.fails found).bind fun _ _ => .pure trivial
    · have hlinks : b.links ≠ [] → E (.unresolvedFunction b.raw) ∧ E (.nonFunction b.raw) :=
        fun hl => ⟨hb _ (.unresolved hl), hb _ (.nonFunction hl)⟩
      apply (ends_findChain hb.fails scope overlays hlinks).bind
      intro chain _
      split
      · exact .pure trivial
      · exact (ends_value hb.fails found).bind fun v _ =>
          (ends_passThrough hb _ _).bind fun _ _ => .pure trivial

theorem ends_innerScope (r : Resolution φ) : Ends E (fun _ => True) (innerScope r) := by
  rw [innerScope]
  split
  · exact .pure trivial
  · exact .step fun _ => trivial

theorem ends_missing (hb : Bears E env b) : Ends E (fun _ => True) (missing env b.raw) := by
  rw [missing]
  split
  · rename_i strict
    exact .throw (hb _ (.missing strict))
  · exact .pure trivial

theorem ends_display (hb : Bears E env b) (inclusive : Bool) (v : Value φ) :
    Ends E (fun _ => True) (display env inclusive v b.raw) := by
  rw [display]
  split
  · apply Ends.look
    intro t
    exact (ends_evaluate hb.fails _ _ _).bind fun _ _ => .pure trivial
  · exact .pure trivial
  · exact .pure trivial

end Bindings

end Run

end TextTemplate
