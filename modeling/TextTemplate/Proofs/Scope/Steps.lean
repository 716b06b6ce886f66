import TextTemplate.Proofs.Scope.Isolation

/-!
What a request comes to, step by step. A step evaluates the function bound at one scope and logs it, or
makes a field or an overlay. A request does nothing else, except that a call that fails ends it: so
the functions it calls are those in its log. No step changes what is there, and a function once
evaluated is never pending again.
-/
namespace TextTemplate
variable {φ : Type}

namespace ScopeTree

variable {t t' t'' : ScopeTree φ} {id : ScopeId}

/-- Everything is kept: scopes with all that was read of them, and the fields and overlays made for
them. -/
structure Keeps (t t' : ScopeTree φ) : Prop extends Extends t t' where
  fields : ∀ id < t.scopes.size, ∀ name c, (t.scope id).fields.lookup name = some c →
    (t'.scope id).fields.lookup name = some c
  overlays : ∀ id < t.scopes.size, ∀ key o, (t.scope id).overlays.lookup key = some o →
    (t'.scope id).overlays.lookup key = some o

namespace Keeps

theorem refl (t : ScopeTree φ) : Keeps t t := ⟨.refl t, fun _ _ _ _ h => h, fun _ _ _ _ h => h⟩

theorem trans (h : Keeps t t') (h' : Keeps t' t'') : Keeps t t'' where
  toExtends := h.toExtends.trans h'.toExtends
  fields id hid name c hc := h'.fields id (h.lt hid) name c (h.fields id hid name c hc)
  overlays id hid key o ho := h'.overlays id (h.lt hid) key o (h.overlays id hid key o ho)

end Keeps

/-- A new entry under a key that had none hides nothing. -/
theorem lookup_cons_of_unmade {α β : Type} [BEq α] [LawfulBEq α] {k k' : α} {v v' : β}
    {l : List (α × β)} (unmade : l.lookup k = none) (h : l.lookup k' = some v') :
    ((k, v) :: l).lookup k' = some v' := by
  rw [List.lookup_cons]
  cases hk : k' == k with
  | false => exact h
  | true =>
    rw [eq_of_beq hk, unmade] at h
    cases h

theorem AddsField.keeps {name : String} {w : Value φ} (ha : t.AddsField t' id name w)
    (unmade : (t.scope id).fields.lookup name = none) : t.Keeps t' where
  toExtends := ha.grows.kept
  fields i hi name' c hc := by
    by_cases hne : i = id
    · subst hne
      rw [ha.self]
      exact lookup_cons_of_unmade unmade hc
    · rw [ha.grows.others i hi hne, hc]
  overlays i hi key o ho := by
    by_cases hne : i = id
    · subst hne
      rw [ha.self, ho]
    · rw [ha.grows.others i hi hne, ho]

theorem AddsOverlay.keeps {key : OverlayKey} {v : Value φ} (ha : t.AddsOverlay t' id key v)
    (unmade : (t.scope id).overlays.lookup key = none) : t.Keeps t' where
  toExtends := ha.grows.kept
  fields i hi name c hc := by
    by_cases hne : i = id
    · subst hne
      rw [ha.self, hc]
    · rw [ha.grows.others i hi hne, hc]
  overlays i hi key' o ho := by
    by_cases hne : i = id
    · subst hne
      rw [ha.self]
      exact lookup_cons_of_unmade unmade ho
    · rw [ha.grows.others i hi hne, ho]

theorem Settles.keeps {f : φ} {v : Value φ} (hs : t.Settles t' id v)
    (hf : (t.scope id).content = .pending f) (hfun : t.function? id = some f) : t.Keeps t' where
  toExtends := hs.kept hf hfun
  fields i _ name _ hc := (hs.same (·.fields.lookup name) (fun _ _ => rfl) i).trans hc
  overlays i _ key _ ho := (hs.same (·.overlays.lookup key) (fun _ _ => rfl) i).trans ho

end ScopeTree

/-- The function bound at a scope is called for its value and fails; only the calls are kept. -/
inductive Fails (host : Host φ) (policy : FailurePolicy) : Session φ → TemplateError → Session φ →
    Prop where
  | call {s : Session φ} {id : ScopeId} {f : φ} {e : TemplateError} {calls : List (Call φ)}
      (inRange : id < s.tree.scopes.size) (pending : (s.tree.scope id).content = .pending f)
      (call : host.evaluate policy f (s.tree.surroundings id).1 (s.tree.surroundings id).2 s.calls =
        (.error e, calls)) : Fails host policy s e ⟨s.tree, calls⟩

/-- What a request may do in a session, with the scope whose function is evaluated, if one is. No
other step calls a function. -/
inductive Step (host : Host φ) (policy : FailurePolicy) :
    Session φ → Option ScopeId → Session φ → Prop where
  | evaluated {s : Session φ} {id : ScopeId} {f : φ} {v : Value φ} {calls : List (Call φ)}
      (inRange : id < s.tree.scopes.size) (pending : (s.tree.scope id).content = .pending f)
      (call : host.evaluate policy f (s.tree.surroundings id).1 (s.tree.surroundings id).2 s.calls =
        (.ok v, calls)) : Step host policy s (some id) ⟨s.tree.settle id v, calls⟩
  | field {s : Session φ} {id : ScopeId} (inRange : id < s.tree.scopes.size) (name : String)
      (skipCache : Bool) : Step host policy s none ⟨(s.tree.field id name skipCache).2, s.calls⟩
  | overlay {s : Session φ} {id : ScopeId} {key : OverlayKey} (inRange : id < s.tree.scopes.size)
      (chain : ∀ c ∈ key.chain, c < s.tree.scopes.size) (v : Value φ) :
      Step host policy s none ⟨(s.tree.overlay id key v).2, s.calls⟩

/-- Steps in a row, with the scopes whose functions are evaluated, first scope first. -/
inductive Steps (host : Host φ) (policy : FailurePolicy) (s : Session φ) :
    List ScopeId → Session φ → Prop where
  | refl : Steps host policy s [] s
  | step {log : List ScopeId} {now : Option ScopeId} {u s' : Session φ}
      (earlier : Steps host policy s log u) (last : Step host policy u now s') :
      Steps host policy s (log ++ now.toList) s'

/-- The run is made in steps that evaluate the functions of the logged scopes. If it fails, a call
that fails comes after them and ends it. -/
def Run.Evaluates {α : Type} (host : Host φ) (policy : FailurePolicy) (s : Session φ) (m : Run φ α)
    (log : List ScopeId) : Prop :=
  match m s with
  | .ok _ s' => Steps host policy s log s'
  | .error e s' => ∃ u, Steps host policy s log u ∧ Fails host policy u e s'

/-- What the request evaluates. -/
def Request.Evaluates (host : Host φ) (policy : FailurePolicy) (s : Session φ)
    (log : List ScopeId) : Request φ → Prop
  | field id name skipCache => (Run.field host policy id name skipCache).Evaluates host policy s log
  | search id key => (Run.search host policy id key).Evaluates host policy s log
  | value id => (Run.value host policy id).Evaluates host policy s log
  | item id index => (Run.item host policy id index).Evaluates host policy s log
  | overlay id key v =>
    Run.Evaluates host policy s (Run.onTree fun t => t.overlay id key v) log

section Rules

variable {host : Host φ} {policy : FailurePolicy} {s u s' : Session φ} {log log' : List ScopeId}
  {now : Option ScopeId} {e : TemplateError}

/-- What part of a run keeps. Besides, no function is evaluated twice in it, and none that was
evaluated before. -/
structure Advances (s : Session φ) (log : List ScopeId) (s' : Session φ) : Prop where
  wellFormed : s'.tree.WellFormed
  keeps : s.tree.Keeps s'.tree
  nodup : log.Nodup
  pending : ∀ id ∈ log, id < s.tree.scopes.size → ¬ s.tree.Ready id
  ready : ∀ id ∈ log, id < s'.tree.scopes.size ∧ s'.tree.Ready id

namespace Advances

/-- Nothing is evaluated. -/
theorem none (hw : s'.tree.WellFormed) (hk : s.tree.Keeps s'.tree) : Advances s [] s' :=
  ⟨hw, hk, List.nodup_nil, nofun, nofun⟩

/-- A tree that is left alone. -/
theorem of_tree_eq (hw : s.tree.WellFormed) (h : s'.tree = s.tree) : Advances s [] s' := by
  refine .none ?_ ?_ <;> rw [h]
  · exact hw
  · exact .refl _

theorem trans (h : Advances s log u) (h' : Advances u log' s') : Advances s (log ++ log') s' where
  wellFormed := h'.wellFormed
  keeps := h.keeps.trans h'.keeps
  nodup := by
    -- what is evaluated later was pending, unlike all that was evaluated before
    refine List.nodup_append.2 ⟨h.nodup, h'.nodup, fun a ha b hb hab => ?_⟩
    obtain ⟨hlt, hready⟩ := h.ready a ha
    subst hab
    exact h'.pending a hb hlt hready
  pending id hm hid := by
    rcases List.mem_append.1 hm with hm | hm
    · exact h.pending id hm hid
    · exact fun hr => h'.pending id hm (h.keeps.lt hid) (h.keeps.isReady hid hr)
  ready id hm := by
    rcases List.mem_append.1 hm with hm | hm
    · obtain ⟨hid, hready⟩ := h.ready id hm
      exact ⟨h'.keeps.lt hid, h'.keeps.isReady hid hready⟩
    · exact h'.ready id hm

end Advances

theorem Fails.tree_eq (h : Fails host policy s e s') : s'.tree = s.tree := by
  cases h
  rfl

theorem Step.advances (hw : s.tree.WellFormed) (h : Step host policy s now s') :
    Advances s now.toList s' := by
  cases h with
  | @evaluated id f v calls inRange pending call =>
    have hset := ScopeTree.settles inRange v
    have hkeeps := hset.keeps pending (hw.pending id inRange f pending)
    refine ⟨hset.wellFormed hw inRange pending, hkeeps, by simp, ?_, ?_⟩
    · rintro _ (_ | ⟨_, ⟨⟩⟩) - ⟨w, hready⟩
      cases pending.symm.trans hready
    · rintro _ (_ | ⟨_, ⟨⟩⟩)
      exact ⟨hkeeps.lt inRange, v, by rw [hset.self]⟩
  | @field id inRange name skipCache =>
    have hcase := ScopeTree.field_cases inRange name skipCache
    generalize s.tree.field id name skipCache = r at hcase
    cases hcase with
    | made _ _ _ adds unmade => exact .none (adds.wellFormed hw inRange) (adds.keeps unmade)
    | _ => exact .of_tree_eq hw rfl
  | @overlay id key inRange chain v =>
    have hcase := ScopeTree.overlay_cases inRange key v
    generalize s.tree.overlay id key v = r at hcase
    cases hcase with
    | made unmade adds => exact .none (adds.wellFormed hw inRange chain) (adds.keeps unmade)
    | there => exact .of_tree_eq hw rfl

theorem Steps.single (h : Step host policy s now s') : Steps host policy s now.toList s' :=
  .step .refl h

theorem Steps.trans (h : Steps host policy s log u) (h' : Steps host policy u log' s') :
    Steps host policy s (log ++ log') s' := by
  induction h' with
  | refl => rwa [List.append_nil]
  | step _ last ih =>
    rw [← List.append_assoc]
    exact .step ih last

theorem Steps.advances (hw : s.tree.WellFormed) (h : Steps host policy s log s') :
    Advances s log s' := by
  induction h with
  | refl => exact .of_tree_eq hw rfl
  | step _ last ih => exact ih.trans (last.advances ih.wellFormed)

namespace Run.Evaluates

variable {α : Type} {m : Run φ α}

theorem advances (hw : s.tree.WellFormed) (h : m.Evaluates host policy s log) :
    Advances s log (m.left s) := by
  simp only [Evaluates, Run.left] at h ⊢
  cases hm : m s with
  | ok a s' =>
    rw [hm] at h
    exact h.advances hw
  | error e s' =>
    rw [hm] at h
    obtain ⟨u, hsteps, hfails⟩ := h
    have hadvances := hsteps.advances hw
    have hend := hadvances.trans (.of_tree_eq hadvances.wellFormed hfails.tree_eq)
    rwa [List.append_nil] at hend

theorem fails (h : m.Evaluates host policy s log) (he : m.ending s = .error e) :
    ∃ u, Steps host policy s log u ∧ Fails host policy u e (m.left s) := by
  simp only [Evaluates, Run.left, Run.ending] at h he ⊢
  cases hm : m s with
  | ok a s' =>
    rw [hm] at he
    cases he
  | error e' s' =>
    rw [hm] at h he
    cases he
    exact h

end Run.Evaluates

/-- All that the run does is logged. -/
def Walks {α : Type} (host : Host φ) (policy : FailurePolicy) (s : Session φ) (m : Run φ α) : Prop :=
  ∃ log, m.Evaluates host policy s log

namespace Walks

variable {α β : Type}

theorem pure (a : α) : Walks host policy s (Pure.pure a : Run φ α) := ⟨[], .refl⟩

theorem bind {I : Session φ → Prop} {R : α → Session φ → Prop} {m : Run φ α} {f : α → Run φ β}
    (h : Walks host policy s m) (hl : Leads I s m R)
    (hf : ∀ a s', s.tree.Extends s'.tree → I s' → R a s' → Walks host policy s' (f a)) :
    Walks host policy s (m >>= f) := by
  obtain ⟨log, hm⟩ := h
  simp only [Walks, Run.Evaluates, Leads, Bind.bind, EStateM.bind] at hm hl ⊢
  cases hms : m s with
  | error e s' =>
    rw [hms] at hm
    exact ⟨log, hm⟩
  | ok a s' =>
    rw [hms] at hm hl
    obtain ⟨log', hrest⟩ := hf a s' hl.1 hl.2.1 hl.2.2
    simp only [Run.Evaluates] at hrest
    refine ⟨log ++ log', ?_⟩
    dsimp only
    cases hfa : f a s' with
    | ok b s'' =>
      rw [hfa] at hrest
      exact hm.trans hrest
    | error e s'' =>
      rw [hfa] at hrest
      obtain ⟨u, hsteps, hfails⟩ := hrest
      exact ⟨u, hm.trans hsteps, hfails⟩

theorem look {f : ScopeTree φ → Run φ α} (h : Walks host policy s (f s.tree)) :
    Walks host policy s (Run.tree >>= f) := h

end Walks

namespace Run

variable {id : ScopeId} (hw : s.tree.WellFormed) (hid : id < s.tree.scopes.size)
include hid

omit hw in
private theorem walks_force : Walks host policy s (force host policy id) := by
  refine .look ?_
  cases hc : (s.tree.scope id).content with
  | ready v => exact .pure ()
  | pending f =>
    simp only [Walks, Evaluates, bind, EStateM.bind, evaluate]
    cases hcall : host.evaluate policy f (s.tree.surroundings id).1 (s.tree.surroundings id).2
        s.calls with
    | mk result calls =>
      cases result with
      | ok v => exact ⟨_, .single (.evaluated hid hc hcall)⟩
      | error e => exact ⟨[], s, .refl, .call hid hc hcall⟩

include hw

private theorem walks_value : Walks host policy s (value host policy id) :=
  (walks_force hid).bind (leads_force upheld_wellFormed hw hid) fun _ _ _ _ _ => .look (.pure _)

private theorem walks_field (name : String) (skipCache : Bool) :
    Walks host policy s (field host policy id name skipCache) :=
  (walks_force hid).bind (leads_force upheld_wellFormed hw hid) fun _ _ he _ _ =>
    ⟨_, .single (.field (he.lt hid) name skipCache)⟩

omit hw in
private theorem walks_overlay {key : OverlayKey} (hchain : ∀ c ∈ key.chain, c < s.tree.scopes.size)
    (v : Value φ) : Walks host policy s (onTree fun t => t.overlay id key v) :=
  ⟨_, .single (.overlay hid hchain v)⟩

private theorem walks_item (index : Nat) : Walks host policy s (item host policy id index) := by
  refine .look ?_
  split
  · exact .pure _
  · dsimp only
    split
    · exact walks_overlay hid (by simp [OverlayKey.item]) _
    · exact (walks_value hw hid).bind (leads_value upheld_wellFormed hw hid) fun v s' he _ _ =>
        walks_overlay (he.lt hid) (by simp [OverlayKey.item]) _

private theorem walks_descend (target joined : String) (segments : List String) :
    Walks host policy s (descend host policy target joined segments id) := by
  induction segments generalizing s id joined with
  | nil => exact .pure none
  | cons segment segments ih =>
    rw [descend]
    refine (walks_field hw hid _ true).bind (leads_field upheld_wellFormed hw hid _ true)
      fun r s' he hw' hr => ?_
    cases r with
    | none => exact ih hw' (he.lt hid) _
    | some c =>
      have hc : c < s'.tree.scopes.size := (hr c rfl).1
      dsimp only
      split
      · exact .pure _
      · refine .look ?_
        split
        · exact .pure _
        · exact ih hw' hc _

private theorem walks_search (key : Key) : Walks host policy s (search host policy id key) := by
  rw [search]
  refine .look ?_
  split
  · dsimp only
    split
    · exact .pure _
    · split
      · exact .pure _
      · split
        · exact .pure _
        · exact walks_descend hw hid _ _ _
  · have hland := ScopeTree.climb_shared hw key.text key.segments hid true
    split
    · exact .pure _
    · rename_i start segments hclimb
      rw [hclimb] at hland
      cases hland with
      | descend hlt _ => exact walks_descend hw hlt _ _ _

end Run

/-- A request does nothing that is not logged. -/
theorem Request.evaluates (policy : FailurePolicy) {r : Request φ} (hw : s.tree.WellFormed)
    (hr : r.InRange s.tree) : ∃ log, r.Evaluates host policy s log := by
  cases r with
  | field id name skipCache => exact Run.walks_field hw hr name skipCache
  | search id key => exact Run.walks_search hw hr key
  | value id => exact Run.walks_value hw hr
  | item id index => exact Run.walks_item hw hr index
  | overlay id key v => exact Run.walks_overlay hr.1 hr.2 v

theorem Request.Evaluates.advances {r : Request φ} (hw : s.tree.WellFormed)
    (h : r.Evaluates host policy s log) : Advances s log (r.after host policy s) := by
  cases r with
  | overlay id key v => exact Run.Evaluates.advances (m := Run.onTree fun t => t.overlay id key v) hw h
  | field | search | value | item => exact Run.Evaluates.advances hw h

end Rules

end TextTemplate
