import TextTemplate.Proofs.Scope.Steps

/-!
Trees that only grow. Whatever a tree is asked for, it keeps what it has, and answers once given are
given again: the value of a scope, its fields past the cache, its items and its overlays. So the
function bound at a scope is evaluated once, and a call that fails leaves nothing behind in the tree.
-/
namespace TextTemplate
variable {φ : Type}

namespace ScopeTree

variable {t t₁ t' : ScopeTree φ} {id c o : ScopeId} {name : String} {key : OverlayKey} {v : Value φ}

private theorem field_itself (single : (t.data id).isArray = false) (self : isSelfKey name = true) :
    t.field id name true = (some id, t) := by
  simp [field, isRepeating, single, self]

private theorem field_child (single : (t.data id).isArray = false) (other : isSelfKey name = false)
    (there : (t.scope id).fields.lookup name = some c) : t.field id name true = (some c, t) := by
  simp [field, isRepeating, single, other, there]

theorem overlay_there (there : (t.scope id).overlays.lookup key = some o) (v : Value φ) :
    t.overlay id key v = (o, t) := by
  simp [overlay, there]

private theorem field_again (hid : id < t.scopes.size) (hready : t.Ready id)
    (h : t.field id name true = (some c, t₁)) (hk : t₁.Keeps t') :
    t'.field id name true = (some c, t') := by
  have hcase := field_cases hid name true
  rw [h] at hcase
  cases hcase with
  | cached looks => cases looks
  | itself single self =>
    exact field_itself (by rwa [hk.data_eq hid hready]) self
  | child single other there =>
    exact field_child (by rwa [hk.data_eq hid hready]) other (hk.fields id hid name c there)
  | made single other _ adds =>
    have he := adds.grows.kept
    refine field_child ?_ other (hk.fields id (he.lt hid) name _ ?_)
    · rwa [(he.trans hk.toExtends).data_eq hid hready]
    · rw [adds.self, List.lookup_cons_self]

/-- An overlay that was asked for is there. -/
theorem lookup_of_overlay (hid : id < t.scopes.size) (h : t.overlay id key v = (o, t₁)) :
    id < t₁.scopes.size ∧ (t₁.scope id).overlays.lookup key = some o := by
  have hcase := overlay_cases hid key v
  rw [h] at hcase
  cases hcase with
  | there there => exact ⟨hid, there⟩
  | made _ adds => exact ⟨adds.grows.kept.lt hid, by rw [adds.self, List.lookup_cons_self]⟩

end ScopeTree

namespace Run

variable {host : Host φ} {policy policy' : FailurePolicy} {s s₁ s' : Session φ} {id o : ScopeId}

theorem of_onTree {α : Type} {g : ScopeTree φ → α × ScopeTree φ} {a : α}
    (h : onTree g s = .ok a s₁) : g s.tree = (a, s₁.tree) := by
  cases h
  rfl

theorem onTree_ok {α : Type} {g : ScopeTree φ → α × ScopeTree φ} {a : α} {t : ScopeTree φ}
    (h : g s.tree = (a, t)) : onTree g s = .ok a { s with tree := t } := by
  show EStateM.Result.ok (g s.tree).1 { s with tree := (g s.tree).2 } = _
  rw [h]

/-- An overlay that is there is given for an item. -/
theorem item_there {index : Nat} (h : (s.tree.scope id).overlays.lookup (.item index) = some o) :
    item host policy id index s = .ok o s := by
  simp only [item, tree_bind, h]
  rfl

section Again

variable (hw : s.tree.WellFormed) (hid : id < s.tree.scopes.size)
include hw hid

private theorem value_again {v : Value φ} (h : value host policy id s = .ok v s₁)
    (hk : s₁.tree.Keeps s'.tree) : value host policy' id s' = .ok v s' := by
  obtain ⟨he, -, ⟨w, hw⟩, rfl⟩ := (leads_value upheld_wellFormed hw hid).of_ok h
  have hready : (s'.tree.scope id).content = .ready w := hk.ready id (he.lt hid) w hw
  rw [value_ready hready, ScopeTree.data, hw]
  rfl

private theorem field_again {name : String} {c : ScopeId}
    (h : field host policy id name true s = .ok (some c) s₁) (hk : s₁.tree.Keeps s'.tree) :
    field host policy' id name true s' = .ok (some c) s' := by
  obtain ⟨_, s₂, hforce, hstep⟩ := of_bind h
  obtain ⟨he, hw₂, hready⟩ := (leads_force upheld_wellFormed hw hid).of_ok hforce
  have hstep' := of_onTree hstep
  have hkeeps : s₂.tree.Keeps s₁.tree := by
    have hfield : Step host policy s₂ none _ := .field (he.lt hid) name true
    have hadvances := hfield.advances hw₂
    rw [hstep'] at hadvances
    exact hadvances.keeps
  obtain ⟨w, hw'⟩ := (hkeeps.trans hk).isReady (he.lt hid) hready
  rw [field, bind_of_ok (force_ready hw')]
  exact onTree_ok (ScopeTree.field_again (he.lt hid) hready hstep' hk)

/-- The overlay of an item is there once it was asked for. -/
theorem leads_item_there (index : Nat) :
    Leads (fun s => s.tree.WellFormed) s (item host policy id index) fun o s' =>
      (s'.tree.scope id).overlays.lookup (.item index) = some o := by
  have hmake : ∀ v {s : Session φ}, s.tree.WellFormed → id < s.tree.scopes.size →
      Leads (fun s => s.tree.WellFormed) s (onTree fun t => t.overlay id (.item index) v)
        fun o s' => (s'.tree.scope id).overlays.lookup (.item index) = some o := by
    intro v s hw hid
    have hleads := leads_overlay upheld_wellFormed hw hid (.item index) v fun _ ha =>
      ha.wellFormed hw hid (by simp [OverlayKey.item])
    exact hleads.exact.weaken fun o s' _ _ h =>
      (ScopeTree.lookup_of_overlay hid (of_onTree h.2)).2
  refine .look ?_
  split
  · rename_i o ho
    exact .pure hw ho
  · dsimp only
    split
    · exact hmake _ hw hid
    · exact (leads_value upheld_wellFormed hw hid).bind fun v s' he hw' _ =>
        hmake v hw' (he.lt hid)

theorem item_again {index : Nat} (h : item host policy id index s = .ok o s₁)
    (hk : s₁.tree.Keeps s'.tree) : item host policy' id index s' = .ok o s' := by
  obtain ⟨he, -, hthere⟩ := (leads_item_there hw hid index).of_ok h
  exact item_there (hk.overlays id (he.lt hid) _ o hthere)

omit hw in
private theorem overlay_again {key : OverlayKey} {v w : Value φ}
    (h : onTree (fun t => t.overlay id key v) s = .ok o s₁) (hk : s₁.tree.Keeps s'.tree) :
    onTree (fun t => t.overlay id key w) s' = .ok o s' := by
  obtain ⟨hid', hthere⟩ := ScopeTree.lookup_of_overlay hid (of_onTree h)
  exact onTree_ok (ScopeTree.overlay_there (hk.overlays id hid' key o hthere) w)

end Again

end Run

/-- The sessions that requests lead to from a session, with other functions called in between. -/
inductive Later (host : Host φ) (s : Session φ) : Session φ → Prop where
  | refl : Later host s s
  | after {u : Session φ} {r : Request φ} (policy : FailurePolicy) (earlier : Later host s u)
      (inRange : r.InRange u.tree) : Later host s (r.after host policy u)
  | called {u : Session φ} (policy : FailurePolicy) (f : φ) (context root : Value φ)
      (earlier : Later host s u) :
      Later host s ((Run.evaluate host policy f context root).left u)

/-- The sessions that requests lead to, with the scopes whose functions all of the requests evaluate,
in order. What other functions are called between two requests is not in the log. -/
inductive Logged (host : Host φ) (s : Session φ) : List ScopeId → Session φ → Prop where
  | refl : Logged host s [] s
  | after {u : Session φ} {r : Request φ} {log now : List ScopeId} (policy : FailurePolicy)
      (earlier : Logged host s log u) (inRange : r.InRange u.tree)
      (evaluates : r.Evaluates host policy u now) :
      Logged host s (log ++ now) (r.after host policy u)
  | called {u : Session φ} {log : List ScopeId} (policy : FailurePolicy) (f : φ)
      (context root : Value φ) (earlier : Logged host s log u) :
      Logged host s log ((Run.evaluate host policy f context root).left u)

/-- The request fails with the error `e`. -/
def Request.FailsWith (host : Host φ) (policy : FailurePolicy) (s : Session φ) (e : TemplateError) :
    Request φ → Prop
  | field id name skipCache => (Run.field host policy id name skipCache).ending s = .error e
  | search id key => (Run.search host policy id key).ending s = .error e
  | value id => (Run.value host policy id).ending s = .error e
  | item id index => (Run.item host policy id index).ending s = .error e
  | overlay id key v => Run.ending (Run.onTree fun t => t.overlay id key v) s = .error e

section Requests

variable {host : Host φ} {s s' : Session φ} {log : List ScopeId}

theorem Request.Evaluates.fails {policy : FailurePolicy} {r : Request φ} {e : TemplateError}
    (h : r.Evaluates host policy s log) (he : r.FailsWith host policy s e) :
    ∃ u, Steps host policy s log u ∧ Fails host policy u e (r.after host policy s) := by
  cases r with
  | overlay id key v =>
    exact Run.Evaluates.fails (m := Run.onTree fun t => t.overlay id key v) h he
  | field | search | value | item => exact Run.Evaluates.fails h he

/-- A function that is called for no scope leaves the tree alone. -/
private theorem Run.tree_left_evaluate (host : Host φ) (policy : FailurePolicy) (f : φ)
    (context root : Value φ) (s : Session φ) :
    ((evaluate host policy f context root).left s).tree = s.tree := by
  simp only [left, evaluate]
  cases host.evaluate policy f context root s.calls with
  | mk r calls => cases r <;> rfl

theorem Logged.advances (hw : s.tree.WellFormed) (h : Logged host s log s') :
    Advances s log s' := by
  induction h with
  | refl => exact .of_tree_eq hw rfl
  | after _ _ _ evaluates ih => exact ih.trans (evaluates.advances ih.wellFormed)
  | @called u _ policy f context root _ ih =>
    have hcalled := Run.tree_left_evaluate host policy f context root u
    have hend := ih.trans (.of_tree_eq ih.wellFormed hcalled)
    rwa [List.append_nil] at hend

/-- Any requests have a log. -/
theorem Later.logged (hw : s.tree.WellFormed) (h : Later host s s') :
    ∃ log, Logged host s log s' := by
  induction h with
  | refl => exact ⟨[], .refl⟩
  | after policy _ inRange ih =>
    obtain ⟨log, hlogged⟩ := ih
    obtain ⟨now, hnow⟩ := Request.evaluates policy (hlogged.advances hw).wellFormed inRange
    exact ⟨log ++ now, .after policy hlogged inRange hnow⟩
  | called policy f context root _ ih =>
    obtain ⟨log, hlogged⟩ := ih
    exact ⟨log, .called policy f context root hlogged⟩

theorem Later.keeps (hw : s.tree.WellFormed) (h : Later host s s') : s.tree.Keeps s'.tree := by
  obtain ⟨_, hlogged⟩ := h.logged hw
  exact (hlogged.advances hw).keeps

end Requests

/-- **Trees only grow, and functions are evaluated once.** Whatever is asked for from a reachable
session on, with or without success, everything in its tree is kept, and each request is made in steps
that log all that it evaluates. No scope is twice in the log of all requests, and none that was
evaluated before. A request that fails, fails by a call that leaves the tree as it was before it. And
what was once given, past the cache, is given again at any later time. -/
theorem Reachable.evaluated_once {host : Host φ} {s : Session φ}
    (h : Reachable host (fun _ => True) (fun _ => True) s) :
    (∀ s', Later host s s' → s.tree.Keeps s'.tree ∧ (∃ log, Logged host s log s') ∧
      ∀ policy (r : Request φ), r.InRange s'.tree → ∃ log, r.Evaluates host policy s' log) ∧
    (∀ log s', Logged host s log s' → log.Nodup ∧
      ∀ id ∈ log, s'.tree.Ready id ∧ (id < s.tree.scopes.size → ¬ s.tree.Ready id)) ∧
    (∀ policy (r : Request φ), r.InRange s.tree → ∀ e, r.FailsWith host policy s e →
      ∃ log u, Steps host policy s log u ∧ Fails host policy u e (r.after host policy s) ∧
        (r.after host policy s).tree = u.tree) ∧
    ∀ policy, ∀ id < s.tree.scopes.size, ∀ s₁ s', Later host s₁ s' → ∀ policy',
      (∀ v, Run.value host policy id s = .ok v s₁ → Run.value host policy' id s' = .ok v s') ∧
      (∀ name c, Run.field host policy id name true s = .ok (some c) s₁ →
        Run.field host policy' id name true s' = .ok (some c) s') ∧
      (∀ index o, Run.item host policy id index s = .ok o s₁ →
        Run.item host policy' id index s' = .ok o s') ∧
      ∀ key, (∀ c ∈ key.chain, c < s.tree.scopes.size) → ∀ v o,
        Run.onTree (fun t => t.overlay id key v) s = .ok o s₁ →
        ∀ w, Run.onTree (fun t => t.overlay id key w) s' = .ok o s' := by
  have hw := h.wellFormed
  refine ⟨fun s' hl => ?_, fun log s' hl => ?_, fun policy r hr e he => ?_,
    fun policy id hid s₁ s' hl policy' => ?_⟩
  · obtain ⟨log, hlogged⟩ := hl.logged hw
    have hadvances := hlogged.advances hw
    exact ⟨hadvances.keeps, ⟨log, hlogged⟩,
      fun policy r hr => r.evaluates policy hadvances.wellFormed hr⟩
  · have hadvances := hl.advances hw
    exact ⟨hadvances.nodup, fun id hm => ⟨(hadvances.ready id hm).2, hadvances.pending id hm⟩⟩
  · obtain ⟨log, hevaluates⟩ := r.evaluates policy hw hr
    obtain ⟨u, hsteps, hfails⟩ := hevaluates.fails he
    exact ⟨log, u, hsteps, hfails, hfails.tree_eq⟩
  · have hkeeps : ∀ {r : Request φ}, r.InRange s.tree → r.after host policy s = s₁ →
        s₁.tree.Keeps s'.tree := by
      rintro r hr rfl
      exact hl.keeps (Request.wellFormed_after hw hr)
    refine ⟨fun v hv => ?_, fun name c hc => ?_, fun index o ho => ?_,
      fun key hchain v o ho w => ?_⟩
    · exact Run.value_again hw hid hv
        (hkeeps (r := .value id) hid (Run.ending_of_ok hv).2)
    · exact Run.field_again hw hid hc
        (hkeeps (r := .field id name true) hid (Run.ending_of_ok hc).2)
    · exact Run.item_again hw hid ho
        (hkeeps (r := .item id index) hid (Run.ending_of_ok ho).2)
    · exact Run.overlay_again hid ho
        (hkeeps (r := .overlay id key v) ⟨hid, hchain⟩ (Run.ending_of_ok ho).2)

namespace LazyGreeting

/-- A function greets the user and says where; it fails for whoever has no name. -/
def host : Host Unit where
  call _ _ context root :=
    match context.get? "first", root.get? "site" with
    | some (.string first), some (.string site) => .ok (.string (first ++ "@" ++ site))
    | _, _ => .error "nobody there"

def policy : FailurePolicy := ⟨"\x7b\x7bgreeting\x7d\x7d", true⟩

/-- A user who is greeted, and a guest without a name. -/
def start : Session Unit :=
  ⟨.new (.record [("user", .record [("first", .string "Ada"), ("greeting", .function ())]),
    ("guest", .record [("greeting", .function ())]), ("site", .string "home")]), []⟩

/-- The session after both greetings were looked up. -/
def found : Session Unit :=
  (Request.search ScopeTree.root (.ofPath "guest.greeting" false)).after host policy <|
    (Request.search ScopeTree.root (.ofPath "user.greeting" false)).after host policy start

/-- The greeting of the user, and how many scopes there are and calls were made, before and after the
guest's greeting is asked for. -/
def greeted : Option (String × Nat × Nat × Nat) :=
  match Run.value host policy 2 found with
  | .ok (.string text) s => some (text, s.tree.scopes.size, s.calls.length,
      ((Request.value 4).after host policy s).calls.length)
  | _ => none

end LazyGreeting

open LazyGreeting in
/-- The user is greeted once, and the greeting is read again after the other one has failed. -/
theorem Reachable.evaluated_once_greeting :
    ∃ s₁, Run.value host policy 2 found = .ok (.string "Ada@home") s₁ ∧ s₁.calls.length = 1 ∧
      ((Request.value 4).after host policy s₁).calls.length = 2 ∧
      Run.value host policy 2 ((Request.value 4).after host policy s₁) =
        .ok (.string "Ada@home") ((Request.value 4).after host policy s₁) := by
  have hfound : Reachable host (fun _ => True) (fun _ => True) found :=
    .after policy (.after policy (.new [] trivial) Nat.zero_lt_one trivial)
      (show ScopeTree.root < _ by decide +kernel) trivial
  have hread : greeted = some ("Ada@home", 5, 1, 2) := by decide +kernel
  cases hrun : Run.value host policy 2 found with
  | error e s => simp [greeted, hrun] at hread
  | ok v s₁ =>
    obtain ⟨rfl, hsize, hcalls, hcalls'⟩ : v = .string "Ada@home" ∧ s₁.tree.scopes.size = 5 ∧
        s₁.calls.length = 1 ∧ ((Request.value 4).after host policy s₁).calls.length = 2 := by
      cases v <;> simp_all [greeted]
    have hlater : Later host s₁ ((Request.value 4).after host policy s₁) :=
      .after policy .refl (show 4 < s₁.tree.scopes.size by rw [hsize]; decide)
    exact ⟨s₁, rfl, hcalls, hcalls', (hfound.evaluated_once.2.2.2 policy 2 (by decide +kernel) s₁ _ hlater
      policy).1 _ hrun⟩

end TextTemplate
