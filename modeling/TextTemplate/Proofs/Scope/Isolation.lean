import TextTemplate.Proofs.Scope.Upkeep

/-!
Scope trees under any requests. Whatever a tree over any data is asked for, in whatever order, and
whether or not the functions bound in it fail, it stays well-formed; and what is asked of a scope of
the first cache never leads to an overlay, nor below one.
-/
namespace TextTemplate
variable {φ : Type}

/-- What a scope tree can be asked for. -/
inductive Request (φ : Type) where
  | field (id : ScopeId) (name : String) (skipCache : Bool)
  | search (id : ScopeId) (key : Key)
  | value (id : ScopeId)
  | item (id : ScopeId) (index : Nat)
  | overlay (id : ScopeId) (key : OverlayKey) (v : Value φ)

namespace Request

/-- The scopes it speaks of are there. -/
def InRange (t : ScopeTree φ) : Request φ → Prop
  | field id _ _ | search id _ | value id | item id _ => id < t.scopes.size
  | overlay id key _ => id < t.scopes.size ∧ ∀ c ∈ key.chain, c < t.scopes.size

/-- The session left by a request, also when it fails. -/
def after (host : Host φ) (policy : FailurePolicy) (s : Session φ) : Request φ → Session φ
  | field id name skipCache => (Run.field host policy id name skipCache).left s
  | search id key => (Run.search host policy id key).left s
  | value id => (Run.value host policy id).left s
  | item id index => (Run.item host policy id index).left s
  | overlay id key v => Run.left (Run.onTree fun t => t.overlay id key v) s

end Request

/-- The sessions that requests lead to, from trees over given values. -/
inductive Reachable (host : Host φ) (values : Value φ → Prop) (requests : Request φ → Prop) :
    Session φ → Prop where
  | new {data : Value φ} (calls : List (Call φ)) (given : values data) :
      Reachable host values requests ⟨ScopeTree.new data, calls⟩
  | newAt {data v : Value φ} (path : String) (calls : List (Call φ)) (given : values data)
      (given' : values v) : Reachable host values requests ⟨(ScopeTree.newAt data path v).2, calls⟩
  | after {s : Session φ} {r : Request φ} (policy : FailurePolicy)
      (earlier : Reachable host values requests s) (inRange : r.InRange s.tree)
      (allowed : requests r) : Reachable host values requests (r.after host policy s)

section Upheld

variable {J : ScopeTree φ → Prop} {host : Host φ} {s : Session φ}

/-- One request. -/
theorem Request.upheld_after {policy : FailurePolicy} {r : Request φ} (hJ : Upheld J)
    (hoverlay : ∀ {t t' id key v}, J t → id < t.scopes.size → (∀ c ∈ key.chain, c < t.scopes.size) →
      t.AddsOverlay t' id key v → J t') (hs : J s.tree) (hr : r.InRange s.tree) :
    J (r.after host policy s).tree := by
  cases r with
  | field id name skipCache => exact (Run.leads_field hJ hs hr name skipCache).left
  | search id key => exact (Run.leads_search hJ hs hr key).left
  | value id => exact (Run.leads_value hJ hs hr).left
  | item id index => exact (Run.leads_item hJ hs hr index).left
  | overlay id key v =>
    exact (Run.leads_overlay hJ hs hr.1 key v fun _ ha => hoverlay hs hr.1 hr.2 ha).left

/-- What trees have to start from, and every request keeps. -/
theorem Reachable.upheld {values : Value φ → Prop} {requests : Request φ → Prop} (hJ : Upheld J)
    (hnew : ∀ data, J (ScopeTree.new data))
    (hnewAt : ∀ data path v, J (ScopeTree.newAt data path v).2)
    (hoverlay : ∀ {t t' id key v}, J t → id < t.scopes.size → (∀ c ∈ key.chain, c < t.scopes.size) →
      t.AddsOverlay t' id key v → J t') (h : Reachable host values requests s) : J s.tree := by
  induction h with
  | new => exact hnew _
  | newAt => exact hnewAt _ _ _
  | after _ _ inRange _ ih => exact Request.upheld_after hJ hoverlay ih inRange

end Upheld

theorem Request.wellFormed_after {host : Host φ} {policy : FailurePolicy} {r : Request φ}
    {s : Session φ} (hw : s.tree.WellFormed) (hr : r.InRange s.tree) :
    (r.after host policy s).tree.WellFormed :=
  Request.upheld_after upheld_wellFormed (fun hw hid hchain ha => ha.wellFormed hw hid hchain) hw hr

theorem Reachable.wellFormed {host : Host φ} {values : Value φ → Prop}
    {requests : Request φ → Prop} {s : Session φ} (h : Reachable host values requests s) :
    s.tree.WellFormed :=
  h.upheld upheld_wellFormed ScopeTree.wellFormed_new ScopeTree.wellFormed_newAt
    fun hw hid hchain ha => ha.wellFormed hw hid hchain

/-- What is found in the first cache is not apart from it. -/
theorem Leads.not_apart {s s' : Session φ} {m : Run φ (Option ScopeId)} {id c : ScopeId}
    {R : Option ScopeId → Session φ → Prop} (h : Leads (fun s => s.tree.WellFormed) s m R)
    (hid : id < s.tree.scopes.size) (hc : (s.tree.scope id).cache = 0)
    (hR : R (some c) s' → (s'.tree.scope id).cache = 0 → (s'.tree.scope c).cache = 0)
    (hm : m s = .ok (some c) s') : ¬ s'.tree.Apart c := by
  obtain ⟨he, hw, hr⟩ := h.of_ok hm
  exact fun ha => hw.cache_of_apart ha (hR hr (by rw [he.cache id hid, hc]))

/-- Trees stay well-formed, and what starts in the first cache never meets an overlay. -/
theorem Reachable.wellFormed_isolated {host : Host φ} {s : Session φ}
    (h : Reachable host (fun _ => True) (fun _ => True) s) :
    s.tree.WellFormed ∧ ∀ id < s.tree.scopes.size, (s.tree.scope id).cache = 0 → ∀ policy,
      (∀ name skipCache c s', Run.field host policy id name skipCache s = .ok (some c) s' →
        ¬ s'.tree.Apart c) ∧
      ∀ key c s', Run.search host policy id key s = .ok (some c) s' → ¬ s'.tree.Apart c := by
  have hw := h.wellFormed
  have hJ := upheld_wellFormed (φ := φ)
  refine ⟨hw, fun id hid hc policy => ⟨fun name skipCache c s' hrun => ?_, fun key c s' hrun => ?_⟩⟩
  · exact (Run.leads_field hJ hw hid name skipCache).not_apart hid hc
      (fun hr h0 => (hr c rfl).2.trans h0) hrun
  · exact (Run.leads_search hJ hw hid key).not_apart hid hc (fun hr => (hr c rfl).2) hrun

/-- The item of a record has a field of its own, which is not the one found from the record. -/
theorem Reachable.wellFormed_isolated_item :
    let host : Host Unit := ⟨fun _ _ _ _ => .error "fails"⟩
    let policy : FailurePolicy := ⟨"\x7b\x7b.k\x7d\x7d", true⟩
    let s := (Request.field 1 "k" true).after host policy <|
      (Request.item ScopeTree.root 0).after host policy
        ⟨ScopeTree.new (.record [("k", .string "v")]), []⟩
    s.tree.WellFormed ∧ s.tree.Apart 2 ∧
      ∃ s', Run.search host policy ScopeTree.root (.ofPath "k" true) s = .ok (some 3) s' ∧
        ¬ s'.tree.Apart 3 := by
  intro host policy s
  have hs : Reachable host (fun _ => True) (fun _ => True) s :=
    .after policy (.after policy (.new [] trivial) Nat.zero_lt_one trivial) Nat.one_lt_two trivial
  have hall := Reachable.wellFormed_isolated hs
  have hparent : s.tree.parent? 2 = some 1 := by decide +kernel
  have hitem : (s.tree.scope 0).overlays = [(.item 0, 1)] := by decide +kernel
  have hfound : (match Run.search host policy ScopeTree.root (.ofPath "k" true) s with
      | .ok r _ => r
      | .error _ _ => none) = some 3 := by decide +kernel
  have hmem : (OverlayKey.item 0, 1) ∈ (s.tree.scope 0).overlays := by
    rw [hitem]
    exact .head _
  refine ⟨hall.1, .under (by decide +kernel) hparent (.overlay (by decide +kernel) hmem), ?_⟩
  cases hrun : Run.search host policy ScopeTree.root (.ofPath "k" true) s with
  | error e s' => simp [hrun] at hfound
  | ok r s' =>
    obtain rfl : r = some 3 := by simpa [hrun] using hfound
    exact ⟨s', rfl,
      (hall.2 ScopeTree.root (by decide +kernel) (by decide +kernel) policy).2 _ 3 s' hrun⟩

end TextTemplate
