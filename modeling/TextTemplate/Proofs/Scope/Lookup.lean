import TextTemplate.Proofs.OnePass
import TextTemplate.Proofs.Scope.Isolation

/-!
Searching is looking up. In a tree over values without functions a search finds what its key names in
the data of the scope it starts from, or of the nearest scope above that covers the key, whatever was
asked of the tree before: no cache, no field made earlier and no overlay changes an answer.
-/
namespace TextTemplate
variable {φ : Type}

namespace Place

variable {host : Host φ} {policy : FailurePolicy} {p q : Place φ} {key : Key}

theorem walk_of_search (h : p.search host policy key = .ok (some q)) :
    ∃ rest, (if key.inContext then p.walk host policy "" key.segments
      else (p.nearest key.text).walk host policy ""
        (key.segments.drop (pathDepth (p.nearest key.text).path))) = .ok (some (q, rest)) := by
  cases hc : key.inContext with
  | true =>
    simp only [search, hc, if_true] at h ⊢
    exact walk_of_fst h
  | false =>
    simp only [search, hc, Bool.false_eq_true, if_false] at h ⊢
    exact walk_of_fst h

/-- Without empty segments, a search ends at the path it was asked for. -/
theorem search_gapless (hk : key.Formed) (hgaps : key.NoGaps)
    (h : p.search host policy key = .ok (some q)) :
    (key.inContext = true → q.path = joinPath p.path key.text) ∧
      (key.inContext = false → pathCovers (p.nearest key.text).path key.text = true →
        q.path = key.text) := by
  have hdot : Dotless key.segments := hk.segments ▸ dotless_splitPath key.text
  obtain ⟨rest, hwalk⟩ := walk_of_search h
  refine ⟨fun hc => splitPath_injective ?_, fun hc hcov => splitPath_injective ?_⟩
  · rw [if_pos hc] at hwalk
    rw [walk_gapless .none hdot hgaps hwalk, splitPath_joinPath, hk.segments, List.nil_append]
  · rw [if_neg (by simp [hc])] at hwalk
    rw [walk_gapless .none (fun s hs => hdot s (List.mem_of_mem_drop hs))
      (fun s hs => hgaps s (List.mem_of_mem_drop hs)) hwalk, List.nil_append]
    obtain ⟨more, hmore⟩ := pathCovers_iff.1 hcov
    rw [hk.segments, pathDepth_eq_length, ← hmore, List.drop_left]

end Place

namespace ScopeTree

variable {host : Host φ} {propagate : Bool} {t t' : ScopeTree φ} {id : ScopeId}

/-- A tree over values without functions. -/
structure Plain (host : Host φ) (t : ScopeTree φ) : Prop where
  wellFormed : t.WellFormed
  orphan : ∀ id < t.scopes.size, t.parent? id = none → t.path id = ""
  clean : ∀ id < t.scopes.size, (t.bound id).isData = true
  fields : ∀ id < t.scopes.size, ∀ name c, (name, c) ∈ (t.scope id).fields → t.IsChild id name c
  regions : ∀ propagate, t.Regions host propagate

namespace Plain

theorem charted (h : t.Plain host) (propagate : Bool) : t.Charted host propagate where
  parent := h.wellFormed.parent
  orphan := h.orphan
  regions := h.regions propagate
  cached := h.wellFormed.cached

theorem function_none (h : t.Plain host) (hid : id < t.scopes.size) : t.function? id = none := by
  have hclean := h.clean id hid
  rw [bound] at hclean
  split at hclean
  · cases hclean
  · assumption

theorem ready (h : t.Plain host) (hid : id < t.scopes.size) : t.Ready id := by
  cases hc : (t.scope id).content with
  | ready v => exact ⟨v, hc⟩
  | pending f =>
    have hf := h.wellFormed.pending id hid f hc
    rw [h.function_none hid] at hf
    cases hf

theorem data_eq (h : t.Plain host) (hid : id < t.scopes.size) : t.data id = t.bound id := by
  rw [bound, h.function_none hid]

theorem data_isData (h : t.Plain host) (hid : id < t.scopes.size) : (t.data id).isData = true := by
  rw [h.data_eq hid]
  exact h.clean id hid

theorem place_clean (h : t.Plain host) (hid : id < t.scopes.size) : (t.place id).Clean := by
  refine ⟨h.clean id hid, ?_⟩
  induction id using Nat.strongRecOn with
  | _ id ih =>
    cases hp : t.parent? id with
    | none =>
      rw [ScopeTree.place, above_of_orphan hp]
      exact fun _ ha => by cases ha
    | some p =>
      have hlt := h.wellFormed.parent id hid p hp
      rw [ScopeTree.place, above_of_parent hp hlt]
      intro a ha
      rcases List.mem_cons.1 ha with rfl | ha
      · exact h.clean p (Nat.lt_trans hlt hid)
      · exact ih p hlt (Nat.lt_trans hlt hid) a ha

end Plain

theorem Grows.plain {v : Value φ} {path : String} {parent : Option ScopeId} {top : ScopeId}
    {cache : Nat} (h : t.Grows t' id (fresh v path parent top cache)) (hp : t.Plain host)
    (hw : t'.WellFormed) (hv : v.isData = true) (horphan : parent = none → path = "")
    (hfields : ∀ name c, (name, c) ∈ (t'.scope id).fields →
      (name, c) ∈ (t.scope id).fields ∨ t'.IsChild id name c)
    (hregions : ∀ propagate, t'.Regions host propagate) : t'.Plain host := by
  have he := h.kept
  refine ⟨hw, fun i hi hnone => ?_, fun i hi => ?_, fun i hi name c hc => ?_, hregions⟩
  · rcases h.older hi with hi | rfl
    · rw [he.path i hi]
      exact hp.orphan i hi (by rw [← he.parent i hi, hnone])
    · rw [parent?, h.made] at hnone
      rw [ScopeTree.path, h.made]
      exact horphan hnone
  · rcases h.older hi with hi | rfl
    · rw [he.bound i hi]
      exact hp.clean i hi
    · rw [bound_of_fresh h.made]
      exact hv
  · rcases h.older hi with hi | rfl
    · by_cases hne : i = id
      · subst hne
        exact (hfields name c hc).elim (fun hm => (hp.fields i hi name c hm).mono he hi) fun hm => hm
      · rw [h.others i hi hne] at hc
        exact (hp.fields i hi name c hc).mono he hi
    · rw [h.made] at hc
      cases hc

theorem AddsField.plain {name : String} {w : Value φ} (ha : t.AddsField t' id name w)
    (hp : t.Plain host) (hid : id < t.scopes.size) (hw : (t.data id).get? name = some w)
    {segments : List String}
    (hsteps : Place.Steps host propagate (t.place id) segments ((t.place id).child name w)) :
    t'.Plain host := by
  refine ha.grows.plain hp (ha.wellFormed hp.wellFormed hid)
    (Value.isData_get? (hp.data_isData hid) hw) (by simp) ?_ fun propagate' => ?_
  · intro n c hc
    rw [ha.self] at hc
    rcases List.mem_cons.1 hc with heq | hm
    · obtain ⟨rfl, rfl⟩ := Prod.mk.inj heq
      exact .inr (ha.isChild hid (hp.ready hid) hw)
    · exact .inl hm
  · have hsteps' : Place.Steps host propagate' (t.place id) segments (t'.place t.scopes.size) := by
      rw [ha.grows.place hid]
      exact (hp.place_clean hid).steps hsteps
    exact ha.grows.regions_step (hp.regions propagate') hid rfl hsteps'

theorem AddsOverlay.plain {key : OverlayKey} {v : Value φ} (ha : t.AddsOverlay t' id key v)
    (hp : t.Plain host) (hid : id < t.scopes.size) (hchain : ∀ c ∈ key.chain, c < t.scopes.size)
    (hv : v.isData = true) : t'.Plain host := by
  refine ha.grows.plain hp (ha.wellFormed hp.wellFormed hid hchain) hv (hp.orphan id hid) ?_
    fun propagate => ?_
  · intro n c hc
    rw [ha.self] at hc
    exact .inl hc
  · exact ha.grows.regions_own (hp.regions propagate) fun i hi =>
      Nat.ne_of_lt (hp.wellFormed.cache i hi)

private theorem plain_new (host : Host φ) {data : Value φ} (hd : data.isData = true) :
    (new data).Plain host := by
  have hscope : (new data).scope root = fresh data "" none root 0 :=
    scope_insert_self empty data "" none none 0
  have honly : ∀ id < (new data).scopes.size, id = root := fun id hid => Nat.lt_one_iff.1 hid
  refine ⟨wellFormed_new data, fun i hi _ => ?_, fun i hi => ?_, fun i hi name c hc => ?_,
    fun propagate => ⟨fun _ => (new data).place root, fun i hi => ?_⟩⟩
  · rw [honly i hi, ScopeTree.path, hscope]
    rfl
  · rw [honly i hi, bound_of_fresh hscope]
    exact hd
  · rw [honly i hi, hscope] at hc
    cases hc
  · rw [honly i hi]
    exact .base

private theorem plain_newAt (host : Host φ) {data v : Value φ} (path : String)
    (hd : data.isData = true)
    (hv : v.isData = true) : (newAt data path v).2.Plain host := by
  by_cases hpath : path = ""
  · rw [hpath, newAt_root]
    exact plain_new host hv
  · obtain ⟨-, -, hg, hroot, -⟩ := newAt_grows data v hpath
    have hp := plain_new host hd
    refine hg.plain hp (wellFormed_newAt data path v) hv (by simp) ?_ fun propagate => ?_
    · exact fun _ _ hm => .inl (hroot ▸ hm)
    · exact hg.regions_own (hp.regions propagate) fun i hi => Nat.ne_of_lt (hp.wellFormed.cache i hi)

/-- `n` is the nearest scope, from `id` up, whose path covers `key`. -/
inductive Nearest (t : ScopeTree φ) (key : String) : ScopeId → ScopeId → Prop where
  | here {id : ScopeId} (covers : t.covers id key = true) : Nearest t key id id
  | above {id p n : ScopeId} (outside : t.covers id key = false) (parent : t.parent? id = some p)
      (nearest : Nearest t key p n) : Nearest t key id n

theorem Plain.nearest (hp : t.Plain host) (key : String) (hid : id < t.scopes.size) :
    ∃ n < t.scopes.size, t.Nearest key id n ∧ t.covers n key = true ∧
      (t.place id).nearest key = t.place n := by
  induction id using Nat.strongRecOn with
  | _ id ih =>
    cases hcov : t.covers id key with
    | true => exact ⟨id, hid, .here hcov, hcov, Place.nearest_of_covers hcov⟩
    | false =>
      cases hpar : t.parent? id with
      | none =>
        rw [covers, hp.orphan id hid hpar, pathCovers_iff.2 (by simp)] at hcov
        cases hcov
      | some p =>
        have hlt := hp.wellFormed.parent id hid p hpar
        obtain ⟨n, hn, hnear, hcov', hplace⟩ := ih p hlt (Nat.lt_trans hlt hid)
        refine ⟨n, hn, .above hcov hpar hnear, hcov', ?_⟩
        rw [place, above_of_parent hpar hlt, ← hplace]
        exact if_neg (by simpa [covers] using hcov)

end ScopeTree

namespace Run

variable {host : Host φ} {policy : FailurePolicy} {s : Session φ} {id : ScopeId}

private theorem searchable_plain (propagate : Bool) :
    Searchable host propagate (ScopeTree.Plain host) where
  charted h := h.charted propagate
  force {t id p} raw hst s he hp := by
    obtain ⟨hid, rfl⟩ := hst.mono he
    obtain ⟨v, hv⟩ := hp.ready hid
    rw [(hp.place_clean hid).read]
    exact ⟨(), s, force_ready hv, .refl _, hp, ⟨v, hv⟩, hp.data_eq hid⟩
  field {t id} hp hid hr name hsteps := by
    have hcase := ScopeTree.field_cases hid name true
    generalize t.field id name true = r at hcase ⊢
    cases hcase with
    | cached looks => cases looks
    | array repeats => exact ⟨.refl t, hp, .array repeats⟩
    | itself single self => exact ⟨.refl t, hp, .itself single self⟩
    | absent single other lacks => exact ⟨.refl t, hp, .absent single other lacks⟩
    | child single other there =>
      have hc := hp.fields id hid name _ (ScopeTree.mem_of_lookup there)
      obtain ⟨w, hw, hplace⟩ := hc.place
      exact ⟨.refl t, hp, .child single other hw hc.lt hc.ne hplace⟩
    | made single other holds adds =>
      obtain ⟨segments, hst⟩ := hsteps _ single other holds
      exact ⟨adds.grows.kept, adds.plain hp hid holds hst, .child single other holds
        (adds.fieldOf hid).lt (Nat.ne_of_lt hid).symm (adds.grows.place hid)⟩

private theorem leads_force_plain (hp : s.tree.Plain host) (hid : id < s.tree.scopes.size) :
    Leads (fun s => s.tree.Plain host) s (force host policy id) fun _ s' => s' = s := by
  obtain ⟨v, hv⟩ := hp.ready hid
  refine .look ?_
  rw [hv]
  exact .pure hp rfl

private theorem leads_value_plain (hp : s.tree.Plain host) (hid : id < s.tree.scopes.size) :
    Leads (fun s => s.tree.Plain host) s (value host policy id) fun v s' =>
      s' = s ∧ v.isData = true := by
  refine (leads_force_plain hp hid).bind fun _ s' _ hp' hs => .look (.pure hp' ⟨hs, ?_⟩)
  exact hp'.data_isData (hs ▸ hid)

private theorem leads_overlay_plain (hp : s.tree.Plain host) (hid : id < s.tree.scopes.size)
    {key : OverlayKey} (hchain : ∀ c ∈ key.chain, c < s.tree.scopes.size) {v : Value φ}
    (hv : v.isData = true) :
    Leads (fun s => s.tree.Plain host) s (onTree fun t => t.overlay id key v) fun _ _ => True := by
  have hcase := ScopeTree.overlay_cases hid key v
  generalize hr : s.tree.overlay id key v = r at hcase
  cases hcase with
  | there => exact .step (by rw [hr]; exact .refl _) (by rw [hr]; exact hp) trivial
  | made _ adds =>
    exact .step (by rw [hr]; exact adds.grows.kept) (by rw [hr]; exact adds.plain hp hid hchain hv)
      trivial

private theorem leads_item_plain (hp : s.tree.Plain host) (hid : id < s.tree.scopes.size)
    (index : Nat) :
    Leads (fun s => s.tree.Plain host) s (item host policy id index) fun _ _ => True := by
  have hchain : ∀ c ∈ (OverlayKey.item index).chain, c < s.tree.scopes.size := by
    simp [OverlayKey.item]
  refine .look ?_
  split
  · exact .pure hp trivial
  · dsimp only
    have hdata := hp.data_isData hid
    split
    · rename_i items hitems
      rw [hitems] at hdata
      exact leads_overlay_plain hp hid hchain (Value.isData_getD hdata index)
    · refine (leads_value_plain hp hid).bind fun v s' _ hp' hread => ?_
      obtain ⟨rfl, hv⟩ := hread
      exact leads_overlay_plain hp' hid hchain hv

end Run

namespace Request

/-- Searches, reads, and overlays of values without functions. -/
def IsPlain : Request φ → Prop
  | field .. => False
  | search _ key => key.Formed
  | value _ | item .. => True
  | overlay _ _ v => v.isData = true

/-- One request. -/
private theorem plain_after {host : Host φ} (policy : FailurePolicy) {r : Request φ} {s : Session φ}
    (hp : s.tree.Plain host) (hr : r.InRange s.tree) (hplain : r.IsPlain) :
    (r.after host policy s).tree.Plain host := by
  cases r with
  | field => exact hplain.elim
  | search id key =>
    obtain ⟨raw, propagate⟩ := policy
    exact (Run.simulates_search (Run.searchable_plain propagate) ⟨hr, rfl⟩ hplain raw).left
      (.refl _) hp
  | value id => exact (Run.leads_value_plain hp hr).left
  | item id index => exact (Run.leads_item_plain hp hr index).left
  | overlay id key v => exact (Run.leads_overlay_plain hp hr.1 hr.2 hplain).left

end Request

namespace Reachable

variable {host : Host φ} {s : Session φ}

theorem plain (h : Reachable host (fun v => v.isData = true) Request.IsPlain s) :
    s.tree.Plain host := by
  induction h with
  | new _ given => exact ScopeTree.plain_new host given
  | newAt path _ given given' => exact ScopeTree.plain_newAt host path given given'
  | after policy _ inRange allowed ih => exact Request.plain_after policy ih inRange allowed

/-- A search finds what looking its key up finds, and nothing else. -/
theorem search_lookup (h : Reachable host (fun v => v.isData = true) Request.IsPlain s)
    {id : ScopeId} (hid : id < s.tree.scopes.size) {key : Key} (hk : key.Formed)
    (hgaps : key.NoGaps) (policy : FailurePolicy) :
    ∃ found s', Run.search host policy id key s = .ok found s' ∧
      (key.inContext = true →
        found.map s'.tree.data = (s.tree.data id).find? "" key.segments ∧
        ∀ c ∈ found, s'.tree.path c = joinPath (s.tree.path id) key.text) ∧
      (key.inContext = false → ∃ n, s.tree.Nearest key.text id n ∧
        found.map s'.tree.data =
          (s.tree.data n).find? "" (key.segments.drop (pathDepth (s.tree.path n))) ∧
        ∀ c ∈ found, s'.tree.path c = key.text) := by
  have hp := h.plain
  obtain ⟨raw, propagate⟩ := policy
  have hclean := hp.place_clean hid
  obtain ⟨r, hr⟩ : ∃ r, (s.tree.place id).search host ⟨raw, propagate⟩ key = .ok r := by
    obtain ⟨r, hr, -⟩ := hclean.search key
    exact ⟨r, hr⟩
  have hsim := Run.simulates_search (Run.searchable_plain propagate) ⟨hid, rfl⟩ hk raw s (.refl _) hp
  rw [hr] at hsim
  obtain ⟨found, s', hrun, -, hp', hrel⟩ := hsim
  have hdata : found.map s'.tree.data = r.map Place.bound := by
    cases hrel with
    | none => rfl
    | some hst => simp only [Option.map_some, hp'.data_eq hst.1, ← hst.2, ScopeTree.place_bound]
  have hpath : ∀ c ∈ found, ∃ q, r = some q ∧ s'.tree.path c = q.path := by
    cases hrel with
    | none => exact fun _ hc => by cases hc
    | some hst =>
      rintro c ⟨⟩
      exact ⟨_, rfl, hst.path⟩
  refine ⟨found, s', hrun, fun hc => ⟨?_, fun c hfound => ?_⟩, fun hc => ?_⟩
  · obtain ⟨r', hr', hfind⟩ := OnePass.search_find host ⟨raw, propagate⟩ hclean hk hgaps (.inl hc)
    obtain rfl : r = r' := Except.ok.inj (hr.symm.trans hr')
    rw [hdata, hfind, if_pos hc, hp.data_eq hid, ScopeTree.place_bound]
  · obtain ⟨q, rfl, hq⟩ := hpath c hfound
    rw [hq, (Place.search_gapless hk hgaps hr).1 hc]
    rfl
  · obtain ⟨n, hn, hnear, hcov, hplace⟩ := hp.nearest key.text hid
    have hsame : (s.tree.place n).search host ⟨raw, propagate⟩ key = .ok r := by
      rw [← hr]
      simp only [Place.search, hc, hplace, Place.nearest_of_covers (p := s.tree.place n) hcov,
        Bool.false_eq_true, if_false]
    refine ⟨n, hnear, ?_, fun c hfound => ?_⟩
    · obtain ⟨r', hr', hfind⟩ := OnePass.search_find host ⟨raw, propagate⟩ (hp.place_clean hn) hk
        hgaps (.inr hcov)
      obtain rfl : r = r' := Except.ok.inj (hsame.symm.trans hr')
      rw [hdata, hfind, if_neg (by simp [hc]), hp.data_eq hn, ScopeTree.place_bound]
      rfl
    · obtain ⟨q, rfl, hq⟩ := hpath c hfound
      rw [hq, (Place.search_gapless hk hgaps hr).2 hc (hplace ▸ hcov)]

/-- From an overlay, what its path covers is looked up in what it holds. -/
theorem search_lookup_overlay :
    let host : Host Unit := ⟨fun _ _ _ _ => .error "fails"⟩
    let policy : FailurePolicy := ⟨"\x7b\x7ba.b\x7d\x7d", true⟩
    let s := (Request.overlay 1 (.item 0) (.record [("b", .string "new")])).after host policy <|
      (Request.search ScopeTree.root (.ofPath "a" true)).after host policy
        ⟨ScopeTree.new (.record [("a", .record [("b", .string "old")])]), []⟩
    s.tree.path 2 = "a" ∧ ∃ found s', Run.search host policy 2 (.ofPath "a.b" false) s = .ok found s' ∧
      found.map (fun c => (s'.tree.data c).string?) = some (some "new") := by
  intro host policy s
  have hs : Reachable host (fun v => v.isData = true) Request.IsPlain s :=
    .after policy (.after policy (.new [] (by decide +kernel)) Nat.zero_lt_one
      ⟨by decide +kernel, by decide +kernel⟩) ⟨by decide +kernel, by decide +kernel⟩
      (by rw [Request.IsPlain]; decide +kernel)
  have hkey : (Key.ofPath "a.b" false).Formed := ⟨by decide +kernel, by decide +kernel⟩
  have hlt : 2 < s.tree.scopes.size := by decide +kernel
  obtain ⟨found, s', hrun, -, habsolute⟩ := search_lookup hs hlt hkey (by decide +kernel) policy
  obtain ⟨n, hnear, hfound, -⟩ := habsolute rfl
  have hcov : s.tree.covers 2 "a.b" = true := by decide +kernel
  obtain rfl : n = 2 := by
    cases hnear with
    | here => rfl
    | above outside => exact absurd (hcov.symm.trans outside) (by decide)
  have hvalue : ((s.tree.data 2).find? "" ((Key.ofPath "a.b" false).segments.drop
      (pathDepth (s.tree.path 2)))).map Value.string? = some (some "new") := by decide +kernel
  refine ⟨by decide +kernel, found, s', hrun, ?_⟩
  rw [← hvalue, ← hfound, Option.map_map]
  rfl

end Reachable

end TextTemplate
