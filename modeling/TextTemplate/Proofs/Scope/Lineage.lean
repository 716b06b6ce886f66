import TextTemplate.Proofs.Scope.Lookup
import Mathlib.Data.List.TakeWhile

/-!
Where scopes come from. Every scope is the first of its cache, or the one field of its name of a scope
in the same cache. So a scope is known by its place and by the caches of what stands above it, and a
search, which never leaves the cache it goes down in, finds a scope that is known in the same way.
-/
namespace TextTemplate
variable {φ : Type}

namespace ScopeTree

variable {t t' : ScopeTree φ} {id : ScopeId}

/-- The caches of a scope and of what stands above it, nearest first. -/
def lineage (t : ScopeTree φ) (id : ScopeId) : List Nat :=
  (t.scope id).cache :: match t.parent? id with
    | some p => if p < id then lineage t p else []
    | none => []
termination_by id

theorem lineage_of_parent {p : ScopeId} (h : t.parent? id = some p) (hp : p < id) :
    t.lineage id = (t.scope id).cache :: t.lineage p := by
  rw [lineage, h]
  simp [hp]

theorem lineage_of_orphan (h : t.parent? id = none) : t.lineage id = [(t.scope id).cache] := by
  rw [lineage, h]

theorem head?_lineage (t : ScopeTree φ) (id : ScopeId) :
    (t.lineage id).head? = some (t.scope id).cache := by
  rw [lineage]
  rfl

theorem Extends.lineage_eq (h : t.Extends t') (hid : id < t.scopes.size) :
    t'.lineage id = t.lineage id := by
  induction id using Nat.strongRecOn with
  | _ id ih =>
    rw [lineage, lineage, h.parent id hid, h.cache id hid]
    cases t.parent? id with
    | none => rfl
    | some p =>
      by_cases hlt : p < id
      · simp only [hlt, if_true, ih p hlt (Nat.lt_trans hlt hid)]
      · simp only [hlt, if_false]

/-- Where a scope comes from. -/
inductive Origin (t : ScopeTree φ) (id : ScopeId) : Prop where
  | first (own : ∀ i < id, (t.scope i).cache ≠ (t.scope id).cache)
  | field {p : ScopeId} {name : String} (lt : p < t.scopes.size)
      (there : (t.scope p).fields.lookup name = some id)

structure Traced (t : ScopeTree φ) : Prop where
  wellFormed : t.WellFormed
  orphan : ∀ id < t.scopes.size, t.parent? id = none → t.path id = ""
  origin : ∀ id < t.scopes.size, t.Origin id

theorem Origin.mono (h : t.Origin id) (hid : id < t.scopes.size) (he : t.Extends t')
    (hfields : ∀ p < t.scopes.size, ∀ name c, (t.scope p).fields.lookup name = some c →
      (t'.scope p).fields.lookup name = some c) : t'.Origin id := by
  cases h with
  | first own =>
    refine .first fun i hi => ?_
    rw [he.cache i (Nat.lt_trans hi hid), he.cache id hid]
    exact own i hi
  | @field p name lt there => exact .field (he.lt lt) (hfields p lt name id there)

theorem Grows.traced {v : Value φ} {path : String} {parent : Option ScopeId} {top : ScopeId}
    {cache : Nat} (hg : t.Grows t' id (fresh v path parent top cache)) (h : t.Traced)
    (hw : t'.WellFormed) (horphan : parent = none → path = "")
    (hfields : ∀ name c, (t.scope id).fields.lookup name = some c →
      (t'.scope id).fields.lookup name = some c)
    (horigin : t'.Origin t.scopes.size) : t'.Traced := by
  refine ⟨hw, fun i hi hnone => ?_, fun i hi => ?_⟩
  · rcases hg.older hi with hi | rfl
    · rw [hg.kept.path i hi]
      exact h.orphan i hi (by rw [← hg.kept.parent i hi, hnone])
    · rw [parent?, hg.made] at hnone
      rw [ScopeTree.path, hg.made]
      exact horphan hnone
  · rcases hg.older hi with hi | rfl
    · refine (h.origin i hi).mono hi hg.kept fun p hp name c hc => ?_
      by_cases hne : p = id
      · subst hne
        exact hfields name c hc
      · rw [hg.others p hp hne, hc]
    · exact horigin

theorem AddsField.traced {name : String} {w : Value φ} (ha : t.AddsField t' id name w)
    (h : t.Traced) (hid : id < t.scopes.size) (hnone : (t.scope id).fields.lookup name = none) :
    t'.Traced := by
  have hthere : (t'.scope id).fields.lookup name = some t.scopes.size := by
    rw [ha.self]
    exact List.lookup_cons_self
  refine ha.grows.traced h (ha.wellFormed h.wellFormed hid) (by simp) (fun n c hc => ?_)
    (.field (ha.grows.kept.lt hid) hthere)
  rw [ha.self, List.lookup_cons]
  split
  · rename_i heq
    rw [beq_iff_eq.1 heq, hnone] at hc
    cases hc
  · exact hc

theorem AddsOverlay.traced {key : OverlayKey} {v : Value φ} (ha : t.AddsOverlay t' id key v)
    (h : t.Traced) (hid : id < t.scopes.size) (hchain : ∀ c ∈ key.chain, c < t.scopes.size) :
    t'.Traced :=
  ha.grows.traced h (ha.wellFormed h.wellFormed hid hchain) (h.orphan id hid)
    (fun _ _ hc => by rwa [ha.self]) (.first (ha.overlayOf h.wellFormed hid hchain).cache)

theorem Settles.traced {v : Value φ} (hs : t.Settles t' id v) (h : t.Traced)
    (hid : id < t.scopes.size) {f : φ} (hf : (t.scope id).content = .pending f) : t'.Traced := by
  have he := hs.kept hf (h.wellFormed.pending id hid f hf)
  refine ⟨hs.wellFormed h.wellFormed hid hf, fun i hi hnone => ?_, fun i hi => ?_⟩ <;>
    rw [hs.size] at hi
  · rw [he.path i hi]
    exact h.orphan i hi (by rw [← he.parent i hi, hnone])
  · exact (h.origin i hi).mono hi he fun p _ _ _ hc => by
      rwa [hs.same Scope.fields (fun _ _ => rfl) p]

theorem traced_new (data : Value φ) : (new data).Traced := by
  have hscope : (new data).scope root = fresh data "" none root 0 :=
    scope_insert_self empty data "" none none 0
  have honly : ∀ id < (new data).scopes.size, id = root := fun id hid => Nat.lt_one_iff.1 hid
  refine ⟨wellFormed_new data, fun i hi _ => ?_, fun i hi => .first fun j hj => ?_⟩
  · rw [honly i hi, ScopeTree.path, hscope]
    rfl
  · rw [honly i hi] at hj
    exact absurd hj (Nat.not_lt_zero _)

theorem traced_newAt (data : Value φ) (path : String) (v : Value φ) :
    (newAt data path v).2.Traced := by
  by_cases hpath : path = ""
  · rw [hpath, newAt_root]
    exact traced_new v
  · obtain ⟨-, -, hg, hroot, -⟩ := newAt_grows data v hpath
    refine hg.traced (traced_new data) (wellFormed_newAt data path v) (by simp)
      (fun _ _ hc => by rwa [hroot]) (.first fun i hi => ?_)
    obtain rfl : i = root := Nat.lt_one_iff.1 hi
    rw [hroot, (wellFormed_new data).top_cache, hg.made]
    exact Nat.zero_ne_one

theorem upheld_traced : Upheld (Traced (φ := φ)) where
  wellFormed h := h.wellFormed
  settles h hid hf _ hs := hs.traced h hid hf
  field h hid _ hnone ha := ha.traced h hid hnone
  item h hid _ ha := ha.traced h hid (by simp [OverlayKey.item])

end ScopeTree

theorem Reachable.traced {host : Host φ} {values : Value φ → Prop} {requests : Request φ → Prop}
    {s : Session φ} (h : Reachable host values requests s) : s.tree.Traced :=
  h.upheld ScopeTree.upheld_traced ScopeTree.traced_new ScopeTree.traced_newAt
    fun ht hid hchain ha => ha.traced ht hid hchain

namespace ScopeTree

variable {t t' : ScopeTree φ} {id : ScopeId}

namespace Traced

theorem parent_lt (h : t.Traced) (hid : id < t.scopes.size) {p : ScopeId}
    (hp : t.parent? id = some p) : p < id :=
  h.wellFormed.parent id hid p hp

/-- A scope is the first of its cache, or a field of a scope in the cache. -/
private theorem first_or_field (h : t.Traced) (hid : id < t.scopes.size) :
    (∀ i < id, (t.scope i).cache ≠ (t.scope id).cache) ∨
      ∃ p name, (t.scope p).fields.lookup name = some id ∧ t.FieldOf p name id := by
  cases h.origin id hid with
  | first own => exact .inl own
  | @field p name lt there =>
    exact .inr ⟨p, name, there, h.wellFormed.fields p lt name id (mem_of_lookup there)⟩

theorem cache_eq {i j : ScopeId} (hline : t.lineage i = t'.lineage j) :
    (t.scope i).cache = (t'.scope j).cache := by
  have hhead := congrArg List.head? hline
  rw [head?_lineage, head?_lineage] at hhead
  exact Option.some.inj hhead

/-- A cache has one first scope. -/
private theorem first_unique {i j : ScopeId} (own : ∀ k < i, (t.scope k).cache ≠ (t.scope i).cache)
    (own' : ∀ k < j, (t.scope k).cache ≠ (t.scope j).cache)
    (hcache : (t.scope i).cache = (t.scope j).cache) : i = j := by
  rcases Nat.lt_trichotomy i j with hlt | heq | hlt
  · exact absurd hcache (own' i hlt)
  · exact heq
  · exact absurd hcache.symm (own j hlt)

/-- The first scope of a cache has nothing of the cache above it. -/
theorem not_field (h : t.Traced) {i j p : ScopeId} {name : String} (hi : i < t.scopes.size)
    (own : ∀ k < i, (t.scope k).cache ≠ (t.scope i).cache) (hj : t.FieldOf p name j)
    (hline : t.lineage i = t.lineage j) : False := by
  have hcache := cache_eq hline
  rw [lineage_of_parent hj.parent hj.newer] at hline
  cases hpi : t.parent? i with
  | none =>
    rw [lineage_of_orphan hpi] at hline
    have hnil := (List.cons.inj hline).2
    rw [lineage] at hnil
    cases hnil
  | some q =>
    have hlt := h.parent_lt hi hpi
    rw [lineage_of_parent hpi hlt] at hline
    refine own q hlt ?_
    rw [cache_eq (List.cons.inj hline).2, hcache, hj.cache]

theorem unique (h : t.Traced) {i j : ScopeId} (hi : i < t.scopes.size) (hj : j < t.scopes.size)
    (hplace : t.place i = t.place j) (hline : t.lineage i = t.lineage j) : i = j := by
  induction i using Nat.strongRecOn generalizing j with
  | _ i ih =>
    have hcache := cache_eq hline
    rcases h.first_or_field hi with own | ⟨p, name, there, hf⟩ <;>
      rcases h.first_or_field hj with own' | ⟨p', name', there', hf'⟩
    · exact first_unique own own' hcache
    · exact (h.not_field hi own hf' hline).elim
    · exact (h.not_field hj own' hf hline.symm).elim
    · have habove : t.place p = t.place p' := by
        have ha := congrArg Place.above hplace
        rw [ScopeTree.place, ScopeTree.place, above_of_parent hf.parent hf.newer,
          above_of_parent hf'.parent hf'.newer] at ha
        obtain ⟨hspot, hrest⟩ := List.cons.inj ha
        exact congrArg₂ Place.mk hspot hrest
      have hlines : t.lineage p = t.lineage p' := by
        rw [lineage_of_parent hf.parent hf.newer, lineage_of_parent hf'.parent hf'.newer] at hline
        exact (List.cons.inj hline).2
      obtain rfl := ih p hf.newer (Nat.lt_trans hf.newer hi) (Nat.lt_trans hf'.newer hj) habove hlines
      have hname : name = name' := by
        have hpath : t.path i = t.path j := congrArg Place.path hplace
        rw [hf.path, hf'.path] at hpath
        exact (String.append_right_inj _).1 hpath
      rw [hname] at there
      exact Option.some.inj (there.symm.trans there')

end Traced

theorem length_lineage (h : t.Traced) (hid : id < t.scopes.size) :
    (t.lineage id).length = (t.place id).above.length + 1 := by
  induction id using Nat.strongRecOn with
  | _ id ih =>
    cases hp : t.parent? id with
    | none => rw [lineage_of_orphan hp, ScopeTree.place, above_of_orphan hp]; rfl
    | some p =>
      have hlt := h.parent_lt hid hp
      rw [lineage_of_parent hp hlt, ScopeTree.place, above_of_parent hp hlt, List.length_cons,
        List.length_cons, ih p hlt (Nat.lt_trans hlt hid)]

/-- What is above the first scope of a cache is above all of the cache. -/
theorem Traced.outer (h : t.Traced) {i j : ScopeId} (hi : i < t.scopes.size)
    (hj : j < t.scopes.size) (hcache : (t.scope i).cache = (t.scope j).cache) :
    (t.lineage i).dropWhile (· == (t.scope i).cache) =
      (t.lineage j).dropWhile (· == (t.scope i).cache) := by
  -- Up to the first scope of the cache, all is in the cache.
  have hfirst : ∀ id < t.scopes.size, ∃ o < t.scopes.size, (t.scope o).cache = (t.scope id).cache ∧
      (∀ k < o, (t.scope k).cache ≠ (t.scope o).cache) ∧
      (t.lineage id).dropWhile (· == (t.scope id).cache) =
        (t.lineage o).dropWhile (· == (t.scope id).cache) := by
    intro id hid
    induction id using Nat.strongRecOn with
    | _ id ih =>
      rcases h.first_or_field hid with own | ⟨p, name, -, hf⟩
      · exact ⟨id, hid, rfl, own, rfl⟩
      · obtain ⟨o, ho, hoc, own, hdrop⟩ := ih p hf.newer (Nat.lt_trans hf.newer hid)
        refine ⟨o, ho, hoc.trans hf.cache.symm, own, ?_⟩
        rw [lineage_of_parent hf.parent hf.newer, hf.cache, List.dropWhile_cons_of_pos (by simp),
          hdrop]
  obtain ⟨o, ho, hoc, own, hdrop⟩ := hfirst i hi
  obtain ⟨o', ho', hoc', own', hdrop'⟩ := hfirst j hj
  have hsame : (t.scope o).cache = (t.scope o').cache := by rw [hoc, hoc', hcache]
  obtain rfl := first_unique own own' hsame
  rw [hdrop, hcache, hdrop']

/-- Lists of one length are the same when they start with one entry and end in the same way. -/
theorem eq_of_dropWhile {k : Nat} {l l' : List Nat} (hlen : l.length = l'.length)
    (hdrop : l.dropWhile (· == k) = l'.dropWhile (· == k)) : l = l' := by
  have htake : ∀ l : List Nat, l.takeWhile (· == k) =
      List.replicate (l.takeWhile (· == k)).length k := fun l =>
    List.eq_replicate_of_mem fun b hb => by simpa using List.mem_takeWhile_imp hb
  have hsplit : ∀ l : List Nat, l.takeWhile (· == k) ++ l.dropWhile (· == k) = l := fun l =>
    List.takeWhile_append_dropWhile
  have hcount : (l.takeWhile (· == k)).length = (l'.takeWhile (· == k)).length := by
    rw [← hsplit l, ← hsplit l', hdrop, List.length_append, List.length_append] at hlen
    exact Nat.add_right_cancel hlen
  rw [← hsplit l, ← hsplit l', hdrop, htake l, htake l', hcount]

/-- What is found in corresponding caches at one place has one lineage. -/
theorem Traced.lineage_eq (h : t.Traced) (h' : t'.Traced) {c n c' n' : ScopeId}
    (hc : c < t.scopes.size) (hn : n < t.scopes.size) (hc' : c' < t'.scopes.size)
    (hn' : n' < t'.scopes.size) (hcache : (t.scope c).cache = (t.scope n).cache)
    (hcache' : (t'.scope c').cache = (t'.scope n').cache) (hline : t.lineage n = t'.lineage n')
    (hplace : t.place c = t'.place c') : t.lineage c = t'.lineage c' := by
  have hsame : (t.scope n).cache = (t'.scope n').cache := Traced.cache_eq hline
  refine eq_of_dropWhile (k := (t.scope n).cache) ?_ ?_
  · rw [length_lineage h hc, length_lineage h' hc', hplace]
  · rw [← hcache, h.outer hc hn hcache, hcache, hline, hsame, ← hcache', h'.outer hc' hn' hcache']

theorem Nearest.lt_and_suffix (h : t.Traced) {key : String} {n : ScopeId} (hn : t.Nearest key id n)
    (hid : id < t.scopes.size) :
    n < t.scopes.size ∧ t.lineage n <:+ t.lineage id ∧ (t.place id).nearest key = t.place n := by
  induction hn with
  | here covers => exact ⟨hid, List.suffix_refl _, Place.nearest_of_covers covers⟩
  | @above id p n outside parent _ ih =>
    have hlt := h.parent_lt hid parent
    obtain ⟨hn, hsuffix, hplace⟩ := ih (Nat.lt_trans hlt hid)
    refine ⟨hn, ?_, ?_⟩
    · rw [lineage_of_parent parent hlt]
      exact hsuffix.trans (List.suffix_cons _ _)
    · rw [place, above_of_parent parent hlt, ← hplace]
      exact if_neg (by simpa [covers] using outside)

theorem pathCovers_below {path key name : String} (h : pathCovers path key = true) :
    pathCovers path (pathStem key ++ name) = true := by
  have hstem : key.toList <+: (pathStem key).toList := by
    rw [pathStem]
    split
    · rename_i hempty
      obtain rfl := String.isEmpty_iff.1 hempty
      exact List.prefix_refl _
    · rw [String.toList_append]
      exact List.prefix_append _ _
  simp only [pathCovers, Bool.or_eq_true, decide_eq_true_eq, List.isPrefixOf_iff_prefix,
    String.toList_append] at h ⊢
  rcases h with rfl | hbelow
  · exact .inr (List.prefix_append _ _)
  · exact .inr ((hbelow.trans hstem).trans (List.prefix_append _ _))

/-- The first scope of a cache covers the paths of the cache. -/
private theorem Traced.first_covers (h : t.Traced) {o : ScopeId}
    (own : ∀ k < o, (t.scope k).cache ≠ (t.scope o).cache) (hid : id < t.scopes.size)
    (hcache : (t.scope id).cache = (t.scope o).cache) : t.covers o (t.path id) = true := by
  induction id using Nat.strongRecOn with
  | _ id ih =>
    rcases h.first_or_field hid with own' | ⟨p, name, -, hf⟩
    · rw [Traced.first_unique own' own hcache]
      simp [covers, pathCovers]
    · rw [hf.path]
      exact pathCovers_below
        (ih p hf.newer (Nat.lt_trans hf.newer hid) (hf.cache.symm.trans hcache))

/-- What a cache holds for a path is in the cache of the nearest scope that covers the path. -/
theorem Traced.nearest_of_known (h : t.Traced) {key : String} {hit : ScopeId}
    (hhit : hit < t.scopes.size) (hpath : t.path hit = key) (hid : id < t.scopes.size)
    (hcache : (t.scope hit).cache = (t.scope id).cache) :
    ∃ n, t.Nearest key id n ∧ (t.scope hit).cache = (t.scope n).cache := by
  induction id using Nat.strongRecOn with
  | _ id ih =>
    cases hcov : t.covers id key with
    | true => exact ⟨id, .here hcov, hcache⟩
    | false =>
      rcases h.first_or_field hid with own | ⟨p, name, -, hf⟩
      · have hcovers := h.first_covers own hhit hcache
        rw [hpath, hcov] at hcovers
        cases hcovers
      · obtain ⟨n, hn, hc⟩ := ih p hf.newer (Nat.lt_trans hf.newer hid) (hcache.trans hf.cache)
        exact ⟨n, .above hcov hf.parent hn, hc⟩

/-- Where a climb ends: in the cache of the nearest scope that covers the key, or there. -/
inductive Landing.From (t : ScopeTree φ) (key : String) (id : ScopeId) : Landing → Prop where
  | found {hit n : ScopeId} (lt : hit < t.scopes.size) (nearest : t.Nearest key id n)
      (cache : (t.scope hit).cache = (t.scope n).cache) : From t key id (.found hit)
  | descend {start : ScopeId} {segments : List String} (nearest : t.Nearest key id start) :
      From t key id (.descend start segments)

theorem Landing.From.above {key : String} {p : ScopeId} {l : Landing} (h : From t key p l)
    (hcov : t.covers id key = false) (hp : t.parent? id = some p) : From t key id l := by
  cases h with
  | found lt nearest cache => exact .found lt (.above hcov hp nearest) cache
  | descend nearest => exact .descend (.above hcov hp nearest)

theorem Traced.climb_from (h : t.Traced) (key : String) {segments : List String}
    (hseg : segments ≠ []) (hid : id < t.scopes.size) (useCache : Bool) :
    Landing.From t key id (t.climb key segments id useCache) := by
  have hclimb := climbs_climb h.wellFormed.parent key segments hid useCache
  generalize t.climb key segments id useCache = landing at hclimb ⊢
  induction hclimb with
  | known known =>
    obtain ⟨hlt, hc, hpath⟩ := h.wellFormed.cached _ _ _ (mem_of_lookup known)
    obtain ⟨n, hn, hcache⟩ := h.nearest_of_known hlt hpath hid hc
    exact .found hlt hn hcache
  | itself same =>
    have hpath := same.resolve_left hseg
    exact .found hid (.here (by simp [covers, pathCovers, hpath])) rfl
  | top _ orphan =>
    exact .descend (.here (by rw [covers, h.orphan _ hid orphan, pathCovers_iff.2 (by simp)]))
  | reached _ _ covers => exact .found hid (.here covers) rfl
  | covered _ _ covers => exact .descend (.here covers)
  | above _ parent older covers _ ih => exact (ih (Nat.lt_trans older hid)).above covers parent

/-- The scope a search for the key goes down from. -/
def SearchedFrom (t : ScopeTree φ) (id : ScopeId) (key : Key) (n : ScopeId) : Prop :=
  if key.inContext then n = id else t.Nearest key.text id n

end ScopeTree

namespace Run

open ScopeTree

variable {host : Host φ} {policy : FailurePolicy} {s : Session φ} {id : ScopeId}

/-- A search stays in the cache of the scope it goes down from. -/
theorem leads_search_from (hs : s.tree.Traced) (hid : id < s.tree.scopes.size) {key : Key}
    (hk : key.Formed) :
    Leads (fun s => s.tree.Traced) s (search host policy id key) fun r s' => ∀ c ∈ r, ∃ n,
      s.tree.SearchedFrom id key n ∧ (s'.tree.scope c).cache = (s.tree.scope n).cache := by
  have hJ := upheld_traced (φ := φ)
  -- What is found below `start` is in its cache.
  have hdown : ∀ {start target segments}, start < s.tree.scopes.size →
      s.tree.SearchedFrom id key start →
      Leads (fun s => s.tree.Traced) s (descend host policy target "" segments start) fun r s' =>
        ∀ c ∈ r, ∃ n, s.tree.SearchedFrom id key n ∧
          (s'.tree.scope c).cache = (s.tree.scope n).cache := by
    intro start target segments hlt hstart
    refine (leads_descend hJ hs hlt target "" segments).weaken fun r s' he _ hr c hc => ?_
    exact ⟨start, hstart, by rw [(hr c hc).2, he.cache start hlt]⟩
  rw [search]
  refine .look ?_
  cases hc : key.inContext with
  | true =>
    have hself : s.tree.SearchedFrom id key id := by simp [SearchedFrom, hc]
    simp only [if_true]
    split
    · refine .pure hs ?_
      rintro c ⟨⟩
      exact ⟨id, hself, rfl⟩
    · split
      · rename_i hit hknown
        refine .pure hs ?_
        rintro c ⟨⟩
        exact ⟨id, hself, (hs.wellFormed.known hknown).2⟩
      · split
        · refine .pure hs ?_
          rintro c ⟨⟩
          exact ⟨id, hself, rfl⟩
        · exact hdown hid hself
  | false =>
    have hfrom : ∀ n, s.tree.SearchedFrom id key n ↔ s.tree.Nearest key.text id n := fun n => by
      simp [SearchedFrom, hc]
    have hseg : key.segments ≠ [] := by
      rw [hk.segments]
      exact fun h => hk.text hc (splitPath_eq_nil.1 h)
    have hland := hs.climb_from key.text hseg hid true
    simp only [Bool.false_eq_true, if_false]
    split
    · rename_i hit hclimb
      rw [hclimb] at hland
      cases hland with
      | found _ nearest cache =>
        refine .pure hs ?_
        rintro c ⟨⟩
        exact ⟨_, (hfrom _).2 nearest, cache⟩
    · rename_i start segments hclimb
      rw [hclimb] at hland
      cases hland with
      | descend nearest =>
        exact hdown (nearest.lt_and_suffix hs hid).1 ((hfrom _).2 nearest)

end Run

end TextTemplate
