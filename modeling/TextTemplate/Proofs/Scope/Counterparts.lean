import TextTemplate.Proofs.Scope.Bare
import TextTemplate.Proofs.Scope.Lineage

/-!
Two trees over the same data. Scopes of one correspond to scopes of the other when they stand in one
place and come from the same caches. Fields may be made and functions frozen in one of the trees alone;
as long as overlays are made in both, at corresponding scopes, what is found in one tree corresponds to
what is found in the other.
-/
namespace TextTemplate
variable {φ : Type}

namespace ScopeTree

variable {host : Host φ} {propagate : Bool} {data : Value φ} {t t' u u' : ScopeTree φ}
  {id a a' : ScopeId} {key key' : OverlayKey}

/-- The scope `a'` is in the tree `u` what `a` is in `t`. -/
structure Counterpart (t u : ScopeTree φ) (a a' : ScopeId) : Prop where
  lt : a < t.scopes.size
  lt' : a' < u.scopes.size
  place : u.place a' = t.place a
  lineage : u.lineage a' = t.lineage a

namespace Counterpart

theorem symm (h : Counterpart t u a a') : Counterpart u t a' a :=
  ⟨h.lt', h.lt, h.place.symm, h.lineage.symm⟩

theorem mono (h : Counterpart t u a a') (he : t.Extends t') (he' : u.Extends u') :
    Counterpart t' u' a a' where
  lt := he.lt h.lt
  lt' := he'.lt h.lt'
  place := by rw [he.place_eq h.lt, he'.place_eq h.lt', h.place]
  lineage := by rw [he.lineage_eq h.lt, he'.lineage_eq h.lt', h.lineage]

theorem unique (hu : u.Traced) {b : ScopeId} (h : Counterpart t u a a')
    (h' : Counterpart t u a b) : a' = b :=
  hu.unique h.lt' h'.lt' (h.place.trans h'.place.symm) (h.lineage.trans h'.lineage.symm)

theorem unique_all (hu : u.Traced) {as bs cs : List ScopeId}
    (h : List.Forall₂ (Counterpart t u) as bs) (h' : List.Forall₂ (Counterpart t u) as cs) :
    bs = cs := by
  induction h generalizing cs with
  | nil => cases h'; rfl
  | cons hab _ ih =>
    cases h' with
    | cons hac hrest => rw [hab.unique hu hac, ih hrest]

theorem path (h : Counterpart t u a a') : u.path a' = t.path a := congrArg Place.path h.place

end Counterpart

/-- Overlay keys that correspond: the scopes of their functions do. -/
structure SameKey (t u : ScopeTree φ) (key key' : OverlayKey) : Prop where
  index : key'.index = key.index
  chain : List.Forall₂ (Counterpart t u) key.chain key'.chain

namespace SameKey

theorem item (index : Nat) : SameKey t u (.item index) (.item index) := ⟨rfl, .nil⟩

theorem symm (h : SameKey t u key key') : SameKey u t key' key :=
  ⟨h.index.symm, h.chain.flip.imp fun _ _ hc => hc.symm⟩

theorem mono (h : SameKey t u key key') (he : t.Extends t') (he' : u.Extends u') :
    SameKey t' u' key key' :=
  ⟨h.index, h.chain.imp fun _ _ hc => hc.mono he he'⟩

theorem unique (hu : u.Traced) {other : OverlayKey} (h : SameKey t u key key')
    (h' : SameKey t u key other) : key' = other := by
  obtain ⟨index, chain⟩ := key'
  obtain ⟨index', chain'⟩ := other
  obtain rfl : index = index' := h.index.trans h'.index.symm
  obtain rfl : chain = chain' := Counterpart.unique_all hu h.chain h'.chain
  rfl

theorem chain_lt (h : SameKey t u key key') : ∀ c ∈ key.chain, c < t.scopes.size := by
  intro c hc
  obtain ⟨i, hi, rfl⟩ := List.getElem_of_mem hc
  exact (h.chain.get hi (h.chain.length_eq ▸ hi)).lt

end SameKey

/-- Every overlay of `t` has its counterpart in `u`. -/
def Mirrored (t u : ScopeTree φ) : Prop :=
  ∀ a key o, (t.scope a).overlays.lookup key = some o → ∃ a' key' o', Counterpart t u a a' ∧
    SameKey t u key key' ∧ (u.scope a').overlays.lookup key' = some o' ∧ Counterpart t u o o'

/-- The trees have the same overlays. -/
structure Alike (t u : ScopeTree φ) : Prop where
  caches : u.caches.size = t.caches.size
  forth : Mirrored t u
  back : Mirrored u t

theorem Alike.symm (h : Alike t u) : Alike u t := ⟨h.caches.symm, h.back, h.forth⟩

/-- Under corresponding keys, corresponding scopes have corresponding overlays. -/
theorem Alike.lookup (h : Alike t u) (ht : t.Traced) (hu : u.Traced) (ha : Counterpart t u a a')
    (hk : SameKey t u key key') :
    Option.Rel (Counterpart t u) ((t.scope a).overlays.lookup key)
      ((u.scope a').overlays.lookup key') := by
  cases hl : (t.scope a).overlays.lookup key with
  | some o =>
    obtain ⟨b, other, o', hb, hother, hl', ho⟩ := h.forth a key o hl
    rw [ha.unique hu hb, hk.unique hu hother, hl']
    exact .some ho
  | none =>
    cases hl' : (u.scope a').overlays.lookup key' with
    | none => exact .none
    | some o' =>
      obtain ⟨b, other, o, hb, hother, hlb, -⟩ := h.back a' key' o' hl'
      rw [← ha.symm.unique ht hb, ← hk.symm.unique ht hother, hl] at hlb
      cases hlb

theorem Mirrored.step_left (h : Mirrored t u) (he : t.Extends t')
    (hov : ∀ i, (t'.scope i).overlays = (t.scope i).overlays) : Mirrored t' u := by
  intro a key o hl
  rw [hov] at hl
  obtain ⟨a', key', o', ha, hk, hl', ho⟩ := h a key o hl
  exact ⟨a', key', o', ha.mono he (.refl _), hk.mono he (.refl _), hl', ho.mono he (.refl _)⟩

theorem Mirrored.step_right (h : Mirrored t u) (he : u.Extends u')
    (hov : ∀ i, (u'.scope i).overlays = (u.scope i).overlays) : Mirrored t u' := by
  intro a key o hl
  obtain ⟨a', key', o', ha, hk, hl', ho⟩ := h a key o hl
  exact ⟨a', key', o', ha.mono (.refl _) he, hk.mono (.refl _) he, by rw [hov, hl'],
    ho.mono (.refl _) he⟩

theorem Alike.step (h : Alike t u) (he : u.Extends u') (hcaches : u'.caches.size = u.caches.size)
    (hov : ∀ i, (u'.scope i).overlays = (u.scope i).overlays) : Alike t u' :=
  ⟨hcaches.trans h.caches, h.forth.step_right he hov, h.back.step_left he hov⟩

theorem scope_of_size_le (h : t.scopes.size ≤ id) : t.scope id = default := by
  simp [scope, Array.getD_eq_getD_getElem?, h]

theorem AddsField.overlays {name : String} {w : Value φ} (ha : t.AddsField t' id name w)
    (i : ScopeId) : (t'.scope i).overlays = (t.scope i).overlays := by
  by_cases hid : i = id
  · rw [hid, ha.self]
  · rcases Nat.lt_trichotomy i t.scopes.size with hlt | rfl | hgt
    · rw [ha.grows.others i hlt hid]
    · rw [ha.grows.made, scope_of_size_le (Nat.le_refl _)]
      rfl
    · rw [scope_of_size_le (Nat.le_of_lt hgt),
        scope_of_size_le (by rw [ha.grows.size]; exact hgt)]

section Overlays

variable {v : Value φ}

theorem AddsOverlay.lookup_kept (ha : t.AddsOverlay t' id key v)
    (hnone : (t.scope id).overlays.lookup key = none) {i : ScopeId} {k : OverlayKey} {o : ScopeId}
    (hl : (t.scope i).overlays.lookup k = some o) : (t'.scope i).overlays.lookup k = some o := by
  by_cases hid : i = id
  · subst hid
    rw [ha.self, List.lookup_cons]
    split
    · rename_i heq
      rw [beq_iff_eq.1 heq, hnone] at hl
      cases hl
    · exact hl
  · by_cases hlt : i < t.scopes.size
    · rw [ha.grows.others i hlt hid, hl]
    · rw [scope_of_size_le (Nat.le_of_not_lt hlt)] at hl
      cases hl

theorem AddsOverlay.lookup_cases (ha : t.AddsOverlay t' id key v) {i : ScopeId} {k : OverlayKey}
    {o : ScopeId} (hl : (t'.scope i).overlays.lookup k = some o) :
    (i = id ∧ k = key ∧ o = t.scopes.size) ∨ (t.scope i).overlays.lookup k = some o := by
  by_cases hid : i = id
  · subst hid
    rw [ha.self, List.lookup_cons] at hl
    split at hl
    · rename_i heq
      exact .inl ⟨rfl, beq_iff_eq.1 heq, (Option.some.inj hl).symm⟩
    · exact .inr hl
  · refine .inr ?_
    rcases Nat.lt_trichotomy i t.scopes.size with hlt | rfl | hgt
    · rwa [ha.grows.others i hlt hid] at hl
    · rw [ha.grows.made] at hl
      cases hl
    · rw [scope_of_size_le (by rw [ha.grows.size]; exact hgt)] at hl
      cases hl

theorem Mirrored.adds (h : Mirrored t u) (ha : t.AddsOverlay t' a key v)
    (hu : u.AddsOverlay u' a' key' v) (hnone : (u.scope a').overlays.lookup key' = none)
    (hc : Counterpart t u a a') (hk : SameKey t u key key')
    (hnew : Counterpart t' u' t.scopes.size u.scopes.size) : Mirrored t' u' := by
  have he := ha.grows.kept
  have he' := hu.grows.kept
  intro i k o hl
  rcases ha.lookup_cases hl with ⟨rfl, rfl, rfl⟩ | hold
  · refine ⟨a', key', u.scopes.size, hc.mono he he', hk.mono he he', ?_, hnew⟩
    rw [hu.self]
    exact List.lookup_cons_self
  · obtain ⟨b, other, o', hb, hother, hl', ho⟩ := h i k o hold
    exact ⟨b, other, o', hb.mono he he', hother.mono he he', hu.lookup_kept hnone hl',
      ho.mono he he'⟩

theorem lookup_overlay (hid : id < t.scopes.size) (key : OverlayKey) (v : Value φ) :
    ((t.overlay id key v).2.scope id).overlays.lookup key = some (t.overlay id key v).1 := by
  have hcase := overlay_cases hid key v
  generalize t.overlay id key v = r at hcase ⊢
  cases hcase with
  | there there => exact there
  | made _ adds =>
    rw [adds.self]
    exact List.lookup_cons_self

/-- An overlay has a cache of its own, and stands below what its scope stands below. -/
theorem AddsOverlay.lineage (ha : t.AddsOverlay t' id key v) (ht : t.Traced)
    (hid : id < t.scopes.size) :
    t'.lineage t.scopes.size = t.caches.size :: (t.lineage id).tail := by
  have hcache : (t'.scope t.scopes.size).cache = t.caches.size := by
    rw [ha.grows.made]
    rfl
  have hparent : t'.parent? t.scopes.size = t.parent? id := by
    rw [parent?, ha.grows.made]
    rfl
  cases hp : t.parent? id with
  | none =>
    rw [lineage_of_orphan (hparent.trans hp), lineage_of_orphan hp, hcache]
    rfl
  | some p =>
    have hlt := ht.parent_lt hid hp
    have hps := Nat.lt_trans hlt hid
    rw [lineage_of_parent (hparent.trans hp) hps, lineage_of_parent hp hlt, hcache,
      ha.grows.kept.lineage_eq hps]
    rfl

end Overlays

/-- What came out of functions can be read without a call. -/
def ResultsReady (t : ScopeTree φ) : Prop :=
  ∀ a key o, (t.scope a).overlays.lookup key = some o → key.chain ≠ [] →
    o < t.scopes.size ∧ t.Ready o

theorem ResultsReady.step (h : t.ResultsReady) (he : t.Extends t')
    (hov : ∀ i, (t'.scope i).overlays = (t.scope i).overlays) : t'.ResultsReady := by
  intro a key o hl hchain
  rw [hov] at hl
  obtain ⟨hlt, hr⟩ := h a key o hl hchain
  exact ⟨he.lt hlt, he.isReady hlt hr⟩

/-- What is known of a tree that is kept beside the tree `u`. -/
def Beside (host : Host φ) (propagate : Bool) (data : Value φ) (u t : ScopeTree φ) : Prop :=
  t.FaithfulBare host propagate data ∧ (t.Traced ∧ t.ResultsReady) ∧ Alike u t

namespace Beside

theorem faithful (h : Beside host propagate data u t) : t.FaithfulBare host propagate data := h.1

theorem traced (h : Beside host propagate data u t) : t.Traced := h.2.1.1

theorem results (h : Beside host propagate data u t) : t.ResultsReady := h.2.1.2

theorem alike (h : Beside host propagate data u t) : Alike u t := h.2.2

theorem stands_top (h : Beside host propagate data u t) : t.Stands root (.top data) :=
  ⟨h.faithful.top_lt, h.faithful.top_place⟩

theorem lineage_root (h : Beside host propagate data u t) : t.lineage root = [0] := by
  have hparent : t.parent? root = none := by
    cases hp : t.parent? root with
    | none => rfl
    | some p => exact absurd (h.traced.parent_lt h.faithful.top_lt hp) (Nat.not_lt_zero p)
  rw [lineage_of_orphan hparent, h.traced.wellFormed.top_cache]

theorem counterpart_root (h : Beside host propagate data u t) (h' : Beside host propagate data t u) :
    Counterpart t u root root :=
  ⟨h.stands_top.1, h'.stands_top.1, h'.stands_top.2.trans h.stands_top.2.symm,
    h'.lineage_root.trans h.lineage_root.symm⟩

/-- Beside another tree that has the same overlays. -/
theorem turn (h : Beside host propagate data u t) (ha : Alike u' t) :
    Beside host propagate data u' t := ⟨h.faithful, h.2.1, ha⟩

end Beside

theorem overlays_new (data : Value φ) (a : ScopeId) : ((new data).scope a).overlays = [] := by
  by_cases ha : a = root
  · rw [ha, show (new data).scope root = fresh data "" none root 0 from
      scope_insert_self empty data "" none none 0]
    rfl
  · rw [scope_of_size_le (Nat.pos_of_ne_zero ha)]
    rfl

theorem beside_new (host : Host φ) (propagate : Bool) (hd : data.isFunction = false) :
    Beside host propagate data (new data) (new data) := by
  have hmirrored : Mirrored (new data) (new data) := fun a key o hl => by
    rw [overlays_new] at hl
    cases hl
  refine ⟨faithfulBare_new host propagate hd, ⟨traced_new data, fun a key o hl => ?_⟩, rfl,
    hmirrored, hmirrored⟩
  rw [overlays_new] at hl
  cases hl

/-- Functions frozen and fields made in one of the trees leave it beside the other. -/
theorem lasting_beside (u : ScopeTree φ) :
    Run.Lasting host propagate data fun t => (t.Traced ∧ t.ResultsReady) ∧ Alike u t where
  settles hf hk hid hc hs := by
    have he := hs.kept hc (hf.pending hid hc)
    have hov := hs.same Scope.overlays fun _ _ => rfl
    exact ⟨⟨hs.traced hk.1.1 hid hc, hk.1.2.step he hov⟩, hk.2.step he hs.caches hov⟩
  field _ hk hid hnone ha :=
    ⟨⟨ha.traced hk.1.1 hid hnone, hk.1.2.step ha.grows.kept ha.overlays⟩,
      hk.2.step ha.grows.kept ha.caches ha.overlays⟩

theorem AddsOverlay.resultsReady {v : Value φ} (ha : t.AddsOverlay t' id key v)
    (h : t.ResultsReady) (hv : key.chain ≠ [] → v.isFunction = false) : t'.ResultsReady := by
  intro i k o hl hchain
  rcases ha.lookup_cases hl with ⟨-, rfl, rfl⟩ | hold
  · exact ⟨ha.grows.made_lt, v,
      content_of_fresh ha.grows.made (hv hchain)⟩
  · obtain ⟨hlt, hr⟩ := h i k o hold hchain
    exact ⟨ha.grows.kept.lt hlt, ha.grows.kept.isReady hlt hr⟩

/-- The overlays of corresponding scopes, under corresponding keys and over one value, correspond, made
or found. -/
theorem beside_overlay {v : Value φ} (hd : data.isData = false)
    (ht : Beside host propagate data u t) (hu : Beside host propagate data t u)
    (ha : Counterpart t u a a') (hk : SameKey t u key key')
    (hv : key.chain ≠ [] → v.isFunction = false) :
    t.Extends (t.overlay a key v).2 ∧ u.Extends (u.overlay a' key' v).2 ∧
      Beside host propagate data (u.overlay a' key' v).2 (t.overlay a key v).2 ∧
      Beside host propagate data (t.overlay a key v).2 (u.overlay a' key' v).2 ∧
      Counterpart (t.overlay a key v).2 (u.overlay a' key' v).2 (t.overlay a key v).1
        (u.overlay a' key' v).1 := by
  have hlookup := ht.alike.symm.lookup ht.traced hu.traced ha hk
  have hcase := overlay_cases ha.lt key v
  have hcase' := overlay_cases ha.lt' key' v
  generalize t.overlay a key v = r, u.overlay a' key' v = r' at hcase hcase' ⊢
  cases hcase with
  | there there =>
    rw [there] at hlookup
    cases hcase' with
    | there there' =>
      rw [there'] at hlookup
      cases hlookup with
      | some ho => exact ⟨.refl _, .refl _, ht, hu, ho⟩
    | made unmade' =>
      rw [unmade'] at hlookup
      cases hlookup
  | @made t₁ unmade adds =>
    rw [unmade] at hlookup
    cases hcase' with
    | there there' =>
      rw [there'] at hlookup
      cases hlookup
    | @made u₁ unmade' adds' =>
      have hno : data.isData = true → v.isData = true := fun h => by
        rw [hd] at h
        cases h
      have hchain := hk.chain_lt
      have hchain' := hk.symm.chain_lt
      have hv' : key'.chain ≠ [] → v.isFunction = false := fun hne => hv fun he => by
        have hlen := hk.chain.length_eq
        rw [he] at hlen
        exact hne (List.length_eq_zero_iff.1 hlen.symm)
      obtain ⟨hf, hplace⟩ := adds.faithfulBare ht.faithful ha.lt hno
      obtain ⟨hf', hplace'⟩ := adds'.faithfulBare hu.faithful ha.lt' hno
      have hnew : Counterpart t₁ u₁ t.scopes.size u.scopes.size := by
        refine ⟨adds.grows.made_lt, adds'.grows.made_lt, ?_, ?_⟩
        · rw [hplace, hplace', ha.place]
        · rw [adds.lineage ht.traced ha.lt, adds'.lineage hu.traced ha.lt', ha.lineage,
            ht.alike.caches]
      have halike : Alike t₁ u₁ :=
        ⟨by rw [adds.caches, adds'.caches, hu.alike.caches],
          hu.alike.forth.adds adds adds' unmade' ha hk hnew,
          hu.alike.back.adds adds' adds unmade ha.symm hk.symm hnew.symm⟩
      exact ⟨adds.grows.kept, adds'.grows.kept,
        ⟨hf, ⟨adds.traced ht.traced ha.lt hchain, adds.resultsReady ht.results hv⟩, halike.symm⟩,
        ⟨hf', ⟨adds'.traced hu.traced ha.lt' hchain', adds'.resultsReady hu.results hv'⟩, halike⟩,
        hnew⟩

/-- The scope `c` is in the cache that a search for the key from `id` goes down in. -/
def FoundFrom (t : ScopeTree φ) (id : ScopeId) (key : Key) (c : ScopeId) : Prop :=
  ∃ n < t.scopes.size, (t.scope c).cache = (t.scope n).cache ∧
    if key.inContext then n = id
    else t.lineage n <:+ t.lineage id ∧ t.place n = (t.place id).nearest key.text

/-- What is found at one place from corresponding scopes corresponds. -/
theorem Counterpart.found {key : Key} {c c' : ScopeId} (ha : Counterpart t u a a') (ht : t.Traced)
    (hu : u.Traced) (hc : c < t.scopes.size) (hc' : c' < u.scopes.size)
    (hplace : u.place c' = t.place c) (h : t.FoundFrom a key c) (h' : u.FoundFrom a' key c') :
    Counterpart t u c c' := by
  obtain ⟨n, hn, hcache, hfrom⟩ := h
  obtain ⟨n', hn', hcache', hfrom'⟩ := h'
  refine ⟨hc, hc', hplace, hu.lineage_eq ht hc' hn' hc hn hcache' hcache ?_ hplace⟩
  split at hfrom
  · rw [if_pos ‹_›] at hfrom'
    rw [hfrom, hfrom', ha.lineage]
  · rw [if_neg ‹_›] at hfrom'
    obtain ⟨hsuffix, hnear⟩ := hfrom
    obtain ⟨hsuffix', hnear'⟩ := hfrom'
    rw [ha.lineage] at hsuffix'
    have hlen : (u.lineage n').length = (t.lineage n).length := by
      rw [length_lineage hu hn', length_lineage ht hn, hnear, hnear', ha.place]
    exact (List.suffix_of_suffix_length_le hsuffix' hsuffix (Nat.le_of_eq hlen)).eq_of_length hlen

end ScopeTree

namespace Run

open ScopeTree

variable {host : Host φ} {propagate : Bool} {data : Value φ} {t : ScopeTree φ}

theorem simulates_search_found (hpure : host.IsPure) (u : ScopeTree φ) {id : ScopeId} {p : Place φ}
    (hp : t.Stands id p) {key : Key} (hk : key.Formed) (raw : String) :
    Simulates (Beside host propagate data u) t (search host ⟨raw, propagate⟩ id key)
      (p.search host ⟨raw, propagate⟩ key) fun t' =>
        Option.Rel fun c q => t'.Stands c q ∧ t'.FoundFrom id key c := by
  intro s he hs
  have hid := (hp.mono he).1
  have hsim := simulates_search (searchable_bare hpure (lasting_beside u)) hp hk raw s he hs
  cases hx : p.search host ⟨raw, propagate⟩ key with
  | error e =>
    rw [hx] at hsim
    exact hsim
  | ok q =>
    rw [hx] at hsim
    obtain ⟨found, s', hrun, hext, hs', hrel⟩ := hsim
    refine ⟨found, s', hrun, hext, hs', ?_⟩
    have hfrom := ((leads_search_from hs.traced hid hk).of_ok hrun).2.2
    cases hrel with
    | none => exact .none
    | @some c q hst =>
      obtain ⟨n, hn, hcache⟩ := hfrom c rfl
      refine .some ⟨hst, ?_⟩
      rw [SearchedFrom] at hn
      split at hn
      · rename_i hc
        subst hn
        exact ⟨n, hext.lt hid, by rw [hcache, hext.cache n hid], by rw [if_pos hc]⟩
      · rename_i hc
        obtain ⟨hlt, hsuffix, hnear⟩ := hn.lt_and_suffix hs.traced hid
        refine ⟨n, hext.lt hlt, by rw [hcache, hext.cache n hlt], ?_⟩
        rw [if_neg hc, hext.lineage_eq hlt, hext.lineage_eq hid, hext.place_eq hlt,
          hext.place_eq hid]
        exact ⟨hsuffix, hnear.symm⟩

end Run

end TextTemplate
