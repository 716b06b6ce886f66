import Mathlib.Data.List.Basic
import TextTemplate.Proofs.Bindings

/-!
What came out of functions, and where it is kept. The scope made for the result of a section's
functions is kept under the scopes of these functions, and a later section that passes the same scope
through them gets it back. So it holds what the first of these sections came to, whatever formats the
links of the others have.
-/
namespace TextTemplate
variable {φ : Type}

/-- The formats and escapes of the links of a section. -/
def Section.formats (head : Section) : List (Option String × Bool) :=
  head.links.map fun link => (link.format, link.escape)

/-- Of the links, only formats and escapes have a say in the result. -/
theorem Treeless.passThrough_formats {env : Env φ} {data : Value φ} {policy : FailurePolicy}
    {links links' : List Link} (h : links.map (fun link => (link.format, link.escape)) =
      links'.map fun link => (link.format, link.escape)) (fs : List φ) (v : Value φ) :
    passThrough env data policy (fs.zip links) v = passThrough env data policy (fs.zip links') v := by
  induction fs generalizing links links' v with
  | nil => rfl
  | cons f fs ih =>
    cases links with
    | nil =>
      obtain rfl : links' = [] := List.map_eq_nil_iff.1 h.symm
      rfl
    | cons link links =>
      obtain ⟨link', rest, rfl, hlink, hrest⟩ := List.map_eq_cons_iff.1 h.symm
      obtain ⟨hformat, hescape⟩ := Prod.mk.inj hlink
      simp only [List.zip_cons_cons, passThrough, hformat, hescape]
      exact congrArg _ (funext fun w => ih hrest.symm _)

/-- A section with functions whose inner scope was asked for, and what it resolved to. -/
structure Passage (φ : Type) where
  head : Section
  result : Resolution φ

namespace Passage

def value (e : Passage φ) : Value φ := e.result.value.getD .null

/-- The scopes of its functions. -/
def chain (e : Passage φ) : List ScopeId := e.result.chain.map Prod.fst

/-- Whether the scope `id` was passed through the functions of the scopes `chain`. -/
def passed (id : ScopeId) (chain : List ScopeId) (e : Passage φ) : Bool :=
  e.result.scope = id && e.chain = chain

theorem passed_iff {id : ScopeId} {chain : List ScopeId} {e : Passage φ} :
    e.passed id chain = true ↔ e.result.scope = id ∧ e.chain = chain := by
  simp [passed]

/-- What the tree `t` says of a passage. -/
structure Valid (env : Env φ) (t : ScopeTree φ) (e : Passage φ) : Prop where
  scope : e.result.scope < t.scopes.size
  ready : t.Ready e.result.scope
  root : t.Ready ScopeTree.root
  root_lt : ScopeTree.root < t.scopes.size
  chain : ∀ x ∈ e.result.chain, x.1 < t.scopes.size ∧ t.function? x.1 = some x.2
  passes : (∀ x ∈ e.result.chain, env.host.PureAt x.2) → ∀ raw,
    Treeless.passThrough env (t.data ScopeTree.root) (env.policy raw)
      ((e.result.chain.map Prod.snd).zip e.head.links) (t.data e.result.scope) = .ok e.value

theorem Valid.mono {env : Env φ} {t t' : ScopeTree φ} {e : Passage φ} (h : e.Valid env t)
    (he : t.Extends t') : e.Valid env t' where
  scope := he.lt h.scope
  ready := he.isReady h.scope h.ready
  root := he.isReady h.root_lt h.root
  root_lt := he.lt h.root_lt
  chain x hx := by
    obtain ⟨hlt, hf⟩ := h.chain x hx
    exact ⟨he.lt hlt, by rw [he.function x.1 hlt, hf]⟩
  passes hpure raw := by
    rw [he.data_eq h.root_lt h.root, he.data_eq h.scope h.ready]
    exact h.passes hpure raw

/-- Two passages of one scope and the same pure functions differ by their formats only. -/
theorem value_eq {env : Env φ} {t : ScopeTree φ} {e e' : Passage φ} (h : e.Valid env t)
    (h' : e'.Valid env t)
    (hsame : e.passed e'.result.scope e'.chain = true)
    (hformats : e.head.formats = e'.head.formats)
    (hpure : ∀ x ∈ e'.result.chain, env.host.PureAt x.2) : e.value = e'.value := by
  obtain ⟨hscope, hids⟩ := passed_iff.1 hsame
  -- The scopes of the functions tell the functions.
  have hsome : ∀ {e : Passage φ}, e.Valid env t → e.result.chain.map (fun x => some x.2) =
      e.chain.map t.function? := fun h => by
    rw [chain, List.map_map]
    exact List.map_congr_left fun x hx => (h.chain x hx).2.symm
  have hfunctions : e.result.chain.map Prod.snd = e'.result.chain.map Prod.snd := by
    refine List.map_injective_iff.2 (fun _ _ h => Option.some.inj h) ?_
    rw [List.map_map, List.map_map]
    exact (hsome h).trans (hids ▸ (hsome h').symm)
  have hpure' : ∀ x ∈ e.result.chain, env.host.PureAt x.2 := fun x hx => by
    have hmem := List.mem_map_of_mem (f := Prod.snd) hx
    rw [hfunctions] at hmem
    obtain ⟨y, hy, heq⟩ := List.mem_map.1 hmem
    exact heq ▸ hpure y hy
  have hpass := h.passes hpure' ""
  rw [hfunctions, hscope, Treeless.passThrough_formats hformats] at hpass
  exact Except.ok.inj (hpass.symm.trans (h'.passes hpure ""))

end Passage

/-- The scope `o` holds what the passage came to. -/
structure Passage.Held (t : ScopeTree φ) (o : ScopeId) (e : Passage φ) : Prop where
  lt : o < t.scopes.size
  ready : t.Ready o
  data : t.data o = e.value

theorem Passage.Held.mono {t t' : ScopeTree φ} {o : ScopeId} {e : Passage φ} (h : e.Held t o)
    (he : t.Extends t') : e.Held t' o :=
  ⟨he.lt h.lt, he.isReady h.lt h.ready, (he.data_eq h.lt h.ready).trans h.data⟩

/-- The overlays of results hold what the first passage of their key came to. -/
structure Kept (env : Env φ) (log : List (Passage φ)) (t : ScopeTree φ) : Prop where
  wellFormed : t.WellFormed
  rooted : t.Ready ScopeTree.root ∨ t.scopes.size = 1
  valid : ∀ e ∈ log, e.Valid env t
  memo : ∀ id < t.scopes.size, ∀ chain ≠ [], Option.Rel (fun o e => Passage.Held t o e)
    ((t.scope id).overlays.lookup (.result chain)) (log.find? (Passage.passed id chain))

namespace Kept

variable {env : Env φ} {log : List (Passage φ)} {t t' : ScopeTree φ} {id : ScopeId}

theorem held_mono {o : Option ScopeId} {e : Option (Passage φ)}
    (h : Option.Rel (fun o e => Passage.Held t o e) o e) (he : t.Extends t') :
    Option.Rel (fun o e => Passage.Held t' o e) o e := by
  cases h with
  | none => exact .none
  | some h => exact .some (h.mono he)

/-- Nothing was kept under a scope that was not there. -/
theorem find_none (h : Kept env log t) (hid : t.scopes.size ≤ id) (chain : List ScopeId) :
    log.find? (Passage.passed id chain) = none := by
  refine List.find?_eq_none.2 fun e he hp => ?_
  have hlt := (h.valid e he).scope
  rw [(Passage.passed_iff.1 hp).1] at hlt
  exact absurd hlt (Nat.not_lt.2 hid)

/-- What leaves the overlays of results alone. -/
theorem mono (h : Kept env log t) (he : t.Extends t') (hw : t'.WellFormed)
    (hrooted : t.Ready ScopeTree.root ∨ t'.scopes.size = 1)
    (hold : ∀ i < t.scopes.size, ∀ chain ≠ [], (t'.scope i).overlays.lookup (.result chain) =
      (t.scope i).overlays.lookup (.result chain))
    (hnew : ∀ i < t'.scopes.size, t.scopes.size ≤ i → (t'.scope i).overlays = []) :
    Kept env log t' where
  wellFormed := hw
  rooted := hrooted.imp_left (he.isReady h.wellFormed.top_lt)
  valid e hm := (h.valid e hm).mono he
  memo i hi chain hne := by
    by_cases hlt : i < t.scopes.size
    · rw [hold i hlt chain hne]
      exact held_mono (h.memo i hlt chain hne) he
    · have hle := Nat.not_lt.1 hlt
      rw [hnew i hi hle, h.find_none hle]
      exact .none

theorem root_ready (h : Kept env log t) (hid : id < t.scopes.size) (hr : t.Ready id) :
    t.Ready ScopeTree.root := by
  rcases h.rooted with hroot | hsize
  · exact hroot
  · obtain rfl : id = ScopeTree.root := Nat.lt_one_iff.1 (hsize ▸ hid)
    exact hr

end Kept

theorem upheld_kept (env : Env φ) (log : List (Passage φ)) : Upheld (Kept env log) where
  wellFormed h := h.wellFormed
  settles h hid hf _ hs :=
    h.mono (hs.kept hf (h.wellFormed.pending _ hid _ hf)) (hs.wellFormed h.wellFormed hid hf)
      (by rw [hs.size]; exact h.rooted)
      (fun i _ _ _ => congrArg (List.lookup _) (hs.same Scope.overlays (fun _ _ => rfl) i))
      (fun i hi hle => absurd hi (by rw [hs.size]; exact Nat.not_lt.2 hle))
  field {t t' id name w} h hid hr _ ha := by
    refine h.mono ha.grows.kept (ha.wellFormed h.wellFormed hid) (.inl (h.root_ready hid hr))
      (fun i hi chain _ => ?_) fun i hi hle => ?_
    · by_cases hne : i = id
      · rw [hne, ha.self]
      · rw [ha.grows.others i hi hne]
    · rw [(ha.grows.older hi).resolve_left (Nat.not_lt.2 hle), ha.grows.made]
      rfl
  item {t t' id index v} h hid hr ha := by
    refine h.mono ha.grows.kept (ha.wellFormed h.wellFormed hid (by simp [OverlayKey.item]))
      (.inl (h.root_ready hid hr)) (fun i hi chain hchain => ?_) fun i hi hle => ?_
    · by_cases hne : i = id
      · have hkey : (OverlayKey.result chain == OverlayKey.item index) = false := by
          simp [OverlayKey.result, OverlayKey.item, hchain]
        rw [hne, ha.self, List.lookup_cons, hkey]
      · rw [ha.grows.others i hi hne]
    · rw [(ha.grows.older hi).resolve_left (Nat.not_lt.2 hle), ha.grows.made]
      rfl

namespace Resolved

variable {env : Env φ} {head : Section} {t : ScopeTree φ} {r : Resolution φ}

/-- A section without functions is read in the scope of its key. -/
theorem innerScope_plain (h : Resolved env head.binding t r) (hlinks : head.links = []) :
    Run.innerScope r = pure r.scope := by
  obtain ⟨hchain, hdynamic⟩ := h.plain hlinks
  simp [Run.innerScope, hchain, hdynamic]

theorem chain_ne (h : Resolved env head.binding t r) (hlinks : head.links ≠ []) : r.chain ≠ [] := by
  have hlen : r.chain.length = head.links.length := (h.linked hlinks).2
  rintro hnil
  rw [hnil, List.length_nil, eq_comm, List.length_eq_zero_iff] at hlen
  exact hlinks hlen

/-- A section with functions is read in the overlay of their result. -/
theorem innerScope_linked (h : Resolved env head.binding t r) (hlinks : head.links ≠ []) :
    Run.innerScope r = Run.onTree fun t =>
      t.overlay r.scope (.result (r.chain.map Prod.fst)) (r.value.getD .null) := by
  simp [Run.innerScope, h.chain_ne hlinks, (h.linked hlinks).1]

end Resolved

/-- What is known of a passage when it is made. -/
theorem Kept.passage_valid {env : Env φ} {log : List (Passage φ)} {t : ScopeTree φ} {e : Passage φ}
    (hk : Kept env log t) (h : Resolved env e.head.binding t e.result) (hlinks : e.head.links ≠ [])
    (hpass : e.head.passesText = false) :
    e.result.value = some e.value ∧ e.value.isFunction = false ∧ e.Valid env t := by
  obtain ⟨w, hw, hfunction, hready, hpasses⟩ := h.value hlinks hpass
  have hvalue : e.value = w := by simp [Passage.value, hw]
  refine ⟨by rw [hvalue, hw], hvalue ▸ hfunction, h.scope, hready, hk.root_ready h.scope hready,
    hk.wellFormed.top_lt, h.chain, fun hpure raw => ?_⟩
  rw [hvalue]
  exact Treeless.passThrough_raw (hpasses rfl rfl hpure)

theorem Passage.find_append (log : List (Passage φ)) (e : Passage φ) (id : ScopeId)
    (chain : List ScopeId) : (log ++ [e]).find? (Passage.passed id chain) =
      (log.find? (Passage.passed id chain)).or (if e.passed id chain then some e else none) := by
  rw [List.find?_append, List.find?_singleton]

section Enter

variable {env : Env φ} {log : List (Passage φ)} {t : ScopeTree φ} {e : Passage φ}

/-- What is kept under a key that was passed before stays what it is, whatever is passed now. -/
theorem Kept.again (h : Kept env log t) (hvalid : e.Valid env t) {first : Passage φ}
    (hfirst : log.find? (Passage.passed e.result.scope e.chain) = some first) :
    Kept env (log ++ [e]) t where
  wellFormed := h.wellFormed
  rooted := h.rooted
  valid e' hm := by
    rcases List.mem_append.1 hm with hm | hm
    · exact h.valid e' hm
    · obtain rfl : e' = e := by simpa using hm
      exact hvalid
  memo i hi chain hchain := by
    rw [Passage.find_append]
    by_cases hp : e.passed i chain = true
    · obtain ⟨rfl, rfl⟩ := Passage.passed_iff.1 hp
      rw [hfirst, Option.some_or, ← hfirst]
      exact h.memo _ hi _ hchain
    · rw [if_neg hp, Option.or_none]
      exact h.memo i hi chain hchain

/-- The overlay that is made for a key holds what the passage came to. -/
theorem Passage.Held.of_adds {t' : ScopeTree φ} {id : ScopeId} {key : OverlayKey}
    (adds : t.AddsOverlay t' id key e.value) (hfunction : e.value.isFunction = false) :
    Passage.Held t' t.scopes.size e := by
  have hcontent := ScopeTree.content_of_fresh adds.grows.made hfunction
  exact ⟨adds.grows.made_lt, ⟨_, hcontent⟩, by rw [ScopeTree.data, hcontent]; rfl⟩

theorem Kept.adds {t' : ScopeTree φ} (h : Kept env log t) (hid : e.result.scope < t.scopes.size)
    (hchain : ∀ c ∈ e.chain, c < t.scopes.size) (hvalid : e.Valid env t)
    (hfunction : e.value.isFunction = false)
    (hfirst : log.find? (Passage.passed e.result.scope e.chain) = none)
    (adds : t.AddsOverlay t' e.result.scope (.result e.chain) e.value) :
    Kept env (log ++ [e]) t' where
  wellFormed := adds.wellFormed h.wellFormed hid hchain
  rooted := .inl (adds.grows.kept.isReady h.wellFormed.top_lt (h.root_ready hid hvalid.ready))
  valid e' hm := by
    rcases List.mem_append.1 hm with hm | hm
    · exact (h.valid e' hm).mono adds.grows.kept
    · obtain rfl : e' = e := by simpa using hm
      exact hvalid.mono adds.grows.kept
  memo i hi chain hne := by
    have hg := adds.grows
    rw [Passage.find_append]
    by_cases hp : e.passed i chain = true
    · obtain ⟨rfl, rfl⟩ := Passage.passed_iff.1 hp
      rw [hfirst, Option.none_or, if_pos hp, adds.self, List.lookup_cons_self]
      exact .some (Passage.Held.of_adds adds hfunction)
    · rw [if_neg hp, Option.or_none]
      rcases hg.older hi with hi | rfl
      · refine Kept.held_mono ?_ hg.kept
        by_cases hsame : i = e.result.scope
        · have hkey : (OverlayKey.result chain == OverlayKey.result e.chain) = false := by
            refine beq_eq_false_iff_ne.2 fun heq => hp ?_
            exact Passage.passed_iff.2 ⟨hsame.symm, (congrArg OverlayKey.chain heq).symm⟩
          rw [hsame, adds.self, List.lookup_cons, hkey]
          exact h.memo _ hid chain hne
        · rw [hg.others i hi hsame]
          exact h.memo i hi chain hne
      · rw [hg.made, h.find_none (Nat.le_refl _)]
        exact .none

/-- The overlay of a result is as the first passage of its key left it. -/
theorem Kept.enter (h : Kept env log t) (hr : Resolved env e.head.binding t e.result)
    (hlinks : e.head.links ≠ []) (hpass : e.head.passesText = false) {made : ScopeId × ScopeTree φ}
    (hmade : t.overlay e.result.scope (.result e.chain) e.value = made) :
    t.Extends made.2 ∧ Kept env (log ++ [e]) made.2 ∧
      Passage.Held made.2 made.1 ((log.find? (Passage.passed e.result.scope e.chain)).getD e) := by
  obtain ⟨-, hfunction, hvalid⟩ := h.passage_valid hr hlinks hpass
  have hne : e.chain ≠ [] := by simpa [Passage.chain] using hr.chain_ne hlinks
  have hmemo := h.memo e.result.scope hr.scope _ hne
  have hcase := ScopeTree.overlay_cases hr.scope (.result e.chain) e.value
  rw [hmade] at hcase
  cases hfirst : log.find? (Passage.passed e.result.scope e.chain) with
  | some first =>
    rw [hfirst] at hmemo
    cases hcase with
    | made unmade => rw [unmade] at hmemo; cases hmemo
    | there there =>
      rw [there] at hmemo
      obtain ⟨hheld⟩ := hmemo
      exact ⟨.refl t, h.again hvalid hfirst, hheld⟩
  | none =>
    rw [hfirst] at hmemo
    cases hcase with
    | there there => rw [there] at hmemo; cases hmemo
    | made unmade adds =>
      have hchain : ∀ c ∈ e.chain, c < t.scopes.size := by
        rintro c hc
        obtain ⟨x, hx, rfl⟩ := List.mem_map.1 hc
        exact (hr.chain x hx).1
      exact ⟨adds.grows.kept, h.adds hr.scope hchain hvalid hfunction hfirst adds,
        Passage.Held.of_adds adds hfunction⟩

end Enter

end TextTemplate
