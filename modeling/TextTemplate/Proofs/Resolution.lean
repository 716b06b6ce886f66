import TextTemplate.Proofs.Scope.Simulation
import TextTemplate.Proofs.Treeless
import Mathlib.Data.List.Forall2

/-!
Bindings resolved on a tree and without one. Both find the same place, the same functions and the
same value. The overlay for what functions return is remembered under the functions alone, so it
stands for the value at hand only if no format of a link comes between them.
-/
namespace TextTemplate
variable {φ : Type}

/-- What parsing promises of a binding. -/
def Binding.Formed (b : Binding) : Prop := ∀ key ∈ b.keys, key.Formed

/-- Neither the binding nor its links format a value. -/
def Binding.Unformatted (b : Binding) : Prop :=
  b.format = none ∧ b.escape = false ∧ ∀ link ∈ b.links, link.format = none ∧ link.escape = false

namespace Run

variable {env : Env φ} {data : Value φ} {t : ScopeTree φ}

/-- A resolution on the tree `t` and one over places agree. -/
structure Agrees (env : Env φ) (data : Value φ) (b : Binding) (t : ScopeTree φ) (r : Resolution φ)
    (r' : Treeless.Resolution φ) : Prop where
  scope : t.Stands r.scope r'.place
  functions : r.chain.map Prod.snd = r'.functions
  chain : ∀ c ∈ r.chain, c.1 < t.scopes.size ∧ t.function? c.1 = some c.2
  value : r.value = r'.value
  isRepeating : r.isRepeating = r'.isRepeating
  isDynamic : r.isDynamic = r'.isDynamic
  size : r.size = r'.size
  dynamic : r.isDynamic = (r.isRepeating || !r.chain.isEmpty)
  ready : r.chain = [] → t.Ready r.scope
  clean : data.isData = true → (r.value.getD .null).isData = true
  result : r.chain ≠ [] → b.awaitsText = false → b.Unformatted →
    ∃ v w, r'.place.Reads env.host env.settings.errorOnFuncFailure v ∧ r.value = some w ∧
      ∀ raw, env.host.passPlain ⟨raw, env.settings.errorOnFuncFailure⟩ data r'.functions v = .ok w

theorem Agrees.mono {b : Binding} {t' : ScopeTree φ} {r : Resolution φ}
    {r' : Treeless.Resolution φ} (h : Agrees env data b t r r') (he : t.Extends t') :
    Agrees env data b t' r r' :=
  { h with
    scope := h.scope.mono he
    chain := fun c hc => by
      obtain ⟨hlt, hfun⟩ := h.chain c hc
      exact ⟨he.lt hlt, by rw [he.function _ hlt, hfun]⟩
    ready := fun hc => he.isReady h.scope.1 (h.ready hc) }

theorem stands_function {host : Host φ} {propagate : Bool}
    (hf : t.Faithful host propagate data) {id : ScopeId} {p : Place φ} (hp : t.Stands id p) :
    p.function? = t.function? id := by
  obtain ⟨hid, rfl⟩ := hp
  cases h : t.function? id with
  | some f => exact t.function?_place id h
  | none =>
    obtain ⟨v, hv⟩ := hf.ready_of_function hid h
    have hnot := ((hf.scopes id hid).ready v hv).1
    have hb : (t.place id).bound = v := by
      simp [ScopeTree.bound, h, ScopeTree.data, hv, Content.data]
    rw [Place.function?, hb]
    cases v <;> first | rfl | cases hnot

theorem stands_find {overlays : List ScopeId} {places : List (Place φ)}
    (h : List.Forall₂ t.Stands overlays places) (key : String) :
    Option.Rel t.Stands (overlays.find? fun o => t.covers o key)
      (places.find? fun p => pathCovers p.path key) := by
  induction h with
  | nil => exact .none
  | @cons o p overlays places hop hrest ih =>
    have hc : t.covers o key = pathCovers p.path key := by rw [ScopeTree.covers, hop.path]
    rw [List.find?_cons, List.find?_cons, hc]
    split
    · exact .some hop
    · exact ih

theorem stands_mono {overlays : List ScopeId} {places : List (Place φ)}
    (h : List.Forall₂ t.Stands overlays places) {t' : ScopeTree φ} (he : t.Extends t') :
    List.Forall₂ t'.Stands overlays places :=
  h.imp fun _ _ hs => hs.mono he

variable {scope : ScopeId} {place : Place φ} {overlays : List ScopeId} {places : List (Place φ)}

section Simulation

variable {host : Host φ} {propagate : Bool} {I : ScopeTree φ → Prop}

theorem simulates_findScope (hI : Searchable host propagate I) (hp : t.Stands scope place)
    (ho : List.Forall₂ t.Stands overlays places) {key : Key} (hk : key.Formed) (raw : String) :
    Simulates I t (findScope host ⟨raw, propagate⟩ scope overlays key)
      (Treeless.findPlace host ⟨raw, propagate⟩ place places key) fun t' => Option.Rel t'.Stands := by
  refine .look fun t' he _ => ?_
  have hfind : Option.Rel t'.Stands
      (if key.inContext then none else overlays.find? fun o => t'.covers o key.text)
      (if key.inContext then none else places.find? fun p => pathCovers p.path key.text) := by
    split
    · exact .none
    · exact stands_find (stands_mono ho he) key.text
  rw [Treeless.findPlace]
  generalize (if key.inContext then none else overlays.find? fun o => t'.covers o key.text) = a,
    (if key.inContext then none else places.find? fun p => pathCovers p.path key.text) = b
    at hfind ⊢
  cases hfind with
  | none => exact simulates_search hI (hp.mono he) hk raw
  | some h => exact simulates_search hI h hk raw

theorem simulates_findChain (hI : Searchable host propagate I)
    (hfunction : ∀ {t id p}, I t → ScopeTree.Stands t id p → p.function? = t.function? id)
    (hp : t.Stands scope place) (ho : List.Forall₂ t.Stands overlays places) {links : List Link}
    (hk : ∀ link ∈ links, link.key.Formed) (raw : String) :
    Simulates I t (findChain host ⟨raw, propagate⟩ scope overlays links)
      (Treeless.findChain host ⟨raw, propagate⟩ place places links) fun t' chain fs =>
        chain.map Prod.snd = fs ∧ chain.length = links.length ∧
          ∀ c ∈ chain, c.1 < t'.scopes.size ∧ t'.function? c.1 = some c.2 := by
  induction links generalizing t with
  | nil => exact .pure fun _ _ _ => ⟨rfl, rfl, by simp⟩
  | cons link links ih =>
    refine (simulates_findScope hI hp ho (hk link List.mem_cons_self) raw).bind
      fun t' found found' he hf _ hfound => ?_
    cases hfound with
    | none => exact .throw
    | @some id p hid =>
      refine .look fun t'' he' hf' => ?_
      have hfun := hfunction hf' (hid.mono he')
      simp only [hfun]
      cases hf? : t''.function? id with
      | none => exact .throw
      | some f =>
        refine (ih (hp.mono (he.trans he')) (stands_mono ho (he.trans he')) fun l hl =>
          hk l (List.mem_cons_of_mem _ hl)).bind fun t₃ chain fs he₃ _ _ hrest => ?_
        obtain ⟨hfs, hlen, hchain⟩ := hrest
        refine .pure fun t₄ he₄ _ => ⟨by simp [hfs], by simp [hlen], fun c hc => ?_⟩
        rcases List.mem_cons.1 hc with rfl | hc
        · have hlt := (hid.mono he').1
          exact ⟨(he₃.trans he₄).lt hlt, by rw [(he₃.trans he₄).function _ hlt, hf?]⟩
        · obtain ⟨hlt, hcf⟩ := hchain c hc
          exact ⟨he₄.lt hlt, by rw [he₄.function _ hlt, hcf]⟩

theorem simulates_passThrough (htop : ∀ {t}, I t → t.data ScopeTree.root = data)
    (policy : FailurePolicy) (steps : List (φ × Link)) (hpure : env.host.IsPure ∨ steps = [])
    (v : Value φ) :
    Simulates I t (passThrough env policy steps v) (Treeless.passThrough env data policy steps v)
      fun _ w w' => w = w' := by
  induction steps generalizing t v with
  | nil => exact .pure fun _ _ _ => rfl
  | cons step steps ih =>
    obtain ⟨f, link⟩ := step
    have hp : env.host.IsPure := hpure.resolve_right (by simp)
    refine .look fun t' _ hf => ?_
    rw [htop hf]
    refine (simulates_evaluate hp policy f v data).bind fun t'' w _ _ _ _ h => ?_
    subst h
    exact ih (.inl hp) _

end Simulation

theorem follows_findScope {host : Host φ} {propagate : Bool} (htame : Tame host data)
    (hp : t.Stands scope place) (ho : List.Forall₂ t.Stands overlays places) {key : Key}
    (hk : key.Formed) (raw : String) :
    Follows host propagate data t (findScope host ⟨raw, propagate⟩ scope overlays key)
      (Treeless.findPlace host ⟨raw, propagate⟩ place places key) fun t' => Option.Rel t'.Stands :=
  simulates_findScope (searchable_faithful htame) hp ho hk raw

theorem follows_findChain {host : Host φ} {propagate : Bool} (htame : Tame host data)
    (hp : t.Stands scope place) (ho : List.Forall₂ t.Stands overlays places) {links : List Link}
    (hk : ∀ link ∈ links, link.key.Formed) (raw : String) :
    Follows host propagate data t (findChain host ⟨raw, propagate⟩ scope overlays links)
      (Treeless.findChain host ⟨raw, propagate⟩ place places links) fun t' chain fs =>
        chain.map Prod.snd = fs ∧ chain.length = links.length ∧
          ∀ c ∈ chain, c.1 < t'.scopes.size ∧ t'.function? c.1 = some c.2 :=
  simulates_findChain (searchable_faithful htame) (fun hf hs => stands_function hf hs) hp ho hk raw

/-- Functions are only found where the data has some. -/
theorem chain_eq_nil {host : Host φ} {propagate : Bool} (hf : t.Faithful host propagate data)
    (hd : data.isData = true) {chain : List (ScopeId × φ)}
    (h : ∀ c ∈ chain, c.1 < t.scopes.size ∧ t.function? c.1 = some c.2) : chain = [] := by
  cases chain with
  | nil => rfl
  | cons c chain =>
    obtain ⟨hlt, hfun⟩ := h c List.mem_cons_self
    have hclean := (hf.scopes c.1 hlt).clean hd
    rw [ScopeTree.bound, hfun] at hclean
    cases hclean

theorem follows_passThrough (policy : FailurePolicy) (steps : List (φ × Link))
    (hpure : env.host.IsPure ∨ steps = []) (v : Value φ) :
    Follows env.host env.settings.errorOnFuncFailure data t (passThrough env policy steps v)
      (Treeless.passThrough env data policy steps v) fun _ w w' => w = w' :=
  simulates_passThrough (fun hf => hf.data_root) policy steps hpure v

theorem passThrough_unformatted {policy : FailurePolicy} {fs : List φ} {links : List Link}
    (hl : ∀ link ∈ links, link.format = none ∧ link.escape = false)
    (hlen : fs.length = links.length) (v : Value φ) :
    Treeless.passThrough env data policy (fs.zip links) v =
      env.host.passPlain policy data fs v := by
  induction fs generalizing links v with
  | nil => rfl
  | cons f fs ih =>
    cases links with
    | nil => simp at hlen
    | cons link links =>
      obtain ⟨hformat, hescape⟩ := hl link List.mem_cons_self
      simp only [List.zip_cons_cons, Treeless.passThrough, Host.passPlain, hformat, hescape,
        Option.isSome_none, Bool.or_self, Bool.false_eq_true, if_false]
      refine congrArg _ (funext fun w => ?_)
      exact ih (fun l hm => hl l (List.mem_cons_of_mem _ hm)) (by simpa using hlen) w

/-- What a binding without functions resolves to. -/
theorem Agrees.bare {b : Binding} {id : ScopeId} {p : Place φ} (hid : t.Stands id p)
    (hready : t.Ready id) {v : Value φ} (hclean : data.isData = true → v.isData = true) :
    Agrees env data b t ⟨id, [], some v, v.isArray, v.isArray, v.size⟩
      ⟨p, [], some v, v.isArray, v.isArray, v.size⟩ where
  scope := hid
  functions := rfl
  chain := by simp
  value := rfl
  isRepeating := rfl
  isDynamic := rfl
  size := rfl
  dynamic := by simp
  ready := fun _ => hready
  clean := hclean
  result := fun hne => absurd rfl hne

/-- What a binding with functions resolves to; data without functions has no such binding. -/
theorem Agrees.linked {b : Binding} {id : ScopeId} {p : Place φ} (hid : t.Stands id p)
    (hdata : ¬ data.isData = true) {chain : List (ScopeId × φ)} {fs : List φ} (hne : chain ≠ [])
    (hfs : chain.map Prod.snd = fs)
    (hchain : ∀ c ∈ chain, c.1 < t.scopes.size ∧ t.function? c.1 = some c.2)
    {value : Option (Value φ)} (repeating : Bool) (size : Nat)
    (hresult : b.awaitsText = false → b.Unformatted →
      ∃ v w, p.Reads env.host env.settings.errorOnFuncFailure v ∧ value = some w ∧
        ∀ raw, env.host.passPlain ⟨raw, env.settings.errorOnFuncFailure⟩ data fs v = .ok w) :
    Agrees env data b t ⟨id, chain, value, repeating, true, size⟩
      ⟨p, fs, value, repeating, true, size⟩ where
  scope := hid
  functions := hfs
  chain := hchain
  value := rfl
  isRepeating := rfl
  isDynamic := rfl
  size := rfl
  dynamic := by simp [hne]
  ready := fun h => absurd h hne
  clean := fun hd => absurd hd hdata
  result := fun _ => hresult

theorem follows_resolve (htame : Tame env.host data) {b : Binding} (hb : b.Formed)
    (hp : t.Stands scope place) (ho : List.Forall₂ t.Stands overlays places) :
    Follows env.host env.settings.errorOnFuncFailure data t (resolve env b scope overlays)
      (Treeless.resolve env data b place places) fun t' => Option.Rel (Agrees env data b t') := by
  refine (follows_findScope htame hp ho (hb b.key List.mem_cons_self) b.raw).bind
    fun t' found found' he hf _ hfound => ?_
  cases hfound with
  | none => exact .pure fun _ _ _ => .none
  | @some id p hid =>
    cases hlinks : b.links with
    | nil =>
      refine (follows_value htame hid b.raw).bind fun t'' v _ he' _ _ ⟨hv, hready, hclean⟩ => ?_
      subst hv
      exact .pure fun t₃ he₃ _ => .some
        (.bare (hid.mono (he'.trans he₃)) (he₃.isReady (hid.mono he').1 hready) hclean)
    | cons link links =>
      have hkeys : ∀ l ∈ b.links, l.key.Formed := fun l hl =>
        hb l.key (List.mem_cons_of_mem _ (List.mem_map_of_mem hl))
      rw [← hlinks]
      have hlinked : b.links.isEmpty = false := by simp [hlinks]
      simp only [hlinked, Bool.false_eq_true, if_false]
      refine (follows_findChain htame (hp.mono he) (stands_mono ho he) hkeys b.raw).bind
        fun t'' chain fs he' hf' _ ⟨hfs, hlen, hchain⟩ => ?_
      have hne : chain ≠ [] := by
        rintro rfl
        simp [hlinks] at hlen
      have hdata : ¬ data.isData = true := fun hd => hne (chain_eq_nil hf' hd hchain)
      have hkeep : ∀ {t₃}, t''.Extends t₃ → ∀ c ∈ chain,
          c.1 < t₃.scopes.size ∧ t₃.function? c.1 = some c.2 := fun he₃ c hc =>
        ⟨he₃.lt (hchain c hc).1, by rw [he₃.function _ (hchain c hc).1, (hchain c hc).2]⟩
      cases haw : b.awaitsText with
      | true =>
        simp only [if_true]
        exact .pure fun t₃ he₃ _ => .some
          (.linked (hid.mono (he'.trans he₃)) hdata hne hfs (hkeep he₃) _ _ fun h => by simp [haw] at h)
      | false =>
        simp only [Bool.false_eq_true, if_false]
        refine (follows_value htame (hid.mono he') b.raw).bind
          fun t₃ v v' he₃ _ hread ⟨hv, _, _⟩ => ?_
        subst hv
        rw [hfs]
        refine (follows_passThrough _ _ (.inl (htame.resolve_right hdata)) _).bind
          fun t₄ w w' he₄ _ hpass hw => ?_
        subst hw
        have hresult : b.Unformatted →
            ∃ v w', p.Reads env.host env.settings.errorOnFuncFailure v ∧ some w = some w' ∧
              ∀ raw, env.host.passPlain ⟨raw, env.settings.errorOnFuncFailure⟩ data fs v =
                .ok w' := by
          rintro ⟨hformat, hescape, hplain⟩
          refine ⟨v, w, Place.reads_of_read hread, rfl, fun raw => ?_⟩
          simp only [hformat, hescape, Option.isSome_none, Bool.or_self, Bool.false_eq_true,
            if_false] at hpass
          rw [passThrough_unformatted hplain (by rw [← hfs, List.length_map, hlen])] at hpass
          exact Host.passPlain_raw hpass
        exact .pure fun t₅ he₅ _ => .some
          (.linked (hid.mono (he'.trans (he₃.trans (he₄.trans he₅)))) hdata hne hfs
            (hkeep (he₃.trans (he₄.trans he₅))) _ _ fun _ => hresult)

/-- The scope below a resolved binding, kept under the scopes of its functions. -/
theorem follows_innerScope {b : Binding} {r : Resolution φ} {r' : Treeless.Resolution φ}
    (h : Agrees env data b t r r') (hb : data.isData = true ∨ b.Unformatted)
    (haw : b.awaitsText = false) :
    Follows env.host env.settings.errorOnFuncFailure data t (innerScope r) (.ok r'.inner)
      fun t' id p => t'.Stands id p ∧ t'.Ready id := by
  refine .assuming fun t he hf => ?_
  replace h := h.mono he
  by_cases hc : r.chain = []
  · have hfs : r'.functions = [] := by rw [← h.functions, hc]; rfl
    have hdyn : r.isDynamic = r.isRepeating := by simp [h.dynamic, hc]
    have hscope : innerScope r = pure r.scope := by
      simp [innerScope, hc, hdyn]
    have hplace : r'.inner = r'.place := by
      simp [Treeless.Resolution.inner, hfs, ← h.isDynamic, ← h.isRepeating, hdyn]
    rw [hscope, hplace]
    exact .pure fun t' he' _ => ⟨h.scope.mono he', he'.isReady h.scope.1 (h.ready hc)⟩
  · have hfs : r'.functions ≠ [] := by
      rw [← h.functions]
      simpa using hc
    have hdyn : r.isDynamic = true := by simp [h.dynamic, hc]
    have hplain : b.Unformatted := hb.resolve_left fun hd => hc (chain_eq_nil hf hd h.chain)
    obtain ⟨v, w, hreads, hw, hpass⟩ := h.result hc haw hplain
    have hscope : innerScope r = onTree fun t =>
        t.overlay r.scope (.result (r.chain.map Prod.fst)) w := by
      simp [innerScope, hc, hdyn, hw]
    have hplace : r'.inner = r'.place.overlay w := by
      simp [Treeless.Resolution.inner, hfs, ← h.isDynamic, hdyn, ← h.value, hw]
    have hkeep : ∀ {t' : ScopeTree φ}, t.Extends t' →
        (r.chain.map Prod.fst).map t'.function? = r'.functions.map some := fun {t'} he' => by
      rw [← h.functions, List.map_map, List.map_map]
      exact List.map_congr_left fun c hm => by
        simp [he'.function _ (h.chain c hm).1, (h.chain c hm).2]
    rw [hscope, hplace]
    refine .step fun t' he' hf' => ?_
    obtain ⟨hid, hpl⟩ := h.scope.mono he'
    have hnot : w.isFunction = false :=
      Host.passPlain_not_function (Place.read_not_function (hreads "")) (hpass "")
    obtain ⟨hext, hfaith, hlt, hstands⟩ := hf'.overlay hid (.result (r.chain.map Prod.fst))
      (v := w) (fun hd => absurd (chain_eq_nil hf hd h.chain) hc)
      (fun t'' he'' o hlt ho => .result hlt (by simpa using hc)
        (fun c hm => by
          obtain ⟨c', hm', rfl⟩ := List.mem_map.1 hm
          exact (he'.trans he'').lt (h.chain c' hm').1)
        (hkeep (he'.trans he''))
        (v := v) (by rw [he''.place_eq hid, hpl]; exact hreads) hpass
        (by rw [ho, he''.place_eq hid]))
      (fun o ho => by
        obtain ⟨fs, v', w', hfuns, hreads', hpassed, hplace'⟩ := ho.of_result (by simpa using hc)
        rw [hkeep he', List.map_inj_right fun a b => Option.some.inj] at hfuns
        have hv := (hpl ▸ hreads' "").symm.trans (hreads "")
        cases hv
        subst hfuns
        have heq := Except.ok.inj ((hpassed "").symm.trans (hpass ""))
        subst heq
        exact hplace')
    rw [hpl] at hstands
    refine ⟨hext, hfaith, ⟨hlt, hstands⟩, hfaith.ready_of_function hlt ?_⟩
    have := stands_function hfaith ⟨hlt, hstands⟩
    rw [← this, Place.function?, Place.overlay, Place.bound]
    cases w <;> first | rfl | cases hnot

/-- The overlay for an item of a scope that has been read. -/
theorem follows_item {host : Host φ} {propagate : Bool} (htame : Tame host data)
    (hp : t.Stands scope place) (hr : t.Ready scope) (raw : String) (index : Nat) :
    Follows host propagate data t (item host ⟨raw, propagate⟩ scope index)
      (place.read host ⟨raw, propagate⟩ >>= fun v => .ok (place.item v index))
      fun t' => t'.Stands := by
  refine .look fun t' he hf => ?_
  obtain ⟨hid, hpl⟩ := hp.mono he
  have hready := he.isReady hp.1 hr
  have hreads := hf.reads_data hid hready
  rw [hpl] at hreads
  rw [hreads raw]
  cases hl : (t'.scope scope).overlays.lookup (.item index) with
  | some o =>
    have ho := (hf.scopes scope hid).overlays _ o (ScopeTree.mem_of_lookup hl)
    obtain ⟨v, hreads', hplace⟩ := ho.of_item
    have hv := (hpl ▸ hreads' "").symm.trans (hreads "")
    cases hv
    rw [hpl] at hplace
    exact .pure fun t'' he' _ => ScopeTree.Stands.mono ⟨ho.lt, hplace⟩ he'
  | none =>
    have hmade : ∀ u, place.item (t'.data scope) index = place.overlay u →
        (data.isData = true → u.isData = true) →
        ∀ t'', t'.Extends t'' → Follows host propagate data t''
          (onTree fun t => t.overlay scope (.item index) u)
          (.ok (place.item (t'.data scope) index)) fun t => t.Stands := by
      intro u hu hclean t'' he'
      rw [hu]
      refine .step fun t₃ he₃ hf₃ => ?_
      obtain ⟨hid₃, hpl₃⟩ := (hp.mono he).mono (he'.trans he₃)
      obtain ⟨hext, hfaith, hlt, hstands⟩ := hf₃.overlay hid₃ (.item index) hclean
        (fun t₄ he₄ o hlt ho => .item hlt (by rw [he₄.place_eq hid₃, hpl₃]; exact hreads)
          (by rw [ho, he₄.place_eq hid₃, hpl₃, hu]))
        (fun o ho => by
          obtain ⟨v, hreads', hplace⟩ := ho.of_item
          have hv := (hpl₃ ▸ hreads' "").symm.trans (hreads "")
          cases hv
          rw [hplace, hpl₃, hu])
      rw [hpl₃] at hstands
      exact ⟨hext, hfaith, hlt, hstands⟩
    have hdata : data.isData = true → (t'.data scope).isData = true := fun hd =>
      hf.data_isData hd hid
    simp only
    split
    · rename_i items hitems
      refine hmade _ (by rw [hitems]; rfl) (fun hd => ?_) t' (.refl _)
      have := hdata hd
      rw [hitems, Value.isData] at this
      exact Value.isData_getD this index
    · rename_i hna
      have hread : (Except.ok (t'.data scope) : Except TemplateError (Value φ)) =
          place.read host ⟨raw, propagate⟩ := (hreads raw).symm
      rw [hread]
      refine (follows_value htame (hp.mono he) raw).bind fun t'' v w he'' _ hw hvalue => ?_
      obtain ⟨hv, -, -⟩ := hvalue
      rw [hreads raw] at hw
      cases hw
      subst hv
      refine hmade _ ?_ hdata t'' he''
      cases hv : t'.data scope with
      | array items => exact absurd hv (hna items)
      | _ => rfl

/-- Whether a section is shown. -/
theorem follows_display (htame : Tame env.host data) (inclusive : Bool) {v : Value φ}
    (hv : data.isData = true → v.isData = true) (raw : String) :
    Follows env.host env.settings.errorOnFuncFailure data t (display env inclusive v raw)
      (Treeless.display env data inclusive v raw) fun _ a b => a = b := by
  rw [display, Treeless.display]
  cases hflag : v.get? displayKey with
  | none => exact .pure fun _ _ _ => rfl
  | some flag =>
    cases flag with
    | function f =>
      have hpure : env.host.IsPure := htame.resolve_right fun hd => by
        have := Value.isData_get? (hv hd) hflag
        cases this
      refine .look fun t' _ hf => ?_
      rw [hf.data_root]
      refine (follows_evaluate hpure _ _ _ _).bind fun t'' w _ _ _ _ h => ?_
      subst h
      exact .pure fun _ _ _ => rfl
    | _ => exact .pure fun _ _ _ => rfl

theorem follows_missing (raw : String) :
    Follows env.host env.settings.errorOnFuncFailure data t (missing env raw)
      (Treeless.missing env raw) fun _ _ _ => True := by
  rw [missing, Treeless.missing]
  split
  · exact .throw
  · exact .pure fun _ _ _ => trivial

end Run

end TextTemplate
