import TextTemplate.Proofs.Scope.Faithful
import TextTemplate.Proofs.Treeless

/-!
Places in data without functions. Nothing is called there, so every lookup gives an answer and a
section without links is shown or hidden without an error.
-/
namespace TextTemplate
variable {φ : Type}

namespace Place

/-- No function stands at the place or above it. -/
structure Clean (p : Place φ) : Prop where
  bound : p.bound.isData = true
  above : ∀ a ∈ p.above, a.bound.isData = true

namespace Clean

variable {host : Host φ} {policy : FailurePolicy} {p : Place φ}

theorem top {data : Value φ} (hd : data.isData = true) : (Place.top data).Clean :=
  ⟨hd, by simp [Place.top]⟩

theorem read (h : p.Clean) : p.read host policy = .ok p.bound :=
  read_of_not_function (Value.isFunction_of_isData h.bound)

theorem child (h : p.Clean) {name : String} {w : Value φ} (hw : p.bound.get? name = some w) :
    (p.child name w).Clean := by
  refine ⟨Value.isData_get? h.bound hw, fun a ha => ?_⟩
  rcases List.mem_cons.1 ha with rfl | ha
  · exact h.bound
  · exact h.above a ha

theorem item (h : p.Clean) (index : Nat) : (p.item p.bound index).Clean := by
  refine ⟨?_, h.above⟩
  have hb := h.bound
  cases hv : p.bound with
  | array items =>
    rw [hv] at hb
    exact Value.isData_getD hb index
  | _ => rw [hv] at hb; exact hb

theorem nearest (h : p.Clean) (key : String) : (p.nearest key).Clean := by
  obtain ⟨f, above⟩ := p
  induction above generalizing f with
  | nil => exact h
  | cons a rest ih =>
    by_cases hc : pathCovers f.path key = true
    · have : Place.nearest key ⟨f, a :: rest⟩ = ⟨f, a :: rest⟩ := if_pos hc
      rw [this]
      exact h
    · have : Place.nearest key ⟨f, a :: rest⟩ = Place.nearest key ⟨a, rest⟩ := if_neg hc
      rw [this]
      exact ih a ⟨h.above a List.mem_cons_self, fun b hb => h.above b (List.mem_cons_of_mem _ hb)⟩

theorem walk (host : Host φ) (policy : FailurePolicy) (h : p.Clean) (joined : String)
    (segments : List String) :
    ∃ r, p.walk host policy joined segments = .ok r ∧ ∀ x, r = some x → x.1.Clean := by
  induction segments generalizing joined p with
  | nil =>
    refine ⟨_, rfl, fun x hx => ?_⟩
    split at hx
    · cases hx
      exact h
    · cases hx
  | cons segment segments ih =>
    simp only [Place.walk, h.read, bind, Except.bind]
    split
    · exact ih h _
    · split
      · exact ⟨_, rfl, fun x hx => by cases hx; exact h⟩
      · split
        · exact ih (h.child ‹_›) _
        · exact ih h _

/-- Walks do not depend on functions that are not there. -/
theorem walk_eq {host' : Host φ} {policy' : FailurePolicy} (h : p.Clean) (joined : String)
    (segments : List String) :
    p.walk host policy joined segments = p.walk host' policy' joined segments := by
  induction segments generalizing joined p with
  | nil => rfl
  | cons segment segments ih =>
    simp only [Place.walk, h.read, bind, Except.bind]
    split
    · exact ih h _
    · split
      · rfl
      · split
        · exact ih (h.child ‹_›) _
        · exact ih h _

theorem steps {host' : Host φ} {propagate propagate' : Bool} {q : Place φ} {segments : List String}
    (h : p.Clean) (hs : Steps host propagate p segments q) : Steps host' propagate' p segments q where
  walk raw := (h.walk_eq "" segments).trans (hs.walk raw)
  path := hs.path
  above := hs.above

theorem search (h : p.Clean) (key : Key) :
    ∃ r, p.search host policy key = .ok r ∧ ∀ q, r = some q → q.Clean := by
  have hwalk : ∀ (q : Place φ) segments, q.Clean →
      ∃ r, (q.walk host policy "" segments >>= fun found => Except.ok (found.map Prod.fst)) = .ok r ∧
        ∀ q', r = some q' → q'.Clean := by
    intro q segments hq
    obtain ⟨r, hr, hclean⟩ := walk host policy hq "" segments
    refine ⟨r.map Prod.fst, by rw [hr]; rfl, fun q' hq' => ?_⟩
    obtain ⟨x, hx, rfl⟩ := Option.map_eq_some_iff.1 hq'
    exact hclean x hx
  cases hc : key.inContext with
  | true =>
    obtain ⟨r, hr, hclean⟩ := hwalk p key.segments h
    exact ⟨r, by simp only [Place.search, hc, if_true]; exact hr, hclean⟩
  | false =>
    obtain ⟨r, hr, hclean⟩ := hwalk (p.nearest key.text)
      (key.segments.drop (pathDepth (p.nearest key.text).path)) (h.nearest _)
    exact ⟨r, by simp only [Place.search, hc, Bool.false_eq_true, if_false]; exact hr, hclean⟩

end Clean

end Place

namespace Treeless

variable {env : Env φ} {data : Value φ} {place : Place φ} {overlays : List (Place φ)}

theorem findPlace_clean (host : Host φ) (policy : FailurePolicy) (h : place.Clean)
    (ho : ∀ o ∈ overlays, o.Clean) (key : Key) :
    ∃ r, findPlace host policy place overlays key = .ok r ∧ ∀ q, r = some q → q.Clean := by
  rw [findPlace]
  split
  · rename_i o hf
    split at hf
    · cases hf
    · exact (ho o (List.mem_of_find?_eq_some hf)).search key
  · exact h.search key

/-- What a binding without links comes to at the place of its key. -/
def Resolution.plain (q : Place φ) (v : Value φ) : Resolution φ where
  place := q
  functions := []
  value := v
  isRepeating := v.isArray
  isDynamic := v.isArray
  size := v.size

@[simp] theorem Resolution.plain_inner (q : Place φ) (v : Value φ) : (plain q v).inner = q := by
  simp [plain, inner]

theorem resolve_plain {b : Binding} (hl : b.links = []) :
    resolve env data b place overlays =
      findPlace env.host (env.policy b.raw) place overlays b.key >>= fun found =>
        match found with
        | none => .ok none
        | some q => q.read env.host (env.policy b.raw) >>= fun v => .ok (some (.plain q v)) := by
  rw [resolve]
  refine congrArg _ (funext fun found => ?_)
  cases found with
  | none => rfl
  | some q =>
    simp only [hl, List.isEmpty_nil, if_true]
    rfl

theorem resolve_clean (env : Env φ) (data : Value φ) {b : Binding} (hl : b.links = []) (h : place.Clean)
    (ho : ∀ o ∈ overlays, o.Clean) :
    (findPlace env.host (env.policy b.raw) place overlays b.key = .ok none ∧
        resolve env data b place overlays = .ok none) ∨
      ∃ q, findPlace env.host (env.policy b.raw) place overlays b.key = .ok (some q) ∧ q.Clean ∧
        resolve env data b place overlays = .ok (some (.plain q q.bound)) := by
  obtain ⟨found, hf, hclean⟩ := findPlace_clean env.host (env.policy b.raw) h ho b.key
  rw [resolve_plain hl, hf]
  cases found with
  | none => exact .inl ⟨rfl, rfl⟩
  | some q =>
    refine .inr ⟨q, rfl, hclean q rfl, ?_⟩
    simp [bind, Except.bind, (hclean q rfl).read]

theorem resolve_bare (env : Env φ) (data : Value φ) {b : Binding} (hl : b.links = [])
    (h : place.Clean) :
    (findPlace env.host (env.policy b.raw) place [] b.key = .ok none ∧
        resolve env data b place [] = .ok none) ∨
      ∃ q, findPlace env.host (env.policy b.raw) place [] b.key = .ok (some q) ∧ q.Clean ∧
        resolve env data b place [] = .ok (some (.plain q q.bound)) :=
  resolve_clean env data hl h (by simp)

/-- Links lead to no function in data without functions. -/
theorem findChain_clean (host : Host φ) (policy : FailurePolicy) (h : place.Clean)
    (ho : ∀ o ∈ overlays, o.Clean) {links : List Link} (hl : links ≠ []) (fs : List φ) :
    findChain host policy place overlays links ≠ .ok fs := by
  cases links with
  | nil => exact absurd rfl hl
  | cons link links =>
    intro hc
    rw [findChain] at hc
    obtain ⟨found, hf, hclean⟩ := findPlace_clean host policy h ho link.key
    rw [hf] at hc
    cases found with
    | none => cases hc
    | some p =>
      have hp : p.function? = none := by
        have hb := Value.isFunction_of_isData (hclean p rfl).bound
        rw [Place.function?]
        split
        · rename_i f hfun
          rw [hfun] at hb
          cases hb
        · rfl
      simp only [bind, Except.bind, hp] at hc
      cases hc

theorem resolve_linked {b : Binding} (hl : b.links ≠ []) (h : place.Clean)
    (ho : ∀ o ∈ overlays, o.Clean) {r : Resolution φ} :
    resolve env data b place overlays ≠ .ok (some r) := by
  intro hr
  have hchain := findChain_clean env.host (env.policy b.raw) h ho hl
  rw [resolve] at hr
  cases hf : findPlace env.host (env.policy b.raw) place overlays b.key with
  | error e => simp [hf, bind, Except.bind] at hr
  | ok found =>
    cases found with
    | none => simp [hf, bind, Except.bind, pure, Except.pure] at hr
    | some p =>
      simp only [hf, bind, Except.bind, List.isEmpty_iff, hl, if_false] at hr
      cases hc : findChain env.host (env.policy b.raw) place overlays b.links with
      | error e => simp [hc] at hr
      | ok fs => exact hchain fs hc

/-- Whatever is found in data without functions is found without links. -/
theorem resolve_data {b : Binding} (h : place.Clean) (ho : ∀ o ∈ overlays, o.Clean)
    {r : Resolution φ} (hr : resolve env data b place overlays = .ok (some r)) :
    b.links = [] ∧ ∃ q, q.Clean ∧ r = .plain q q.bound ∧
      findPlace env.host (env.policy b.raw) place overlays b.key = .ok (some q) := by
  have hl : b.links = [] := by
    by_contra hl
    exact resolve_linked hl h ho hr
  rcases resolve_clean env data hl h ho with ⟨-, hr'⟩ | ⟨q, hf, hq, hr'⟩
  · cases hr.symm.trans hr'
  · cases hr.symm.trans hr'
    exact ⟨hl, q, hq, rfl, hf⟩

/-- Whether a section over a value without functions is shown. -/
def shows (env : Env φ) (inclusive : Bool) (v : Value φ) : Bool :=
  ((v.get? displayKey).getD v).isTruthy env.settings.evalZeroAsTrue == inclusive

theorem display_clean {v : Value φ} (hv : v.isData = true) (inclusive : Bool) (raw : String) :
    display env data inclusive v raw = .ok (shows env inclusive v) := by
  rw [display, shows]
  cases hflag : v.get? displayKey with
  | none => rfl
  | some flag =>
    have hd := Value.isData_get? hv hflag
    cases flag with
    | function f => cases hd
    | _ => rfl

end Treeless

end TextTemplate
