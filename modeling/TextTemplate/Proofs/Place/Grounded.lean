import TextTemplate.Proofs.Place.Region
import TextTemplate.Proofs.Treeless

/-!
Places that see the whole data. From a grounded place, a key that no overlay covers leads where it
leads from the top. The passes only ever come to grounded places, so it does not matter to such a key
in which pass, or from where, it is looked up.
-/
namespace TextTemplate
variable {φ : Type}

@[simp] theorem Treeless.findPlace_nil (host : Host φ) (policy : FailurePolicy) (p : Place φ)
    (key : Key) : findPlace host policy p [] key = p.search host policy key := by
  rw [findPlace]
  split
  · simp_all
  · rfl

namespace Place

variable {host : Host φ} {propagate : Bool} {base p q : Place φ} {overlays : List (Place φ)}

/-- Whether one of the overlays covers a key. -/
def covered (overlays : List (Place φ)) (key : String) : Bool :=
  overlays.any fun o => pathCovers o.path key

theorem find?_of_not_covered {key : String} (h : covered overlays key = false) :
    (overlays.find? fun o => pathCovers o.path key) = none := by
  simpa [covered] using h

/-- A search ends in the region of its start. It uses up the segments of the key, unless an empty
name stops it at what is no sequence. -/
theorem search_within {key : Key} {raw : String} (hk : key.Formed)
    (hc : key.inContext = true ∨ pathCovers p.path key.text = true)
    (h : p.search host ⟨raw, propagate⟩ key = .ok (some q)) :
    Within host propagate p q ∧
      (splitPath q.path = (if key.inContext then splitPath p.path else []) ++ splitPath key.text ∨
        ∃ v, q.Reads host propagate v ∧ v.isArray = false) := by
  have hdot : Dotless key.segments := hk.segments ▸ dotless_splitPath key.text
  cases hin : key.inContext with
  | true =>
    simp only [search, hin, if_true] at h
    cases hw : p.walk host ⟨raw, propagate⟩ "" key.segments with
    | error e => simp [hw, bind, Except.bind] at h
    | ok r =>
      obtain ⟨x, rfl, hx⟩ : ∃ x, r = some x ∧ x.1 = q := by
        simpa [hw, bind, Except.bind, pure, Except.pure] using h
      obtain ⟨x, rest⟩ := x
      obtain rfl : x = q := hx
      have := (Walking.start p).within hdot hw
      simpa [hk.segments] using this
  | false =>
    have hcov : pathCovers p.path key.text = true := by simpa [hin] using hc
    simp only [search, hin, Bool.false_eq_true, if_false, nearest_of_covers hcov] at h
    obtain ⟨c, hcut⟩ := pathCovers_iff.1 hcov
    have hdrop : key.segments.drop (pathDepth p.path) = c := by
      rw [hk.segments, pathDepth_eq_length, ← hcut, List.drop_left]
    have hcdot : Dotless c := fun x hx => hdot x (List.mem_of_mem_drop (by rw [hdrop]; exact hx))
    rw [hdrop] at h
    cases hw : p.walk host ⟨raw, propagate⟩ "" c with
    | error e => simp [hw, bind, Except.bind] at h
    | ok r =>
      obtain ⟨x, rfl, hx⟩ : ∃ x, r = some x ∧ x.1 = q := by
        simpa [hw, bind, Except.bind, pure, Except.pure] using h
      obtain ⟨x, rest⟩ := x
      obtain rfl : x = q := hx
      have := (Walking.start p).within hcdot hw
      rw [List.nil_append, hcut] at this
      simpa using this

/-- What a place of the whole data leads to is a place of it. -/
theorem Within.found {data : Value φ} (hp : Within host propagate (.top data) p) {key : Key}
    {raw : String} (hk : key.Formed) (h : p.search host ⟨raw, propagate⟩ key = .ok (some q)) :
    Within host propagate (.top data) q := by
  cases hc : key.inContext with
  | true => exact hp.trans (search_within hk (.inl hc) h).1
  | false =>
    have htop : pathCovers (Place.top data).path key.text = true := by
      simp [pathCovers_iff, Place.top, Place.path]
    rw [hp.search_eq hk hc raw] at h
    exact (search_within hk (.inr htop) h).1

/-- A sequence stands at the path of the key that leads to it. -/
theorem path_of_array {key : Key} {raw : String} (hk : key.Formed)
    (hc : key.inContext = true ∨ pathCovers p.path key.text = true)
    (h : p.search host ⟨raw, propagate⟩ key = .ok (some q)) {v : Value φ}
    (hv : q.Reads host propagate v) (ha : v.isArray = true) :
    splitPath q.path = (if key.inContext then splitPath p.path else []) ++ splitPath key.text := by
  refine (search_within hk hc h).2.resolve_right ?_
  rintro ⟨w, hw, hwa⟩
  have := (hw "").symm.trans (hv "")
  cases this
  rw [ha] at hwa
  cases hwa

/-- The key in context of a sequence, anchored, names the sequence. -/
theorem anchored_inContext {key : Key} {raw : String} (hk : key.Formed) (hc : key.inContext = true)
    (h : p.search host ⟨raw, propagate⟩ key = .ok (some q)) {v : Value φ}
    (hv : q.Reads host propagate v) (ha : v.isArray = true) :
    (q.path ≠ "" ∧ key.anchored p.path = .ofPath q.path false) ∨
      (q.path = "" ∧ key.anchored p.path = key ∧ key.text = "") := by
  have hpath : q.path = joinPath p.path key.text := by
    refine splitPath_injective ?_
    rw [splitPath_joinPath, path_of_array hk (.inl hc) h hv ha, if_pos hc]
  by_cases hjoin : joinPath p.path key.text = ""
  · refine .inr ⟨hpath.trans hjoin, by simp [Key.anchored, hjoin], ?_⟩
    have hsplit := splitPath_joinPath p.path key.text
    rw [hjoin] at hsplit
    exact splitPath_eq_nil.1 (List.append_eq_nil_iff.1 hsplit.symm).2
  · exact .inl ⟨hpath ▸ hjoin, by simp [Key.anchored, hc, hjoin, hpath]⟩

/-- The key of a sequence names it wherever it is moved. -/
theorem Within.anchored {data : Value φ} (hp : Within host propagate (.top data) p) {key : Key}
    {raw : String} (hk : key.Formed) (h : p.search host ⟨raw, propagate⟩ key = .ok (some q))
    {v : Value φ} (hv : q.Reads host propagate v) (ha : v.isArray = true) :
    (q.path ≠ "" ∧ key.anchored p.path = .ofPath q.path false) ∨
      (q.path = "" ∧ key.anchored p.path = key ∧ key.inContext = true ∧ key.text = "") := by
  cases hc : key.inContext with
  | true => exact (anchored_inContext hk hc h hv ha).imp_right fun ⟨hq, hkey, htext⟩ =>
      ⟨hq, hkey, rfl, htext⟩
  | false =>
    have htop : pathCovers (Place.top data).path key.text = true := by
      simp [pathCovers_iff, Place.top, Place.path]
    have hpath : q.path = key.text := by
      rw [hp.search_eq hk hc raw] at h
      exact splitPath_injective (by simpa [hc] using path_of_array hk (.inr htop) h hv ha)
    refine .inl ⟨hpath ▸ hk.text hc, ?_⟩
    obtain ⟨text, segments, inContext⟩ := key
    obtain rfl : inContext = false := hc
    obtain rfl : segments = splitPath text := hk.segments
    obtain rfl : q.path = text := hpath
    simp [Key.anchored, Key.ofPath]

/-- Absolute keys that no overlay covers lead from `p` where they lead from `base`. -/
structure Grounded (host : Host φ) (propagate : Bool) (base : Place φ) (overlays : List (Place φ))
    (p : Place φ) : Prop where
  search : ∀ key : Key, key.Formed → key.inContext = false → covered overlays key.text = false →
    ∀ raw, p.search host ⟨raw, propagate⟩ key = base.search host ⟨raw, propagate⟩ key
  orphan : p.above = [] → p.path = ""

namespace Grounded

theorem top (data : Value φ) : Grounded host propagate (.top data) overlays (.top data) :=
  ⟨fun _ _ _ _ _ => rfl, fun _ => rfl⟩

theorem within (h : Grounded host propagate base overlays p) (hq : Within host propagate p q) :
    Grounded host propagate base overlays q where
  search key hk hc hcov raw := (hq.search_eq hk hc raw).trans (h.search key hk hc hcov raw)
  orphan := by
    cases hq with
    | base => exact h.orphan
    | step _ hs => simp [hs.above]

theorem cons (h : Grounded host propagate base overlays p) (o : Place φ) :
    Grounded host propagate base (o :: overlays) p where
  search key hk hc hcov raw := by
    simp only [covered, List.any_cons, Bool.or_eq_false_iff] at hcov
    exact h.search key hk hc hcov.2 raw
  orphan := h.orphan

/-- An overlay is only asked for keys that it does not cover when no other overlay does. -/
theorem overlay (h : Grounded host propagate base overlays p) (v : Value φ) :
    Grounded host propagate base (p.overlay v :: overlays) (p.overlay v) where
  search key hk hc hcov raw := by
    simp only [covered, List.any_cons, Bool.or_eq_false_iff] at hcov
    have hp : ¬ pathCovers p.path key.text = true := by
      simpa [Place.overlay, Place.path] using hcov.1
    rw [← h.search key hk hc hcov.2 raw]
    have hnear : (p.overlay v).nearest key.text = p.nearest key.text := by
      obtain ⟨f, above⟩ := p
      cases above with
      | nil =>
        have := h.orphan rfl
        exact absurd (by simp [this, pathCovers_iff]) hp
      | cons a rest => exact (if_neg hp).trans (if_neg hp).symm
    simp [Place.search, hc, hnear]
  orphan := h.orphan

end Grounded

/-- A place from which the passes look keys up, with the overlays they look at first. -/
structure Footing (host : Host φ) (propagate : Bool) (data : Value φ) (p : Place φ)
    (overlays : List (Place φ)) : Prop where
  place : Grounded host propagate (.top data) overlays p
  overlays : ∀ o ∈ overlays, Grounded host propagate (.top data) overlays o

namespace Footing

variable {data : Value φ} {raw : String} {key : Key}

theorem top (data : Value φ) : Footing host propagate data (.top data) [] :=
  ⟨.top data, by simp⟩

theorem item (h : Footing host propagate data p overlays) (v : Value φ) :
    Footing host propagate data (p.overlay v) (p.overlay v :: overlays) := by
  refine ⟨h.place.overlay v, fun o ho => ?_⟩
  rcases List.mem_cons.1 ho with rfl | ho
  · exact h.place.overlay v
  · exact (h.overlays o ho).cons _

/-- From two places, an absolute key is found alike. -/
theorem findPlace_eq (h : Footing host propagate data p overlays)
    (hq : Grounded host propagate (.top data) overlays q) (hk : key.Formed)
    (hc : key.inContext = false) :
    Treeless.findPlace host ⟨raw, propagate⟩ p overlays key =
      Treeless.findPlace host ⟨raw, propagate⟩ q overlays key := by
  simp only [Treeless.findPlace, hc, Bool.false_eq_true, if_false]
  cases hf : overlays.find? fun o => pathCovers o.path key.text with
  | some o => rfl
  | none =>
    have hcov : covered overlays key.text = false := by simpa [covered] using hf
    rw [h.place.search key hk hc hcov, hq.search key hk hc hcov]

/-- What is found without overlays is found with them, when none covers the key. -/
theorem findPlace_bare (hp : Grounded host propagate (.top data) [] p) (hk : key.Formed)
    (hc : key.inContext = false) (h : Grounded host propagate (.top data) overlays q)
    (hcov : covered overlays key.text = false) :
    Treeless.findPlace host ⟨raw, propagate⟩ p [] key =
      Treeless.findPlace host ⟨raw, propagate⟩ q overlays key := by
  have hf := find?_of_not_covered hcov
  simp only [Treeless.findPlace, hc, Bool.false_eq_true, if_false, hf, List.find?_nil]
  rw [hp.search key hk hc rfl, h.search key hk hc hcov]

/-- What a key leads to sees the whole data again. -/
theorem found (h : Footing host propagate data p overlays) (hk : key.Formed)
    (hf : Treeless.findPlace host ⟨raw, propagate⟩ p overlays key = .ok (some q)) :
    Footing host propagate data q overlays := by
  refine ⟨?_, h.overlays⟩
  rw [Treeless.findPlace] at hf
  cases hc : key.inContext with
  | true =>
    simp only [hc, if_true] at hf
    exact h.place.within (search_within hk (.inl hc) hf).1
  | false =>
    simp only [hc, Bool.false_eq_true, if_false] at hf
    cases ho : overlays.find? fun o => pathCovers o.path key.text with
    | some o =>
      rw [ho] at hf
      have hcov := List.find?_some ho
      exact (h.overlays o (List.mem_of_find?_eq_some ho)).within
        (search_within hk (.inr hcov) hf).1
    | none =>
      rw [ho] at hf
      have hcov : covered overlays key.text = false := by simpa [covered] using ho
      have htop : pathCovers (Place.top data).path key.text = true := by
        simp [pathCovers_iff, Place.top, Place.path]
      rw [h.place.search key hk hc hcov] at hf
      exact (Grounded.top data).within (search_within hk (.inr htop) hf).1

/-- A sequence that an absolute key leads to stands at the path of the key. -/
theorem found_path (h : Footing host propagate data p overlays) (hk : key.Formed)
    (hc : key.inContext = false)
    (hf : Treeless.findPlace host ⟨raw, propagate⟩ p overlays key = .ok (some q)) :
    q.path = key.text ∨ ∃ v, q.Reads host propagate v ∧ v.isArray = false := by
  have hsearch : ∃ o : Place φ, pathCovers o.path key.text = true ∧
      o.search host ⟨raw, propagate⟩ key = .ok (some q) := by
    simp only [Treeless.findPlace, hc, Bool.false_eq_true, if_false] at hf
    cases ho : overlays.find? fun o => pathCovers o.path key.text with
    | some o =>
      rw [ho] at hf
      have hcov := List.find?_some ho
      exact ⟨o, hcov, hf⟩
    | none =>
      rw [ho] at hf
      have hcov : covered overlays key.text = false := by simpa [covered] using ho
      rw [h.place.search key hk hc hcov] at hf
      exact ⟨.top data, by simp [pathCovers_iff, Place.top, Place.path], hf⟩
  obtain ⟨o, hcov, ho⟩ := hsearch
  have := (search_within hk (.inr hcov) ho).2
  simp only [hc, Bool.false_eq_true, if_false, List.nil_append] at this
  exact this.imp_left fun hp => splitPath_injective hp

end Footing

end Place

end TextTemplate
