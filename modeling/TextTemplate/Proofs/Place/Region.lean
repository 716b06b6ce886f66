import TextTemplate.Proofs.Path
import TextTemplate.Proofs.Place.Reading

/-!
Regions of places. A region is what can be walked to from a base. Each path leads to one place of it
only, so a place of the region is found by its path from everywhere in the region.
-/
namespace TextTemplate
variable {φ : Type}

/-- What parsing promises of a key: it is cut at its dots, and is not empty unless in context. -/
structure Key.Formed (key : Key) : Prop where
  segments : key.segments = splitPath key.text
  text : key.inContext = false → key.text ≠ ""

theorem Key.Formed.anchored {key : Key} (h : key.Formed) (path : String) :
    (key.anchored path).Formed := by
  rw [Key.anchored]
  split
  · rename_i hc
    exact ⟨rfl, fun _ => hc.2⟩
  · exact h

/-- No segment of the key is empty. -/
def Key.NoGaps (key : Key) : Prop := ∀ s ∈ key.segments, s ≠ ""

instance (key : Key) : Decidable key.NoGaps :=
  inferInstanceAs (Decidable (∀ s ∈ key.segments, s ≠ ""))

namespace Place

variable {host : Host φ} {propagate : Bool} {policy : FailurePolicy}

theorem isSelfKey_append (joined : String) {s : String} (hs : s ≠ "") (hdot : '.' ∉ s.toList) :
    ScopeTree.isSelfKey (joined ++ s) = false := by
  have hne : joined ++ s ≠ "" := by simp [hs]
  have hdot' : joined ++ s ≠ "." := by
    intro h
    have h' := congrArg String.toList h
    rw [String.toList_append, toList_dot] at h'
    obtain ⟨c, r, hc⟩ := List.exists_cons_of_ne_nil (fun h => hs (String.toList_eq_nil_iff.1 h))
    rw [hc] at h' hdot
    cases hj : joined.toList with
    | nil =>
      rw [hj] at h'
      simp only [List.nil_append, List.cons.injEq] at h'
      simp [h'.1] at hdot
    | cons d ds => simp [hj] at h'
  simp [ScopeTree.isSelfKey, hne, hdot']

theorem name_ne {joined segment : String} (hs : ScopeTree.isSelfKey (joined ++ segment) = false) :
    joined ++ segment ≠ "" := by
  intro he
  simp [he, ScopeTree.isSelfKey] at hs

theorem path_child {p : Place φ} {joined segment : String} {before : List String} {w : Value φ}
    (hj : Joined joined before) (hdot : '.' ∉ segment.toList)
    (hs : ScopeTree.isSelfKey (joined ++ segment) = false) :
    splitPath (p.child (joined ++ segment) w).path = splitPath p.path ++ (before ++ [segment]) := by
  show splitPath (pathStem p.path ++ (joined ++ segment)) = _
  rw [splitPath_stem _ (name_ne hs), hj.splitPath_append hdot (name_ne hs)]

@[simp] theorem walk_nil (p : Place φ) : p.walk host policy "" [] = .ok (some (p, [])) := by
  simp [walk]

/-- Nothing is found below a sequence. -/
theorem walk_array {p : Place φ} {v : Value φ} (hv : p.read host policy = .ok v)
    (ha : v.isArray = true) {joined : String} {segments : List String}
    (hj : joined ≠ "" ∨ segments ≠ []) : p.walk host policy joined segments = .ok none := by
  induction segments generalizing joined with
  | nil => simp [walk, hj.resolve_right (fun h => h rfl)]
  | cons segment segments ih =>
    simp only [walk, hv, ha, bind, Except.bind, if_true]
    exact ih (.inl (by simp))

/-- A walk that is not stopped can be continued. -/
theorem walk_append {joined : String} {a b : List String} {p q : Place φ}
    (h : p.walk host policy joined a = .ok (some (q, []))) :
    p.walk host policy joined (a ++ b) = q.walk host policy "" b := by
  induction a generalizing joined p with
  | nil =>
    by_cases hj : joined = ""
    · subst hj
      simp only [walk_nil, Except.ok.injEq, Option.some.injEq, Prod.mk.injEq, and_true] at h
      rw [h, List.nil_append]
    · simp [walk, hj] at h
  | cons segment a ih =>
    rw [List.cons_append, walk] at *
    obtain ⟨v, hr, h⟩ := bind_eq_ok_iff.1 h
    dsimp only at h
    simp only [hr, bind, Except.bind]
    split at h
    · rename_i hv
      simpa only [hv, if_true] using ih h
    · rename_i hv
      split at h
      · simp [pure, Except.pure] at h
      · rename_i hs
        simp only [hv, hs]
        split at h <;> exact ih h

/-- A walk that no empty segment can stop ends where its segments say. -/
theorem walk_gapless {p q : Place φ} {joined : String} {before segments rest : List String}
    (hj : Joined joined before) (hdot : Dotless segments) (hgaps : ∀ s ∈ segments, s ≠ "")
    (h : p.walk host policy joined segments = .ok (some (q, rest))) :
    splitPath q.path = splitPath p.path ++ (before ++ segments) := by
  induction segments generalizing p joined before with
  | nil =>
    cases hj with
    | none =>
      rw [walk_nil] at h
      cases h
      simp
    | some hn => simp [walk] at h
  | cons segment segments ih =>
    have hsdot : '.' ∉ segment.toList := hdot segment List.mem_cons_self
    have hs := isSelfKey_append joined (hgaps segment List.mem_cons_self) hsdot
    have hne := name_ne hs
    have hrest : Dotless segments := fun x hx => hdot x (List.mem_cons_of_mem _ hx)
    have hmore : ∀ s ∈ segments, s ≠ "" := fun x hx => hgaps x (List.mem_cons_of_mem _ hx)
    have hnext : p.walk host policy (joined ++ segment ++ ".") segments = .ok (some (q, rest)) →
        splitPath q.path = splitPath p.path ++ (before ++ segment :: segments) := fun h => by
      simpa using ih (hj.next hsdot hne) hrest hmore h
    rw [walk] at h
    obtain ⟨v, -, h⟩ := bind_eq_ok_iff.1 h
    simp only [hs, Bool.false_eq_true, if_false] at h
    split at h
    · exact hnext h
    · split at h
      · rw [ih .none hrest hmore h, path_child hj hsdot hs]
        simp
      · exact hnext h

/-- One move of a walk: to a field, by the fewest segments that name one. -/
structure Steps (host : Host φ) (propagate : Bool) (p : Place φ) (segments : List String)
    (q : Place φ) : Prop where
  walk : ∀ raw, p.walk host ⟨raw, propagate⟩ "" segments = .ok (some (q, []))
  path : splitPath q.path = splitPath p.path ++ segments
  above : q.above = p.spot :: p.above

/-- The places that can be walked to from `base`. -/
inductive Within (host : Host φ) (propagate : Bool) (base : Place φ) : Place φ → Prop where
  | base : Within host propagate base base
  | step {p q : Place φ} {segments : List String} (h : Within host propagate base p)
      (hs : Steps host propagate p segments q) : Within host propagate base q

/-- Where a walk from `p` stands when `before` has been joined and names no field yet. -/
structure Walking (host : Host φ) (propagate : Bool) (p : Place φ) (joined : String)
    (before : List String) : Prop where
  names : Joined joined before
  walk : ∀ raw rest, p.walk host ⟨raw, propagate⟩ "" (before ++ rest) =
    p.walk host ⟨raw, propagate⟩ joined rest

namespace Walking
variable {p : Place φ} {joined segment raw : String} {before : List String} {v w : Value φ}

theorem start (p : Place φ) : Walking host propagate p "" [] := ⟨.none, fun _ _ => rfl⟩

theorem next (h : Walking host propagate p joined before) (hdot : '.' ∉ segment.toList)
    (hv : p.read host ⟨raw, propagate⟩ = .ok v) (ha : v.isArray = false)
    (hs : ScopeTree.isSelfKey (joined ++ segment) = false)
    (hw : v.get? (joined ++ segment) = none) :
    Walking host propagate p (joined ++ segment ++ ".") (before ++ [segment]) := by
  refine ⟨h.names.next hdot (name_ne hs), fun raw' rest => ?_⟩
  rw [List.append_assoc, h.walk, List.singleton_append, Place.walk, reads_of_read hv raw']
  simp [bind, Except.bind, ha, hs, hw]

/-- The move to a field that the joined segments name. -/
theorem steps (h : Walking host propagate p joined before) (hdot : '.' ∉ segment.toList)
    (hv : p.read host ⟨raw, propagate⟩ = .ok v) (ha : v.isArray = false)
    (hs : ScopeTree.isSelfKey (joined ++ segment) = false)
    (hw : v.get? (joined ++ segment) = some w) :
    Steps host propagate p (before ++ [segment]) (p.child (joined ++ segment) w) := by
  refine ⟨fun raw' => ?_, path_child h.names hdot hs, rfl⟩
  rw [h.walk, Place.walk, reads_of_read hv raw']
  simp [bind, Except.bind, ha, hs, hw, Place.walk]

end Walking

theorem Within.trans {base p q : Place φ} (h : Within host propagate base p)
    (hq : Within host propagate p q) : Within host propagate base q := by
  induction hq with
  | base => exact h
  | step _ hs ih => exact .step ih hs

/-- A walk stays in the region of its start. It uses up the segments, unless an empty name stops it
at what is no sequence. -/
theorem Walking.within {p q : Place φ} {joined raw : String} {before segments rest : List String}
    (h : Walking host propagate p joined before) (hdot : Dotless segments)
    (hwalk : p.walk host ⟨raw, propagate⟩ joined segments = .ok (some (q, rest))) :
    Within host propagate p q ∧
      (splitPath q.path = splitPath p.path ++ (before ++ segments) ∨
        ∃ v, q.Reads host propagate v ∧ v.isArray = false) := by
  induction segments generalizing p joined before with
  | nil =>
    cases h.names with
    | none =>
      simp only [walk_nil, Except.ok.injEq, Option.some.injEq, Prod.mk.injEq] at hwalk
      obtain ⟨rfl, -⟩ := hwalk
      exact ⟨.base, .inl (by simp)⟩
    | some hn => simp [Place.walk] at hwalk
  | cons segment segments ih =>
    have hsdot : '.' ∉ segment.toList := hdot segment List.mem_cons_self
    have hrest : Dotless segments := fun x hx => hdot x (List.mem_cons_of_mem _ hx)
    rw [Place.walk] at hwalk
    obtain ⟨v, hv, hwalk⟩ := bind_eq_ok_iff.1 hwalk
    cases ha : v.isArray with
    | true =>
      simp only [ha, if_true] at hwalk
      rw [walk_array hv ha (.inl (by simp))] at hwalk
      cases hwalk
    | false =>
      cases hs : ScopeTree.isSelfKey (joined ++ segment) with
      | true =>
        simp only [ha, hs, if_true, Bool.false_eq_true, if_false, pure, Except.pure,
          Except.ok.injEq, Option.some.injEq, Prod.mk.injEq] at hwalk
        obtain ⟨rfl, -⟩ := hwalk
        exact ⟨.base, .inr ⟨v, reads_of_read hv, ha⟩⟩
      | false =>
        simp only [ha, hs, Bool.false_eq_true, if_false] at hwalk
        cases hw : v.get? (joined ++ segment) with
        | none =>
          rw [hw] at hwalk
          have := ih (h.next hsdot hv ha hs hw) hrest hwalk
          rwa [List.append_assoc, List.singleton_append] at this
        | some w =>
          rw [hw] at hwalk
          obtain ⟨hin, hpath⟩ := ih (.start (p.child (joined ++ segment) w)) hrest hwalk
          have hstep := h.steps hsdot hv ha hs hw
          refine ⟨Within.trans (.step .base hstep) hin, hpath.imp_left fun hq => ?_⟩
          rw [hq, hstep.path]
          simp

theorem Within.walk {base q : Place φ} (h : Within host propagate base q) :
    ∃ segments, splitPath q.path = splitPath base.path ++ segments ∧
      ∀ raw, base.walk host ⟨raw, propagate⟩ "" segments = .ok (some (q, [])) := by
  induction h with
  | base => exact ⟨[], by simp, by simp⟩
  | @step p q segments hp hs ih =>
    obtain ⟨a, hpath, hwalk⟩ := ih
    refine ⟨a ++ segments, by rw [hs.path, hpath, List.append_assoc], fun raw => ?_⟩
    rw [walk_append (hwalk raw)]
    exact hs.walk raw

/-- Only the base of a region can stand at the empty path. -/
theorem Within.eq_base {base p : Place φ} (h : Within host propagate base p) (hp : p.path = "") :
    p = base := by
  obtain ⟨a, hpath, hwalk⟩ := h.walk
  rw [hp, splitPath_empty] at hpath
  have hnil : a = [] := (List.append_eq_nil_iff.1 hpath.symm).2
  have := hwalk ""
  rw [hnil, walk_nil] at this
  cases this
  rfl

/-- Nothing else stands in a sequence. -/
theorem Within.eq_of_covers {base a q : Place φ} (ha : Within host propagate base a)
    (hq : Within host propagate base q) {v : Value φ} {raw : String}
    (hv : a.read host ⟨raw, propagate⟩ = .ok v) (hv' : v.isArray = true)
    (hcov : pathCovers a.path q.path = true) : q = a := by
  obtain ⟨x, hpath, hwalk⟩ := ha.walk
  obtain ⟨y, hqpath, hqwalk⟩ := hq.walk
  obtain ⟨c, hc⟩ := pathCovers_iff.1 hcov
  have hy : y = x ++ c := by
    rw [hqpath, hpath, List.append_assoc] at hc
    exact (List.append_cancel_left hc).symm
  have := hqwalk raw
  rw [hy, walk_append (hwalk raw)] at this
  by_cases hnil : c = []
  · rw [hnil, walk_nil] at this
    cases this
    rfl
  · rw [walk_array hv hv' (.inr hnil)] at this
    cases this

theorem Within.covers {base q : Place φ} (h : Within host propagate base q) :
    pathCovers base.path q.path = true := by
  obtain ⟨a, hpath, -⟩ := h.walk
  exact pathCovers_iff.2 ⟨a, hpath.symm⟩

/-- The nearest place that covers a key of the region lies in the region. -/
theorem Within.nearest {base p : Place φ} (h : Within host propagate base p) {key : String}
    (hk : pathCovers base.path key = true) :
    Within host propagate base (p.nearest key) ∧ pathCovers (p.nearest key).path key = true := by
  induction h with
  | base =>
    have : base.nearest key = base := by
      obtain ⟨f, above⟩ := base
      cases above with
      | nil => rfl
      | cons a rest => exact if_pos hk
    rw [this]
    exact ⟨.base, hk⟩
  | @step p q segments hp hs ih =>
    by_cases hq : pathCovers q.path key = true
    · have : q.nearest key = q := by
        obtain ⟨f, above⟩ := q
        cases above with
        | nil => rfl
        | cons a rest => exact if_pos hq
      rw [this]
      exact ⟨.step hp hs, hq⟩
    · have : q.nearest key = p.nearest key := by
        obtain ⟨f, above⟩ := q
        have ha : above = p.spot :: p.above := hs.above
        rw [ha]
        exact if_neg hq
      rw [this]
      exact ih

/-- The path of a place leads to it from everywhere in its region. -/
theorem Within.search_path {base p q : Place φ} (hp : Within host propagate base p)
    (hq : Within host propagate base q) {key : Key} (hk : key.Formed) (hc : key.inContext = false)
    (ht : key.text = q.path) (raw : String) :
    p.search host ⟨raw, propagate⟩ key = .ok (some q) := by
  have hcov : pathCovers base.path key.text = true := ht ▸ hq.covers
  obtain ⟨hn, hnc⟩ := hp.nearest hcov
  obtain ⟨a, hpath, hwalk⟩ := hn.walk
  obtain ⟨b, hqpath, hqwalk⟩ := hq.walk
  obtain ⟨c, hc'⟩ := pathCovers_iff.1 hnc
  have hb : b = a ++ c := by
    have : splitPath base.path ++ (a ++ c) = splitPath base.path ++ b := by
      rw [← hqpath, ← ht, ← hc', hpath, List.append_assoc]
    exact (List.append_cancel_left this).symm
  have hdrop : key.segments.drop (pathDepth (p.nearest key.text).path) = c := by
    rw [hk.segments, pathDepth_eq_length, ← hc', List.drop_left]
  have := hqwalk raw
  rw [hb, walk_append (hwalk raw)] at this
  simp [search, hc, hdrop, this, bind, Except.bind, pure, Except.pure]

/-- A place below another in the same region is found from it by the rest of its path. -/
theorem Within.search_below {base p q : Place φ} (hp : Within host propagate base p)
    (hq : Within host propagate base q) {key : Key} (hk : key.Formed) (hc : key.inContext = true)
    (ht : q.path = pathStem p.path ++ key.text) (hne : key.text ≠ "") (raw : String) :
    p.search host ⟨raw, propagate⟩ key = .ok (some q) := by
  obtain ⟨a, hpath, hwalk⟩ := hp.walk
  obtain ⟨b, hqpath, hqwalk⟩ := hq.walk
  have hb : b = a ++ key.segments := by
    have : splitPath base.path ++ (a ++ key.segments) = splitPath base.path ++ b := by
      rw [← hqpath, ht, splitPath_stem _ hne, hpath, hk.segments, List.append_assoc]
    exact (List.append_cancel_left this).symm
  have := hqwalk raw
  rw [hb, walk_append (hwalk raw)] at this
  simp [search, hc, this, bind, Except.bind, pure, Except.pure]

theorem nearest_of_covers {p : Place φ} {key : String} (h : pathCovers p.path key = true) :
    p.nearest key = p := by
  obtain ⟨spot, above⟩ := p
  cases above with
  | nil => rfl
  | cons a rest => exact if_pos h

/-- An absolute key leads to the same place from everywhere in a region. -/
theorem Within.search_eq {base p : Place φ} (hp : Within host propagate base p) {key : Key}
    (hk : key.Formed) (hc : key.inContext = false) (raw : String) :
    p.search host ⟨raw, propagate⟩ key = base.search host ⟨raw, propagate⟩ key := by
  by_cases hcov : pathCovers base.path key.text = true
  · obtain ⟨hn, hnc⟩ := hp.nearest hcov
    obtain ⟨a, hpath, hwalk⟩ := hn.walk
    obtain ⟨c, hc'⟩ := pathCovers_iff.1 hnc
    have hdrop : key.segments.drop (pathDepth (p.nearest key.text).path) = c := by
      rw [hk.segments, pathDepth_eq_length, ← hc', List.drop_left]
    have hdrop' : key.segments.drop (pathDepth base.path) = a ++ c := by
      rw [hk.segments, pathDepth_eq_length, ← hc', hpath, List.append_assoc, List.drop_left]
    simp [search, hc, hdrop, nearest_of_covers hcov, hdrop', walk_append (hwalk raw)]
  · have hnear : p.nearest key.text = base.nearest key.text := by
      induction hp with
      | base => rfl
      | @step p q segments hp hs ih =>
        have hq : ¬ pathCovers q.path key.text = true := fun hq => hcov <| by
          refine pathCovers_iff.2 ((List.IsPrefix.trans ?_ (pathCovers_iff.1 hq)))
          exact pathCovers_iff.1 (Within.step hp hs).covers
        obtain ⟨f, above⟩ := q
        have ha : above = p.spot :: p.above := hs.above
        rw [ha]
        exact (if_neg hq).trans ih
    simp [search, hc, hnear]

end Place

end TextTemplate
