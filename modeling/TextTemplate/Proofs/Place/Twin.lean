import TextTemplate.Proofs.Place.Clean
import TextTemplate.Proofs.Place.Region
import Mathlib.Data.Option.Basic

/-!
The same place over two roots. The roots are records that differ in one field. What is looked up below
them, or in another field of them, is found alike.
-/
namespace TextTemplate
variable {φ : Type}

/-- The first field that a walk down the segments of a path enters. -/
def Value.firstField (d : Value φ) : (joined : String) → (segments : List String) →
    Option (String × Value φ × List String)
  | _, [] => none
  | joined, segment :: segments =>
    let name := joined ++ segment
    if ScopeTree.isSelfKey name then none
    else match d.get? name with
      | some w => some (name, w, segments)
      | none => firstField d (name ++ ".") segments

theorem Value.firstField_append {d : Value φ} {joined : String} {segments more rest : List String}
    {name : String} {w : Value φ} (h : d.firstField joined segments = some (name, w, rest)) :
    d.firstField joined (segments ++ more) = some (name, w, rest ++ more) := by
  induction segments generalizing joined with
  | nil => cases h
  | cons segment segments ih =>
    rw [List.cons_append, firstField] at *
    split at h
    · cases h
    · rename_i hs
      rw [if_neg hs]
      cases hw : d.get? (joined ++ segment) with
      | some w =>
        rw [hw] at h
        cases h
        rfl
      | none =>
        rw [hw] at h
        exact ih h

/-- The first field is one that the segments begin with. -/
theorem Value.firstField_split {d : Value φ} {joined : String}
    {before segments rest : List String} {name : String} {w : Value φ} (hj : Joined joined before)
    (hdot : Dotless segments) (h : d.firstField joined segments = some (name, w, rest)) :
    d.get? name = some w ∧ before ++ segments = splitPath name ++ rest := by
  induction segments generalizing joined before with
  | nil => cases h
  | cons segment segments ih =>
    have hsdot : '.' ∉ segment.toList := hdot segment List.mem_cons_self
    rw [firstField] at h
    cases hs : ScopeTree.isSelfKey (joined ++ segment) with
    | true => simp [hs] at h
    | false =>
      have hne := Place.name_ne hs
      simp only [hs, Bool.false_eq_true, if_false] at h
      cases hw : d.get? (joined ++ segment) with
      | some w =>
        rw [hw] at h
        cases h
        exact ⟨hw, by rw [hj.splitPath_append hsdot hne]; simp⟩
      | none =>
        rw [hw] at h
        have := ih (hj.next hsdot hne) (fun x hx => hdot x (List.mem_cons_of_mem _ hx)) h
        simpa using this

/-- Whether looking segments up in `d` enters neither the field `k` nor a function. -/
def Value.Spares (d : Value φ) (k : String) (segments : List String) : Prop :=
  ∀ name w rest, d.firstField "" segments = some (name, w, rest) → name ≠ k ∧ w.isData = true

namespace Place

/-- Two records that differ in the field `k` alone. -/
structure Roots (k : String) (d d' : Value φ) : Prop where
  record : ∃ fields, d = .record fields
  record' : ∃ fields, d' = .record fields
  field : (d.get? k).isSome = true
  other : ∀ name, name ≠ k → d'.get? name = d.get? name

/-- The same place over two roots. -/
inductive Twin (d d' : Value φ) : Place φ → Place φ → Prop where
  | top : Twin d d' (.top d) (.top d')
  | under {p p' : Place φ} (h : Twin d d' p p') (spot : Spot φ) (data : spot.bound.isData = true) :
    Twin d d' ⟨spot, p.spot :: p.above⟩ ⟨spot, p'.spot :: p'.above⟩

variable {k : String} {d d' : Value φ} {host : Host φ} {policy : FailurePolicy} {p p' : Place φ}

namespace Twin

theorem path (h : Twin d d' p p') : p'.path = p.path := by cases h <;> rfl

theorem child (h : Twin d d' p p') (name : String) {w : Value φ} (hw : w.isData = true) :
    Twin d d' (p.child name w) (p'.child name w) := by
  have hspot : p'.child name w = ⟨⟨pathStem p.path ++ name, w⟩, p'.spot :: p'.above⟩ := by
    rw [Place.child, h.path]
  rw [hspot]
  exact h.under ⟨pathStem p.path ++ name, w⟩ hw

/-- Below the roots the same value is bound. -/
theorem bound (h : Twin d d' p p') (hp : p.above ≠ []) :
    p'.bound = p.bound ∧ p.bound.isData = true := by
  cases h with
  | top => exact absurd rfl hp
  | under h spot hs => exact ⟨rfl, hs⟩

theorem top_of (h : Twin d d' p p') (hp : p.above = []) : p = .top d ∧ p' = .top d' := by
  cases h with
  | top => exact ⟨rfl, rfl⟩
  | under => cases hp

theorem overlay (h : Twin d d' p p') (hp : p.above ≠ []) {w : Value φ} (hw : w.isData = true) :
    Twin d d' (p.overlay w) (p'.overlay w) := by
  cases h with
  | top => exact absurd rfl hp
  | under h spot => exact h.under ⟨spot.path, w⟩ hw

/-- A walk below the roots. -/
theorem walk (host : Host φ) (policy : FailurePolicy) (h : Twin d d' p p') (hp : p.above ≠ [])
    (joined : String) (segments : List String) :
    ∃ r r', p.walk host policy joined segments = .ok r ∧
      p'.walk host policy joined segments = .ok r' ∧
      Option.Rel (fun x y => Twin d d' x.1 y.1 ∧ x.1.above ≠ []) r r' := by
  induction segments generalizing p p' joined with
  | nil =>
    refine ⟨_, _, rfl, rfl, ?_⟩
    split
    · exact .some ⟨h, hp⟩
    · exact .none
  | cons segment segments ih =>
    obtain ⟨hb, hd⟩ := h.bound hp
    have hread : p.read host policy = .ok p.bound :=
      read_of_not_function (Value.isFunction_of_isData hd)
    have hread' : p'.read host policy = .ok p.bound := by
      rw [← hb]
      exact read_of_not_function (Value.isFunction_of_isData (hb ▸ hd))
    simp only [Place.walk, hread, hread', bind, Except.bind]
    split
    · exact ih h hp _
    · split
      · exact ⟨_, _, rfl, rfl, .some ⟨h, hp⟩⟩
      · split
        · rename_i w hw
          exact ih (h.child _ (Value.isData_get? hd hw)) (List.cons_ne_nil _ _) _
        · exact ih h hp _

end Twin

theorem Roots.isFunction (hR : Roots k d d') : d.isFunction = false ∧ d'.isFunction = false := by
  obtain ⟨⟨_, rfl⟩, ⟨_, rfl⟩, -, -⟩ := hR
  exact ⟨rfl, rfl⟩

theorem Roots.isArray (hR : Roots k d d') : d.isArray = false ∧ d'.isArray = false := by
  obtain ⟨⟨_, rfl⟩, ⟨_, rfl⟩, -, -⟩ := hR
  exact ⟨rfl, rfl⟩

/-- A walk from the roots that spares the field. -/
theorem Roots.walk_top (host : Host φ) (policy : FailurePolicy) (hR : Roots k d d')
    (joined : String) (segments : List String)
    (hs : ∀ name w rest, d.firstField joined segments = some (name, w, rest) →
      name ≠ k ∧ w.isData = true) :
    ∃ r r', (top d).walk host policy joined segments = .ok r ∧
      (top d').walk host policy joined segments = .ok r' ∧
      Option.Rel (fun x y => Twin d d' x.1 y.1) r r' := by
  induction segments generalizing joined with
  | nil =>
    refine ⟨_, _, rfl, rfl, ?_⟩
    split
    · exact .some .top
    · exact .none
  | cons segment segments ih =>
    have hread : (top d).read host policy = .ok d := read_of_not_function hR.isFunction.1
    have hread' : (top d').read host policy = .ok d' := read_of_not_function hR.isFunction.2
    rw [Value.firstField] at hs
    simp only [Place.walk, hread, hread', bind, Except.bind, hR.isArray.1, hR.isArray.2,
      Bool.false_eq_true,
      if_false]
    split
    · exact ⟨_, _, rfl, rfl, .some .top⟩
    · rename_i hself
      rw [if_neg hself] at hs
      cases hw : d.get? (joined ++ segment) with
      | some w =>
        obtain ⟨hne, hdata⟩ := hs (joined ++ segment) w segments (by rw [hw])
        rw [hR.other _ hne, hw]
        obtain ⟨r, r', hr, hr', hrel⟩ := (Twin.top.child (joined ++ segment) hdata :
          Twin d d' _ _).walk host policy (List.cons_ne_nil _ _) "" segments
        refine ⟨r, r', hr, hr', ?_⟩
        cases hrel with
        | none => exact .none
        | some h => exact .some h.1
      | none =>
        have hne : joined ++ segment ≠ k := by
          rintro rfl
          have := hR.field
          rw [hw] at this
          cases this
        rw [hR.other _ hne, hw]
        refine ih _ fun name w rest hf => hs name w rest ?_
        rw [hw]
        exact hf

namespace Twin

/-- Twins are bound to the same data, unless they are the roots. -/
theorem bound_or (h : Twin d d' p p') :
    p'.bound = p.bound ∧ p.bound.isData = true ∨ p = .top d ∧ p' = .top d' := by
  by_cases hp : p.above = []
  · exact .inr (h.top_of hp)
  · exact .inl (h.bound hp)

theorem shape (h : Twin d d' p p') (hR : Roots k d d') :
    p'.bound.isArray = p.bound.isArray ∧ p'.bound.size = p.bound.size := by
  rcases h.bound_or with ⟨hb, -⟩ | ⟨rfl, rfl⟩
  · rw [hb]
    exact ⟨rfl, rfl⟩
  · obtain ⟨⟨_, rfl⟩, ⟨_, rfl⟩, -, -⟩ := hR
    exact ⟨rfl, rfl⟩

theorem read (host : Host φ) (policy : FailurePolicy) (h : Twin d d' p p') (hR : Roots k d d') :
    p.read host policy = .ok p.bound ∧ p'.read host policy = .ok p'.bound := by
  have hfun : p.bound.isFunction = false ∧ p'.bound.isFunction = false := by
    rcases h.bound_or with ⟨hb, hd⟩ | ⟨rfl, rfl⟩
    · exact ⟨Value.isFunction_of_isData hd, hb ▸ Value.isFunction_of_isData hd⟩
    · exact hR.isFunction
  exact ⟨read_of_not_function hfun.1, read_of_not_function hfun.2⟩

/-- The items of a sequence, which is never a root. -/
theorem item (h : Twin d d' p p') (hR : Roots k d d') (ha : p.bound.isArray = true) (i : Nat) :
    (p.item p.bound i).above ≠ [] ∧ Twin d d' (p.item p.bound i) (p'.item p'.bound i) := by
  have hp : p.above ≠ [] := by
    intro hp
    obtain ⟨rfl, -⟩ := h.top_of hp
    obtain ⟨⟨_, rfl⟩, -, -, -⟩ := hR
    cases ha
  obtain ⟨hb, hd⟩ := h.bound hp
  refine ⟨hp, ?_⟩
  rw [hb]
  refine h.overlay hp ?_
  cases hv : p.bound with
  | array items =>
    rw [hv] at hd
    exact Value.isData_getD hd i
  | _ => rw [hv] at ha; cases ha

end Twin

/-- A walk from a record enters a field of it. -/
theorem walk_top_field {q : Place φ} {joined : String} {segments rest : List String}
    (hd : d.isFunction = false) (ha : d.isArray = false)
    (hdot : Dotless segments) (hgaps : ∀ s ∈ segments, s ≠ "")
    (hne : joined ≠ "" ∨ segments ≠ [])
    (h : (top d).walk host policy joined segments = .ok (some (q, rest))) :
    ∃ name w more, d.firstField joined segments = some (name, w, more) := by
  induction segments generalizing joined with
  | nil =>
    have hj : joined ≠ "" := hne.resolve_right (by simp)
    simp [walk, hj] at h
  | cons segment segments ih =>
    have hs := isSelfKey_append joined (hgaps segment List.mem_cons_self)
      (hdot segment List.mem_cons_self)
    have hread : (top d).read host policy = .ok d := read_of_not_function hd
    simp only [walk, hread, hs, ha, bind, Except.bind, Bool.false_eq_true, if_false] at h
    simp only [Value.firstField, hs, Bool.false_eq_true, if_false]
    cases hw : d.get? (joined ++ segment) with
    | some w => exact ⟨_, _, _, rfl⟩
    | none =>
      rw [hw] at h
      exact ih (fun x hx => hdot x (List.mem_cons_of_mem _ hx))
        (fun x hx => hgaps x (List.mem_cons_of_mem _ hx)) (.inl (by simp)) h

/-- Where a key is looked up from a place under overlays. -/
def start (p : Place φ) (overlays : List (Place φ)) (key : Key) : Place φ :=
  if key.inContext then p
  else (overlays.find? fun o => pathCovers o.path key.text).getD (p.nearest key.text)

/-- Whether a key is looked up below the roots or spares the field. -/
def Spares (d : Value φ) (k : String) (p : Place φ) (overlays : List (Place φ)) (key : Key) : Prop :=
  (start p overlays key).above = [] → d.Spares k key.segments

theorem Twin.nearest (h : Twin d d' p p') (key : String) :
    Twin d d' (p.nearest key) (p'.nearest key) := by
  induction h with
  | top => exact .top
  | @under p p' h spot hs ih =>
    by_cases hc : pathCovers spot.path key = true
    · have hn : ∀ q : Place φ, Place.nearest key ⟨spot, q.spot :: q.above⟩ =
          ⟨spot, q.spot :: q.above⟩ := fun q => if_pos hc
      rw [hn, hn]
      exact h.under spot hs
    · have hn : ∀ q : Place φ, Place.nearest key ⟨spot, q.spot :: q.above⟩ = q.nearest key :=
        fun q => if_neg hc
      rw [hn, hn]
      exact ih

/-- A walk from twins. -/
theorem Roots.walk (host : Host φ) (policy : FailurePolicy) (hR : Roots k d d')
    (h : Twin d d' p p') {segments : List String}
    (hs : p.above = [] → d.Spares k segments) :
    ∃ r r', p.walk host policy "" segments = .ok r ∧ p'.walk host policy "" segments = .ok r' ∧
      Option.Rel (Twin d d') (r.map Prod.fst) (r'.map Prod.fst) := by
  have hpair : ∃ r r', p.walk host policy "" segments = .ok r ∧
      p'.walk host policy "" segments = .ok r' ∧
      Option.Rel (fun x y => Twin d d' x.1 y.1) r r' := by
    by_cases hp : p.above = []
    · obtain ⟨rfl, rfl⟩ := h.top_of hp
      exact hR.walk_top host policy "" segments (hs hp)
    · obtain ⟨r, r', hr, hr', hrel⟩ := h.walk host policy hp "" segments
      refine ⟨r, r', hr, hr', ?_⟩
      cases hrel with
      | none => exact .none
      | some h => exact .some h.1
  obtain ⟨r, r', hr, hr', hrel⟩ := hpair
  refine ⟨r, r', hr, hr', ?_⟩
  cases hrel with
  | none => exact .none
  | some h => exact .some h

end Place

open Place

namespace Treeless

variable {k : String} {d d' : Value φ} {host : Host φ} {policy : FailurePolicy} {p p' : Place φ}
  {os os' : List (Place φ)} {key : Key}

/-- A key is found by a walk from where it is looked up. -/
theorem findPlace_start (host : Host φ) (policy : FailurePolicy) (p : Place φ)
    (os : List (Place φ)) (key : Key) :
    findPlace host policy p os key =
      (start p os key).walk host policy "" (key.segments.drop
        (if key.inContext then 0 else pathDepth (start p os key).path)) >>= fun found =>
          .ok (found.map Prod.fst) := by
  rw [findPlace, start]
  cases hc : key.inContext with
  | true => simp only [if_true, search, hc, List.drop_zero]; rfl
  | false =>
    simp only [Bool.false_eq_true, if_false]
    cases ho : os.find? fun o => pathCovers o.path key.text with
    | none => simp only [search, hc, Option.getD_none]; rfl
    | some o =>
      have hcov : pathCovers o.path key.text = true := List.find?_some
        (p := fun o : Place φ => pathCovers o.path key.text) ho
      simp only [search, hc, nearest_of_covers hcov, Option.getD_some]
      rfl

/-- What is found is what the walk ends at. -/
theorem walk_of_findPlace {q : Place φ} (h : findPlace host policy p os key = .ok (some q)) :
    ∃ rest, (start p os key).walk host policy "" (key.segments.drop
      (if key.inContext then 0 else pathDepth (start p os key).path)) = .ok (some (q, rest)) := by
  rw [findPlace_start] at h
  exact walk_of_fst h

theorem start_twin (h : Twin d d' p p') (ho : List.Forall₂ (Twin d d') os os') :
    Twin d d' (start p os key) (start p' os' key) := by
  rw [start, start]
  split
  · exact h
  · induction ho with
    | nil => exact h.nearest key.text
    | @cons o o' os os' hoo ho ih =>
      rw [List.find?_cons, List.find?_cons, hoo.path]
      cases pathCovers o.path key.text with
      | true => exact hoo
      | false => exact ih

/-- A key that spares the field is found alike. -/
theorem findPlace_twin (host : Host φ) (policy : FailurePolicy) (hR : Roots k d d')
    (h : Twin d d' p p') (ho : List.Forall₂ (Twin d d') os os') (hs : Spares d k p os key) :
    ∃ r r', findPlace host policy p os key = .ok r ∧ findPlace host policy p' os' key = .ok r' ∧
      Option.Rel (Twin d d') r r' := by
  have hstart : Twin d d' (start p os key) (start p' os' key) := start_twin h ho
  have hspares : (start p os key).above = [] → d.Spares k (key.segments.drop
      (if key.inContext then 0 else pathDepth (start p os key).path)) := by
    intro htop
    rw [(hstart.top_of htop).1]
    have : (if key.inContext = true then 0 else pathDepth (top d).path) = 0 := by
      split <;> rfl
    rw [this]
    exact hs htop
  obtain ⟨r, r', hr, hr', hrel⟩ := hR.walk host policy hstart hspares
  refine ⟨r.map Prod.fst, r'.map Prod.fst, ?_, ?_, hrel⟩
  · rw [findPlace_start, hr]
    rfl
  · rw [findPlace_start, hstart.path, hr']
    rfl

end Treeless

end TextTemplate
