import TextTemplate.Proofs.Paired.Passes
import TextTemplate.Proofs.Parsing
import TextTemplate.Proofs.Scope.Rerooted
import Mathlib.Data.List.Infix

/-!
Searches that spare a field. Over data that differ in one field, the trees of two renders differ in the
whole data alone as long as the field is never asked for, and a key that does not lead to it is found
in the same scope.
-/
namespace TextTemplate
variable {φ : Type}

/-- Whether `name` is what some first segments of the key are joined to. -/
def Key.Mentions (key : Key) (name : String) : Prop :=
  ∃ run, run ≠ [] ∧ run <+: key.segments ∧ ".".intercalate run = name

instance (key : Key) (name : String) : Decidable (key.Mentions name) :=
  decidable_of_iff (∃ run ∈ key.segments.inits, run ≠ [] ∧ ".".intercalate run = name) <| by
    simp only [List.mem_inits, Key.Mentions]
    exact exists_congr fun run => and_left_comm

theorem Value.firstField_ne {d : Value φ} {joined : String} {segments rest : List String}
    {name : String} {w : Value φ} (h : d.firstField joined segments = some (name, w, rest)) :
    name ≠ "" := by
  induction segments generalizing joined with
  | nil => cases h
  | cons segment segments ih =>
    rw [firstField] at h
    split at h
    · cases h
    · rename_i hself
      split at h
      · cases h
        exact Place.name_ne (Bool.eq_false_iff.2 hself)
      · exact ih h

namespace ScopeTree

variable {k : String} {d d' : Value φ} {t t' : ScopeTree φ} {id : ScopeId}

/-- A tree of scopes over `d`, none of which was made for the field `k` or below it. -/
structure Spared (k : String) (d : Value φ) (t : ScopeTree φ) : Prop where
  wellFormed : t.WellFormed
  top : t.path root = ""
  whole : t.data root = d
  ready : ∀ id < t.scopes.size, t.Ready id
  data : ∀ id < t.scopes.size, (t.data id).isData = true
  plain : ∀ id < t.scopes.size, t.function? id = none
  below : ∀ id < t.scopes.size, id ≠ root → ∃ name w rest,
    d.firstField "" (splitPath (t.path id)) = some (name, w, rest) ∧ name ≠ k

theorem Grows.spared {made : ScopeId} {w : Value φ} {path : String} {parent : Option ScopeId}
    {top : ScopeId} {cache : Nat} (hg : t.Grows t' made (fresh w path parent top cache))
    (h : t.Spared k d) (hw : t'.WellFormed) (hdata : w.isData = true)
    (hbelow : ∃ name w rest, d.firstField "" (splitPath path) = some (name, w, rest) ∧ name ≠ k) :
    t'.Spared k d := by
  have he := hg.kept
  have htop := h.wellFormed.top_lt
  have hcontent := content_of_fresh hg.made (Value.isFunction_of_isData hdata)
  refine ⟨hw, by rw [he.path _ htop, h.top], by rw [he.data_eq htop (h.ready _ htop), h.whole],
    fun i hi => ?_, fun i hi => ?_, fun i hi => ?_, fun i hi hne => ?_⟩
  · rcases hg.older hi with hi | rfl
    · exact he.isReady hi (h.ready i hi)
    · exact ⟨w, hcontent⟩
  · rcases hg.older hi with hi | rfl
    · rw [he.data_eq hi (h.ready i hi)]
      exact h.data i hi
    · rw [ScopeTree.data, hcontent]
      exact hdata
  · rcases hg.older hi with hi | rfl
    · rw [he.function i hi]
      exact h.plain i hi
    · rw [function?, hg.made]
      cases w with
      | function f => cases hdata
      | _ => rfl
  · rcases hg.older hi with hi | rfl
    · rw [he.path i hi]
      exact h.below i hi hne
    · rw [ScopeTree.path, hg.made]
      exact hbelow

/-- A key that is looked up below a scope of the tree is not looked up below the field. -/
theorem Spared.below_append (h : t.Spared k d) (hid : id < t.scopes.size) (hne : id ≠ root)
    (more : List String) : ∃ name w rest,
      d.firstField "" (splitPath (t.path id) ++ more) = some (name, w, rest) ∧ name ≠ k := by
  obtain ⟨name, w, rest, hfirst, hname⟩ := h.below id hid hne
  exact ⟨name, w, rest ++ more, Value.firstField_append hfirst, hname⟩

/-- The first field on the way from the whole data that a name may be of. -/
def Reaches (k : String) (d : Value φ) (name : String) : Prop :=
  name ≠ k ∧ ∀ w, d.get? name = some w → d.firstField "" (splitPath name) = some (name, w, [])

theorem Spared.addsField (h : t.Spared k d) (hid : id < t.scopes.size) {name : String} {w : Value φ}
    (ha : t.AddsField t' id name w) (hself : isSelfKey name = false)
    (hname : id = root → Reaches k d name) (hw : (t.data id).get? name = some w) :
    t'.Spared k d := by
  refine ha.grows.spared h (ha.wellFormed h.wellFormed hid) (Value.isData_get? (h.data id hid) hw) ?_
  by_cases hne : id = root
  · subst hne
    rw [h.top, h.whole] at *
    obtain ⟨hk, hfirst⟩ := hname rfl
    exact ⟨name, w, [], hfirst w hw, hk⟩
  · have hname : name ≠ "" := by
      rintro rfl
      cases hself
    rw [splitPath_stem _ hname]
    exact h.below_append hid hne _

theorem Spared.addsOverlay (h : t.Spared k d) (hid : id < t.scopes.size) (hne : id ≠ root)
    {key : OverlayKey} {v : Value φ} (ha : t.AddsOverlay t' id key v)
    (hchain : ∀ c ∈ key.chain, c < t.scopes.size) (hv : v.isData = true) : t'.Spared k d :=
  ha.grows.spared h (ha.wellFormed h.wellFormed hid hchain) hv (h.below id hid hne)

theorem spared_new (hd : d.isData = true) : (new d).Spared k d := by
  have hscope : (new d).scope root = fresh d "" none root 0 := scope_insert_self empty d "" none none 0
  have hcontent := content_of_fresh hscope (Value.isFunction_of_isData hd)
  have honly : ∀ id < (new d).scopes.size, id = root := fun id hid => Nat.lt_one_iff.1 hid
  have hdata : (new d).data root = d := by rw [ScopeTree.data, hcontent]; rfl
  refine ⟨wellFormed_new d, by rw [ScopeTree.path, hscope]; rfl, hdata, fun i hi => ?_,
    fun i hi => ?_, fun i hi => ?_, fun i hi hne => absurd (honly i hi) hne⟩
  · exact ⟨d, by rw [honly i hi, hcontent]⟩
  · rw [honly i hi, hdata, hd]
  · rw [honly i hi, function?, hscope]
    cases d with
    | function f => cases hd
    | _ => rfl

theorem rerooted_new (hR : Place.Roots k d d') : Rerooted d d' (new d) (new d') := by
  have hscope : ∀ d : Value φ, (new d).scope root = fresh d "" none root 0 := fun d =>
    scope_insert_self empty d "" none none 0
  have hcontent := content_of_fresh (hscope d) hR.isFunction.1
  refine ⟨Nat.zero_lt_one, rfl, rfl, hcontent, ?_, fun i hi hne => absurd (Nat.lt_one_iff.1 hi) hne⟩
  have hcontent' := content_of_fresh (hscope d') hR.isFunction.2
  obtain ⟨⟨_, rfl⟩, ⟨_, rfl⟩, -, -⟩ := hR
  rw [hscope, hscope]
  rfl

end ScopeTree

open ScopeTree

/-- Two runs over data that may differ in the field `k`. -/
def Pairing.rerooted (k : String) (d d' : Value φ) : Pairing φ where
  World := ScopeTree φ
  Later := Extends
  Holds t s s' := s.tree = t ∧ t.Spared k d ∧ Rerooted d d' t s'.tree
  Same t a a' := a' = a ∧ a < t.scopes.size
  Read _ a _ := a ≠ root
  Good v := v.isData = true
  Faults := True
  refl := .refl
  trans := .trans
  same he ha := ⟨ha.1, he.lt ha.2⟩
  read _ ha := ha
  string _ := rfl

namespace Unmentioned

variable {k : String} {d d' : Value φ} {t : ScopeTree φ} {id : ScopeId} {host : Host φ}
  {policy : FailurePolicy}

/-- Both runs find the same scope, or none. -/
abbrev Found (k : String) (d d' : Value φ) (t : ScopeTree φ) (m : Run φ (Option ScopeId)) : Prop :=
  Paired (Pairing.rerooted k d d') t (fun u => Option.Rel ((Pairing.rerooted k d d').Same u)) m m

private theorem found_some (hid : id < t.scopes.size) : Found k d d' t (pure (some id)) :=
  .pure fun _ he => .some ⟨rfl, he.lt hid⟩

/-- Nothing is called. -/
theorem paired_force (hid : id < t.scopes.size) :
    Paired (Pairing.rerooted k d d') t (fun _ _ _ => True) (Run.force host policy id)
      (Run.force host policy id) := by
  rintro _ s s' he ⟨rfl, hsp, hre⟩
  obtain ⟨v, hv⟩ := hsp.ready id (he.lt hid)
  have hv' : ∃ v, (s'.tree.scope id).content = .ready v := by
    by_cases hne : id = root
    · subst hne
      exact ⟨d', by rw [hre.top']⟩
    · exact ⟨v, by rw [hre.others id (he.lt hid) hne, hv]⟩
  obtain ⟨v', hv'⟩ := hv'
  rw [Run.force_ready hv, Run.force_ready hv']
  exact ⟨(), s', s.tree, rfl, .refl _, ⟨rfl, hsp, hre⟩, trivial⟩

/-- What comes of asking for a field: if there is none, the whole data has none of the name. -/
def FieldFound (d : Value φ) (id : ScopeId) (name : String) (t : ScopeTree φ)
    (r r' : Option ScopeId) : Prop :=
  r' = r ∧ (∀ c ∈ r, c < t.scopes.size ∧ (c = root → id = root)) ∧
    (r = none → id = root → isSelfKey name = false ∧ d.get? name = none)

theorem paired_field (hR : Place.Roots k d d') (hid : id < t.scopes.size) {name : String}
    (hname : id = root → isSelfKey name = false → Reaches k d name) :
    Paired (Pairing.rerooted k d d') t (FieldFound d id name)
      (Run.field host policy id name true) (Run.field host policy id name true) := by
  refine (paired_force hid).bind fun u _ _ hu _ => .onTree ?_
  rintro _ s s' he ⟨rfl, hsp, hre⟩
  replace hid := he.lt (hu.lt hid)
  obtain ⟨hfst, hre'⟩ := hre.field hR hid (fun hr hs => (hname hr hs).1) true
  have hcase := field_cases hid name true
  rw [hfst]
  generalize s.tree.field id name true = r at hcase hre'
  have hw := hsp.wellFormed
  have hroot : ∀ {c}, id < c → c = root → id = root := fun hlt hc =>
    absurd (hc ▸ hlt) (Nat.not_lt_zero _)
  cases hcase with
  | cached looks => cases looks
  | array repeats =>
    refine ⟨_, .refl _, ⟨rfl, hsp, hre'⟩, rfl, (fun _ hc => nomatch hc), fun _ hr => ?_⟩
    subst hr
    rw [hsp.whole, hR.isArray.1] at repeats
    cases repeats
  | itself single self =>
    refine ⟨_, .refl _, ⟨rfl, hsp, hre'⟩, rfl, ?_, fun hn => nomatch hn⟩
    rintro c ⟨⟩
    exact ⟨hid, fun h => h⟩
  | absent single other lacks =>
    refine ⟨_, .refl _, ⟨rfl, hsp, hre'⟩, rfl, (fun _ hc => nomatch hc), fun _ hr => ⟨other, ?_⟩⟩
    subst hr
    rw [← hsp.whole, lacks]
  | child single other there =>
    refine ⟨_, .refl _, ⟨rfl, hsp, hre'⟩, rfl, ?_, fun hn => nomatch hn⟩
    rintro c ⟨⟩
    have hc := hw.fields id hid name _ (mem_of_lookup there)
    exact ⟨hc.lt, hroot hc.newer⟩
  | made single other holds adds =>
    refine ⟨_, adds.grows.kept, ⟨rfl, hsp.addsField hid adds other (fun hr => hname hr other) holds,
      hre'⟩, rfl, ?_, fun hn => nomatch hn⟩
    rintro c ⟨⟩
    have hc := adds.fieldOf hid
    exact ⟨hc.lt, hroot hc.newer⟩

/-- Below the fields of the whole data, the trees are the same. -/
private theorem found_descend (hR : Place.Roots k d d') (target joined : String)
    (segments : List String)
    (hid : id < t.scopes.size) (hne : id ≠ root) :
    Found k d d' t (Run.descend host policy target joined segments id) := by
  induction segments generalizing t id joined with
  | nil => exact .pure fun _ _ => .none
  | cons segment segments ih =>
    rw [Run.descend]
    refine (paired_field hR hid fun hr => absurd hr hne).bind fun u _ r hu hr => ?_
    obtain ⟨rfl, hlt, -⟩ := hr
    cases r with
    | none => exact ih _ (hu.lt hid) hne
    | some c =>
      obtain ⟨hc, hcr⟩ := hlt c rfl
      dsimp only
      split
      · exact found_some (hu.lt hid)
      · refine .look ?_
        rintro _ s s' hv ⟨rfl, hsp, hre⟩
        rw [hre.path (hv.lt hc)]
        split
        · exact found_some (hv.lt hc)
        · exact ih _ (hv.lt hc) fun hroot => hne (hcr hroot)

/-- From the whole data both runs go by the same names until they enter a field. -/
private theorem found_descend_top (hR : Place.Roots k d d') (target joined : String)
    {before segments : List String} (hj : Joined joined before) (hdot : Dotless segments)
    (hbefore : ∀ more, d.firstField "" (before ++ more) = d.firstField joined more)
    (hs : ∀ name w rest, d.firstField joined segments = some (name, w, rest) → name ≠ k)
    (htop : root < t.scopes.size) :
    Found k d d' t (Run.descend host policy target joined segments root) := by
  induction segments generalizing t joined before with
  | nil => exact .pure fun _ _ => .none
  | cons segment segments ih =>
    obtain ⟨hsdot, hdots⟩ := List.forall_mem_cons.1 hdot
    have hreaches : isSelfKey (joined ++ segment) = false → Reaches k d (joined ++ segment) := by
      intro hself
      refine ⟨?_, fun w hw => ?_⟩
      · rintro rfl
        obtain ⟨w, hw⟩ := Option.isSome_iff_exists.1 hR.field
        exact hs (joined ++ segment) w segments (by simp [Value.firstField, hself, hw]) rfl
      · rw [hj.splitPath_append hsdot (Place.name_ne hself), hbefore]
        simp [Value.firstField, hself, hw]
    rw [Run.descend]
    refine (paired_field hR htop fun _ hself => hreaches hself).bind fun u _ r hu hr => ?_
    obtain ⟨rfl, hlt, hnone⟩ := hr
    cases r with
    | none =>
      obtain ⟨hself, hlacks⟩ := hnone rfl rfl
      have hnext : ∀ more, d.firstField joined (segment :: more) =
          d.firstField (joined ++ segment ++ ".") more := fun more => by
        simp [Value.firstField, hself, hlacks]
      refine ih _ (hj.next hsdot (Place.name_ne hself)) hdots (fun more => ?_)
        (fun name w rest hf => ?_) (hu.lt htop)
      · rw [List.append_assoc, List.singleton_append, hbefore, hnext]
      · exact hs name w rest (by rw [hnext, hf])
    | some c =>
      obtain ⟨hc, -⟩ := hlt c rfl
      dsimp only
      split
      · exact found_some (hu.lt htop)
      · rename_i hne
        refine .look ?_
        rintro _ s s' hv ⟨rfl, hsp, hre⟩
        rw [hre.path (hv.lt hc)]
        split
        · exact found_some (hv.lt hc)
        · exact found_descend hR _ _ _ (hv.lt hc) hne

/-- Keys that are not looked up below the field. -/
structure Known (k : String) (d : Value φ) (key : Key) : Prop where
  formed : key.Formed
  spares : ∀ name w rest, d.firstField "" key.segments = some (name, w, rest) → name ≠ k

theorem found_search (hR : Place.Roots k d d') {key : Key} (hk : Known k d key)
    (hid : id < t.scopes.size) : Found k d d' t (Run.search host policy id key) := by
  have hdot : Dotless key.segments := hk.formed.segments ▸ dotless_splitPath _
  have htop : ∀ {u : ScopeTree φ} (target : String), root < u.scopes.size →
      Found k d d' u (Run.descend host policy target "" key.segments root) := fun target hu =>
    found_descend_top hR target "" .none hdot (fun _ => rfl) hk.spares hu
  rw [Run.search]
  refine .look ?_
  rintro _ s s' he ⟨rfl, hsp, hre⟩
  replace hid := he.lt hid
  have hw := hsp.wellFormed
  split
  · dsimp only
    rw [hre.path hid, hre.known? hid]
    split
    · exact found_some hid
    · split
      · rename_i hit hknown
        exact found_some (hw.known hknown).1
      · split
        · exact found_some hid
        · by_cases hne : id = root
          · subst hne
            exact htop _ hid
          · exact found_descend hR _ _ _ hid hne
  · rw [hre.climb hR hw key.text key.segments hid true]
    have hland := climb_shared hw key.text key.segments hid true
    have htops : ∀ below, s.tree.climb key.text key.segments id true = .descend root below →
        below = key.segments := fun _ => climb_top hw hid
    generalize s.tree.climb key.text key.segments id true = landing at hland htops
    cases hland with
    | found hlt => exact found_some hlt
    | @descend start segments hlt =>
      by_cases hne : start = root
      · subst hne
        rw [htops segments rfl]
        exact htop _ hlt
      · exact found_descend hR _ _ _ hlt hne

theorem Known.anchored {key : Key} (hk : Known k d key) (hsp : t.Spared k d)
    (hid : id < t.scopes.size) : Known k d (key.anchored (t.path id)) where
  formed := hk.formed.anchored _
  spares := by
    rw [Key.anchored]
    split
    · change ∀ name w rest, d.firstField "" (splitPath _) = some (name, w, rest) → name ≠ k
      rw [splitPath_joinPath, ← hk.formed.segments]
      by_cases hne : id = root
      · rw [hne, hsp.top]
        exact hk.spares
      · obtain ⟨name, w, rest, hfirst, hname⟩ := hsp.below_append hid hne key.segments
        rintro name' w' rest' hfirst'
        rw [hfirst] at hfirst'
        cases hfirst'
        exact hname
    · exact hk.spares

end Unmentioned

end TextTemplate
