import TextTemplate.Proofs.Items
import TextTemplate.Proofs.Unmentioned.Search

/-!
Fields that are not mentioned. A search goes down from the whole data by joining segments of its key,
and the fields below are only reached through the first name that is joined. So a field whose name no
key begins with is never read, and renders over data that differ in it come to the same.
-/
namespace TextTemplate
variable {φ : Type}

open ScopeTree

namespace Unmentioned

variable {k : String} {d d' : Value φ} {t : ScopeTree φ} {id : ScopeId} {host : Host φ}
  {policy : FailurePolicy}

/-- The same value, or the whole data. -/
def SameData (d d' v v' : Value φ) : Prop := v' = v ∧ v.isData = true ∨ v = d ∧ v' = d'

namespace SameData

variable {v v' : Value φ}

theorem data (h : SameData d d' v v') (hd : d.isData = true) : v.isData = true := by
  rcases h with ⟨-, hv⟩ | ⟨rfl, -⟩
  · exact hv
  · exact hd

theorem shape (h : SameData d d' v v') (hR : Place.Roots k d d') :
    v'.isArray = v.isArray ∧ v'.size = v.size := by
  rcases h with ⟨rfl, -⟩ | ⟨rfl, rfl⟩
  · exact ⟨rfl, rfl⟩
  · obtain ⟨⟨_, rfl⟩, ⟨_, rfl⟩, -, -⟩ := hR
    exact ⟨rfl, rfl⟩

theorem tagText_eq (h : SameData d d' v v') (hR : Place.Roots k d d') (env : Env φ) (tag : Tag) :
    tagText env tag v' = tagText env tag v := by
  rcases h with ⟨rfl, -⟩ | ⟨rfl, rfl⟩
  · rfl
  · obtain ⟨⟨_, rfl⟩, ⟨_, rfl⟩, -, -⟩ := hR
    simp only [tagText, valueText, Value.plain]

theorem display (h : SameData d d' v v') (hR : Place.Roots k d d') (hk : k ≠ displayKey)
    (hd : d.isData = true) (env : Env φ) (inclusive : Bool) (raw : String) :
    Paired (Pairing.rerooted k d d') t (fun _ => Eq) (Run.display env inclusive v raw)
      (Run.display env inclusive v' raw) := by
  have hflags : v'.get? displayKey = v.get? displayKey := by
    rcases h with ⟨rfl, -⟩ | ⟨rfl, rfl⟩
    · rfl
    · exact hR.other _ hk.symm
  have htruthy : v'.isTruthy env.settings.evalZeroAsTrue = v.isTruthy env.settings.evalZeroAsTrue := by
    rcases h with ⟨rfl, -⟩ | ⟨rfl, rfl⟩
    · rfl
    · obtain ⟨⟨_, rfl⟩, ⟨_, rfl⟩, -, -⟩ := hR
      rfl
  rw [Run.display, Run.display, hflags]
  cases hflag : v.get? displayKey with
  | none => exact .pure fun _ _ => by rw [htruthy]
  | some flag =>
    cases flag with
    | function f => cases Value.isData_get? (h.data hd) hflag
    | _ => exact .pure fun _ _ => rfl

end SameData

/-- What is read at a scope is the same below the whole data. -/
private theorem paired_value (hid : id < t.scopes.size) :
    Paired (Pairing.rerooted k d d') t (fun _ v v' =>
        id ≠ root ∧ v' = v ∧ v.isData = true ∨ id = root ∧ v = d ∧ v' = d')
      (Run.value host policy id) (Run.value host policy id) := by
  refine (paired_force hid).bind fun u _ _ hu _ => .look ?_
  rintro _ s s' he ⟨rfl, hsp, hre⟩
  replace hid := he.lt (hu.lt hid)
  refine .pure fun _ _ => ?_
  by_cases hne : id = root
  · rw [hne, hre.data_top.1, hre.data_top.2]
    exact .inr ⟨rfl, rfl, rfl⟩
  · rw [hre.data hid hne]
    exact .inl ⟨hne, rfl, hsp.data id hid⟩

/-- Bindings without links that resolve to the same scope. -/
structure Resolves (d d' : Value φ) (t : ScopeTree φ) (r r' : Resolution φ) : Prop where
  scope : r'.scope = r.scope ∧ r.scope < t.scopes.size
  chain : r.chain = [] ∧ r'.chain = []
  value : ∃ v v', r.value = some v ∧ r'.value = some v' ∧ SameData d d' v v'
  flags : r'.isRepeating = r.isRepeating ∧ r'.isDynamic = r.isDynamic ∧ r'.size = r.size
  dynamic : r.isDynamic = r.isRepeating
  inner : r.isRepeating = true → r.scope ≠ root

theorem searches (env : Env φ) (hR : Place.Roots k d d') :
    (Pairing.rerooted k d d').Searches env env (Known k d) where
  path := by
    rintro _ s s' a _ ⟨rfl, -, hre⟩ ⟨rfl, ha⟩
    exact hre.path ha
  search := by
    rintro w a _ key raw hk ⟨rfl, ha⟩
    exact found_search hR hk ha

private theorem paired_resolve {env : Env φ} (hR : Place.Roots k d d') {b : Binding}
    (hb : ∀ key ∈ b.keys, Known k d key) (hid : id < t.scopes.size) {os os' : List ScopeId}
    (ho : (Pairing.rerooted k d d').SameAll t os os') :
    Paired (Pairing.rerooted k d d') t (fun u => Option.Rel (Resolves d d' u))
      (Run.resolve env b id os) (Run.resolve env b id os') := by
  obtain ⟨hkey, hlinks⟩ := List.forall_mem_cons.1 hb
  refine ((searches env hR).findScope hkey b.raw ⟨rfl, hid⟩ ho).bind fun u r r' hu hr => ?_
  cases hr with
  | none => exact .pure fun _ _ => .none
  | @some found _ hfound =>
    obtain ⟨rfl, hlt⟩ := hfound
    dsimp only
    split
    · refine (paired_value hlt).bind fun x v v' hx hread => .pure fun y hy => .some ?_
      have hv : SameData d d' v v' := hread.imp And.right And.right
      obtain ⟨harray, hsize⟩ := hv.shape hR
      exact
        { scope := ⟨rfl, hy.lt (hx.lt hlt)⟩
          chain := ⟨rfl, rfl⟩
          value := ⟨v, v', rfl, rfl, hv⟩
          flags := ⟨harray, harray, hsize⟩
          dynamic := rfl
          inner := fun hrep hroot => by
            rcases hread with ⟨hne, -⟩ | ⟨-, rfl, -⟩
            · exact hne hroot
            · exact absurd hrep (by simp [hR.isArray.1]) }
    · -- There are no functions, so the first link leads to none.
      rename_i hne
      cases hl : b.links with
      | nil => exact absurd (by rw [hl]; rfl) hne
      | cons link links =>
        have hknown := hlinks link.key (by rw [hl]; exact List.mem_cons_self)
        rw [Run.findChain, Run.findChain, bind_assoc, bind_assoc]
        refine ((searches env hR).findScope hknown b.raw ⟨rfl, hu.lt hid⟩
          (Pairing.sameAll hu ho)).bind fun x q q' hx hq => ?_
        cases hq with
        | none => exact .throw _
        | @some _ f hf =>
          obtain ⟨rfl, hflt⟩ := hf
          dsimp only
          rw [bind_assoc, bind_assoc]
          refine .look ?_
          rintro _ s s' he ⟨rfl, hsp, hre⟩
          rw [show s'.tree.function? f = none from
            (hre.same Scope.function (fun _ _ => rfl) (he.lt hflt)).trans (hsp.plain f (he.lt hflt)),
            hsp.plain f (he.lt hflt)]
          exact .throw _

private theorem paired_item (hid : id < t.scopes.size) (hne : id ≠ root) (index : Nat) :
    Paired (Pairing.rerooted k d d') t (Pairing.rerooted k d d').Same
      (Run.item host policy id index) (Run.item host policy id index) := by
  refine .look ?_
  rintro _ s s' he ⟨rfl, hsp, hre⟩
  replace hid := he.lt hid
  have hmake : ∀ {u v}, s.tree.Extends u → v.isData = true →
      Paired (Pairing.rerooted k d d') u (Pairing.rerooted k d d').Same
        (Run.onTree fun t => t.overlay id (.item index) v)
        (Run.onTree fun t => t.overlay id (.item index) v) := by
    refine fun {u v} hu hv => .onTree ?_
    rintro _ x x' hx ⟨rfl, hxsp, hxre⟩
    have hlt := hx.lt (hu.lt hid)
    obtain ⟨hfst, hre'⟩ := hxre.overlay hlt (.item index) v
    have hcase := overlay_cases hlt (.item index) v
    rw [hfst]
    generalize x.tree.overlay id (.item index) v = r at hcase hre'
    cases hcase with
    | there there =>
      exact ⟨_, .refl _, ⟨rfl, hxsp, hre'⟩, rfl,
        (hxsp.wellFormed.overlays id hlt _ _ (mem_of_lookup there)).lt⟩
    | made _ adds =>
      refine ⟨_, adds.grows.kept, ⟨rfl, hxsp.addsOverlay hlt hne adds
        (fun _ hc => nomatch hc) hv, hre'⟩, rfl, adds.grows.made_lt⟩
  rw [hre.others id hid hne, hre.data hid hne]
  split
  · rename_i o there
    exact .pure fun _ hu => ⟨rfl, hu.lt
      (hsp.wellFormed.overlays id hid _ _ (mem_of_lookup there)).lt⟩
  · have hdata := hsp.data id hid
    dsimp only
    split
    · rename_i items hitems
      rw [hitems] at hdata
      exact hmake (.refl _) (Value.isData_getD hdata index)
    · refine (paired_value hid).bind fun u v v' hu hread => ?_
      rcases hread with ⟨-, rfl, hv⟩ | ⟨hroot, -⟩
      · exact hmake hu hv
      · exact absurd hroot hne

theorem passes (env : Env φ) (hR : Place.Roots k d d') (hd : d.isData = true) (hk : k ≠ displayKey)
    (inc inc' : Inclusion → ScopeId → Run φ String) :
    (Pairing.rerooted k d d').Passes env env inc inc' (fun b => ∀ key ∈ b.keys, Known k d key)
      (fun _ => True) (fun _ => False) [] (Resolves d d') where
  path hs ha := (searches env hR).path hs ha
  waits inScope hs hws _ :=
    (searches env hR).mustWait hs hws (fun _ _ _ _ he => absurd he List.not_mem_nil) inScope
  anchored := by
    rintro _ s s' a a' head ⟨rfl, hsp, -⟩ ⟨-, ha⟩ hb key hkey
    rw [Section.keys_anchored] at hkey
    obtain ⟨key, hm, rfl⟩ := List.mem_map.1 hkey
    exact (hb key hm).anchored hsp ha
  resolve := by
    rintro w a _ os os' b hb ⟨rfl, ha⟩ ho
    exact paired_resolve hR hb ha ho
  later hu hr := { hr with scope := ⟨hr.scope.1, hu.lt hr.scope.2⟩ }
  scope hr := hr.scope
  flags hr := hr.flags
  text tag hr := by
    obtain ⟨v, v', hv, hv', hsame⟩ := hr.value
    rw [hv, hv', Option.map_some, Option.map_some, hsame.tagText_eq hR]
  innerScope {w r r'} hr := by
    obtain ⟨hrepeating, hdynamic, -⟩ := hr.flags
    obtain ⟨hchain, hchain'⟩ := hr.chain
    have hstays : ((r.isRepeating && List.isEmpty ([] : List (ScopeId × φ))) ||
        !r.isRepeating) = true := by
      cases r.isRepeating <;> rfl
    rw [Run.innerScope, Run.innerScope, hrepeating, hdynamic, hr.dynamic, hchain, hchain',
      if_pos hstays, if_pos hstays]
    exact .pure fun u hu => ⟨⟨hr.scope.1, hu.lt hr.scope.2⟩, hr.inner⟩
  display inclusive raw hr := by
    obtain ⟨v, v', hv, hv', hsame⟩ := hr.value
    rw [hv, hv']
    exact hsame.display hR hk hd env inclusive raw
  passThrough raw links text hr := by
    rw [hr.chain.1, hr.chain.2]
    exact .pure fun _ _ => rfl
  item := by
    rintro w a _ raw index ⟨rfl, ha⟩ hne
    exact paired_item ha hne index
  shown := by
    rintro w a _ raw ⟨rfl, ha⟩
    exact (paired_value ha).bind fun u v v' _ hread =>
      SameData.display (hread.imp And.right And.right) hR hk hd env true raw
  missing raw := by
    rw [Run.missing]
    split
    · exact .throw _
    · exact .pure fun _ _ => rfl
  inclusion hi := hi.elim
  numbers := rfl

/-- A key that does not mention the field is not looked up below it. -/
theorem known_of_formed {key : Key} (hkey : key.Formed) (hm : ¬ key.Mentions k) : Known k d key where
  formed := hkey
  spares name w rest hfirst := by
    rintro rfl
    have hdot : Dotless key.segments := hkey.segments ▸ dotless_splitPath _
    have hsplit := (Value.firstField_split .none hdot hfirst).2
    exact hm ⟨splitPath name, splitPath_eq_nil.not.2 (Value.firstField_ne hfirst), ⟨rest, hsplit.symm⟩,
      intercalate_splitPath name⟩

/-- Nodes without included templates in which no key mentions `name`. -/
abbrev NoneMentions (name : String) : List Node → Prop :=
  Node.EveryOf (fun t => ∀ key ∈ t.binding.keys, ¬ key.Mentions name) (fun _ => False)
    fun s => ∀ key ∈ s.binding.keys, ¬ key.Mentions name

theorem outcome_rerooted {env : Env φ} (hR : Place.Roots k d d') (hd : d.isData = true)
    (hk : k ≠ displayKey) {template : Template} (hf : template.Formed)
    (hn : NoneMentions k template.nodes) :
    Run.outcome env template d' = Run.outcome env template d := by
  have hknown : Pairing.AllClear (fun b => ∀ key ∈ b.keys, Known k d key) (fun _ => True)
      (fun _ => False) template.nodes :=
    (Node.EveryOf.and template.nodes hf hn).imp
      (fun t ht => ⟨fun key hkey => known_of_formed (ht.1 key hkey) (ht.2 key hkey), trivial⟩)
      (fun i hi => hi.2)
      (fun s hs => ⟨fun key hkey => known_of_formed (hs.1.keys key hkey) (hs.2 key hkey), trivial⟩)
      template.nodes
  have hsame : (Pairing.rerooted k d d').Same (new d) root root := ⟨rfl, Nat.zero_lt_one⟩
  have hpaired := (passes env hR hd hk (Run.includeText env maxPartialDepth)
    (Run.includeText env maxPartialDepth)).renderNodes hknown hsame (new d) (.start d) (.start d')
      (.refl _) ⟨rfl, spared_new hd, rerooted_new hR⟩
  rw [Run.outcome, Run.outcome, Run.render]
  cases hrun : Run.renderNodes env (Run.includeText env maxPartialDepth) root template.nodes
      (.start d) with
  | error e s =>
    rw [hrun] at hpaired
    obtain ⟨s', hrun'⟩ := hpaired trivial
    rw [hrun']
  | ok text s =>
    rw [hrun] at hpaired
    obtain ⟨_, s', _, hrun', -, -, rfl⟩ := hpaired
    rw [hrun']

end Unmentioned

/-- **What is not mentioned has no influence.** Renders over records without functions that differ in a
field no key mentions come to the same. -/
theorem Template.render_unmentioned (host : Host φ) {template : Template} (hf : template.Formed)
    {k : String} (hk : k ≠ displayKey) (hn : Unmentioned.NoneMentions k template.nodes)
    {fields fields' : List (String × Value φ)} (hd : (Value.record fields).isData = true)
    (hsame : ∀ name, name ≠ k → fields'.lookup name = fields.lookup name)
    (options : RenderOptions) :
    (template.render host (.record fields') options).result =
      (template.render host (.record fields) options).result := by
  -- Both are compared with a record that has the field.
  have hroots : ∀ {more : List (String × Value φ)},
      (∀ name, name ≠ k → more.lookup name = fields.lookup name) →
      Place.Roots k (.record (Value.setField k .null fields)) (.record more) := fun hmore =>
    { record := ⟨_, rfl⟩
      record' := ⟨_, rfl⟩
      field := by simp [Value.get?]
      other := fun name hname => by
        rw [Value.get?, Value.get?, hmore name hname, Value.lookup_setField_of_ne hname] }
  have hdata : (Value.record (Value.setField k .null fields)).isData = true :=
    Value.isData_setField rfl hd
  rw [template.render_result, template.render_result]
  refine congrArg (options.compilePartials >>= ·) (funext fun templates => ?_)
  rw [Unmentioned.outcome_rerooted (hroots hsame) hdata hk hf hn,
    Unmentioned.outcome_rerooted (hroots fun _ _ => rfl) hdata hk hf hn]

namespace Letters

def fields : List (String × Value Unit) :=
  [("letters", .array [.record [("name", .string "a")], .record [("name", .string "b")]]),
    ("after", .record [("each", .string ";")]), ("note", .string "unread")]

/-- A section over the letters, each with what comes after it. -/
def template : Template where
  nodes := [.block ⟨⟨"{{#.letters}}", some .sectionInclude, .ofPath "letters" true, [], none, false⟩,
    .ofPath "letters" true, []⟩
    [.tag ⟨"{{.name}}", none, .ofPath "name" true, [], none, false⟩,
      .tag ⟨"{{after.each}}", none, .ofPath "after.each" false, [], none, false⟩]]
  delimiters := .default

def host : Host Unit := ⟨fun _ _ _ _ => .error "called"⟩

end Letters

open Letters in
/-- A function in the place of the note is not called. -/
theorem Template.render_unmentioned_letters :
    let fields' := Value.setField "note" (.function ()) fields
    (template.render host (.record fields') .default).result =
        (template.render host (.record fields) .default).result ∧
      (template.render host (.record fields) .default).result.toOption = some "a;b;" := by
  have hkey : ∀ {path : String} {inContext : Bool}, path ≠ "" →
      ∀ key ∈ [Key.ofPath path inContext], key.Formed := fun hpath key hm => by
    rw [List.mem_singleton.1 hm]
    exact Key.formed_ofPath fun _ => hpath
  have hf : template.Formed :=
    ⟨⟨⟨hkey (by decide), nofun⟩, hkey (by decide), hkey (by decide), trivial⟩, trivial⟩
  have hname : ∀ key ∈ [Key.ofPath "name" true], ¬ key.Mentions "note" := by decide
  have hafter : ∀ key ∈ [Key.ofPath "after.each" false], ¬ key.Mentions "note" := by decide
  have hn : Unmentioned.NoneMentions "note" template.nodes :=
    ⟨⟨by decide, hname, hafter, trivial⟩, trivial⟩
  exact ⟨template.render_unmentioned host hf (by decide) hn rfl
    (fun name hname => Value.lookup_setField_of_ne hname _ _) .default, by decide +kernel⟩

end TextTemplate
