import TextTemplate.Proofs.Place.Region
import TextTemplate.Proofs.Scope.Upkeep

/-!
Scope trees with one top. In a tree as it starts out, the whole data is the root of every scope. It
stays so as long as nothing is put in the place of the top itself, and then every function that
reading calls is given the whole data as such.
-/
namespace TextTemplate
variable {φ : Type}

/-- Whether a path names something below the top: its first segment is not empty. -/
def isNamed (path : String) : Bool := path.toList.head?.any (· != '.')

private theorem isNamed_iff {path : String} :
    isNamed path = true ↔ ∃ c r, path.toList = c :: r ∧ c ≠ '.' := by
  rw [isNamed]
  cases path.toList with
  | nil => simp
  | cons c r => simp

theorem ne_empty_of_isNamed {path : String} (h : isNamed path = true) : path ≠ "" := by
  rintro rfl
  cases h

private theorem isNamed_append {path : String} (h : isNamed path = true) (rest : String) :
    isNamed (path ++ rest) = true := by
  obtain ⟨c, r, hp, hc⟩ := isNamed_iff.1 h
  exact isNamed_iff.2 ⟨c, r ++ rest.toList, by rw [String.toList_append, hp]; rfl, hc⟩

private theorem isNamed_of_dotless {s : String} (hs : s ≠ "") (hdot : '.' ∉ s.toList) :
    isNamed s = true := by
  obtain ⟨c, r, hc⟩ := List.exists_cons_of_ne_nil fun h => hs (String.toList_eq_nil_iff.1 h)
  refine isNamed_iff.2 ⟨c, r, hc, fun h => hdot ?_⟩
  rw [hc, h]
  exact List.mem_cons_self

private theorem isNamed_stem {path : String} (h : isNamed path = true) (rest : String) :
    isNamed (pathStem path ++ rest) = true := by
  rw [pathStem, if_neg (by simpa using ne_empty_of_isNamed h)]
  exact isNamed_append (isNamed_append h _) rest

theorem isNamed_joinPath {path key : String}
    (h : isNamed path = true ∨ path = "" ∧ isNamed key = true) :
    isNamed (joinPath path key) = true := by
  rcases h with h | ⟨rfl, h⟩
  · rw [joinPath, if_neg (by simpa using ne_empty_of_isNamed h)]
    split
    · exact h
    · exact isNamed_append (isNamed_append h _) key
  · exact h

theorem isSelfKey_of_isNamed {name : String} (h : isNamed name = true) :
    ScopeTree.isSelfKey name = false := by
  obtain ⟨c, r, hn, hc⟩ := isNamed_iff.1 h
  have hdot : name ≠ "." := by
    rintro rfl
    cases hn
    exact hc rfl
  simp [ScopeTree.isSelfKey, ne_empty_of_isNamed h, hdot]

/-- The first segment of a path that names something does. -/
theorem head_splitPath_of_isNamed {path : String} (h : isNamed path = true) :
    ∃ segment segments, splitPath path = segment :: segments ∧ segment ≠ "" := by
  obtain ⟨c, r, hp, hc⟩ := isNamed_iff.1 h
  obtain ⟨s, ss, hs⟩ := List.exists_cons_of_ne_nil (Text.splitAt_ne_nil '.' r)
  refine ⟨String.ofList (c :: s), ss.map String.ofList, ?_, fun he => ?_⟩
  · rw [splitPath_of_ne (ne_empty_of_isNamed h), hp, Text.splitAt, if_neg hc, hs]
    rfl
  · simpa using congrArg String.toList he

/-- Whether a key leads below the top. `inside` says that what is in context is below the top. -/
def Key.leadsBelow (inside : Bool) (key : Key) : Bool :=
  isNamed key.text || (key.inContext && inside)

namespace ScopeTree

/-- The tree has one top, with the data in it, and every other scope has it for a root. -/
structure Rooted (data : Value φ) (t : ScopeTree φ) : Prop where
  wellFormed : t.WellFormed
  content : (t.scope ScopeTree.root).content = .ready data
  path : t.path ScopeTree.root = ""
  below : ∀ id < t.scopes.size, id ≠ ScopeTree.root →
    (t.parent? id).isSome = true ∧ (t.scope id).root = ScopeTree.root ∧ isNamed (t.path id) = true
  top : (t.scope ScopeTree.root).root = ScopeTree.root

namespace Rooted

variable {data : Value φ} {t t' : ScopeTree φ} {id : ScopeId}

theorem data_root (h : t.Rooted data) : t.data ScopeTree.root = data := by
  rw [ScopeTree.data, h.content]
  rfl

private theorem root_eq (h : t.Rooted data) (hid : id < t.scopes.size) :
    (t.scope id).root = ScopeTree.root := by
  by_cases hne : id = ScopeTree.root
  · rw [hne, h.top]
  · exact (h.below id hid hne).2.1

/-- Only the top stands at the empty path. -/
theorem ne_root_of_path (h : t.Rooted data) (hp : t.path id ≠ "") : id ≠ ScopeTree.root := by
  rintro rfl
  exact hp h.path

theorem ne_root_of_parent (h : t.Rooted data) {p : ScopeId} (hp : t.parent? id = some p)
    (hid : id < t.scopes.size) : id ≠ ScopeTree.root := by
  rintro rfl
  exact absurd (h.wellFormed.parent _ hid p hp) (Nat.not_lt_zero p)

/-- A function that is called for its value is given the whole data as such. -/
theorem surroundings (h : t.Rooted data) (hid : id < t.scopes.size) (hne : id ≠ ScopeTree.root) :
    (t.surroundings id).2 = data := by
  simp only [ScopeTree.surroundings, h.root_eq hid, if_neg hne.symm, h.data_root]

theorem grows {v : Value φ} {path : String} {p : ScopeId} {top : ScopeId} {cache : Nat}
    (h : t.Rooted data) (hw : t'.WellFormed)
    (hg : t.Grows t' id (fresh v path (some p) top cache)) (htop : top = ScopeTree.root)
    (hpath : isNamed path = true) : t'.Rooted data := by
  have hlt := h.wellFormed.top_lt
  have hkept := hg.kept
  refine ⟨hw, hkept.ready _ hlt _ h.content, (hkept.path _ hlt).trans h.path, fun i hi hne => ?_,
    (hkept.root _ hlt).trans h.top⟩
  rcases hg.older hi with hi | rfl
  · rw [hkept.parent i hi, hkept.root i hi, hkept.path i hi]
    exact h.below i hi hne
  · rw [parent?, ScopeTree.path, hg.made]
    exact ⟨rfl, htop, hpath⟩

theorem addsField {name : String} {w : Value φ} (h : t.Rooted data) (hid : id < t.scopes.size)
    (hname : id = ScopeTree.root → isNamed name = true) (ha : t.AddsField t' id name w) :
    t'.Rooted data := by
  refine h.grows (ha.wellFormed h.wellFormed hid) ha.grows (h.root_eq hid) ?_
  by_cases hne : id = ScopeTree.root
  · rw [hne, h.path]
    exact hname hne
  · exact isNamed_stem (h.below id hid hne).2.2 name

/-- Something in the place of a scope below the top. -/
theorem addsOverlay {key : OverlayKey} {v : Value φ} (h : t.Rooted data)
    (hid : id < t.scopes.size) (hne : id ≠ ScopeTree.root)
    (hchain : ∀ c ∈ key.chain, c < t.scopes.size) (ha : t.AddsOverlay t' id key v) :
    t'.Rooted data := by
  obtain ⟨hparent, hroot, hpath⟩ := h.below id hid hne
  obtain ⟨p, hp⟩ := Option.isSome_iff_exists.1 hparent
  have hg := ha.grows
  rw [hp] at hg
  exact h.grows (ha.wellFormed h.wellFormed hid hchain) hg hroot hpath

theorem settles {f : φ} {v : Value φ} (h : t.Rooted data) (hid : id < t.scopes.size)
    (hf : (t.scope id).content = .pending f) (hs : t.Settles t' id v) : t'.Rooted data := by
  have hlt := h.wellFormed.top_lt
  have hkept := hs.kept hf (h.wellFormed.pending id hid f hf)
  refine ⟨hs.wellFormed h.wellFormed hid hf, hkept.ready _ hlt _ h.content,
    (hkept.path _ hlt).trans h.path, fun i hi hne => ?_, (hkept.root _ hlt).trans h.top⟩
  rw [hs.size] at hi
  rw [hkept.parent i hi, hkept.root i hi, hkept.path i hi]
  exact h.below i hi hne

end Rooted

theorem rooted_new {data : Value φ} (hd : data.isFunction = false) : (new data).Rooted data := by
  have hscope : (new data).scope ScopeTree.root = fresh data "" none ScopeTree.root 0 :=
    scope_insert_self empty data "" none none 0
  refine ⟨wellFormed_new data, content_of_fresh hscope hd, by rw [ScopeTree.path, hscope]; rfl,
    fun i hi hne => absurd (Nat.lt_one_iff.1 hi) hne, by rw [hscope]; rfl⟩

/-- The tree of an included template that starts from a scope below the top. -/
theorem rooted_newAt {data : Value φ} (hd : data.isFunction = false) {path : String}
    (hpath : isNamed path = true) (v : Value φ) : (newAt data path v).2.Rooted data := by
  obtain ⟨-, -, hg, -, -⟩ := newAt_grows data v (ne_empty_of_isNamed hpath)
  exact (rooted_new hd).grows (wellFormed_newAt data path v) hg rfl hpath

end ScopeTree

private theorem Host.root_of_follow (host : Host φ) (context root : Value φ) (fuel : Nat)
    (v : Value φ)
    (calls : List (Call φ)) :
    ∀ c ∈ (host.follow context root fuel v calls).2, c ∈ calls ∨ c.root = root := by
  induction fuel generalizing v calls with
  | zero => cases v <;> exact fun c hc => .inl hc
  | succ fuel ih =>
    cases v with
    | function f =>
      rw [follow]
      split
      · intro c hc
        rcases ih _ _ c hc with hc | hc
        · rcases List.mem_cons.1 hc with rfl | hc
          · exact .inr rfl
          · exact .inl hc
        · exact .inr hc
      · intro c hc
        rcases List.mem_cons.1 hc with rfl | hc
        · exact .inr rfl
        · exact .inl hc
    | _ => exact fun c hc => .inl hc

private theorem Host.root_of_evaluate (host : Host φ) (policy : FailurePolicy) (f : φ)
    (context root : Value φ) (calls : List (Call φ)) :
    ∀ c ∈ (host.evaluate policy f context root calls).2, c ∈ calls ∨ c.root = root := by
  have hfollow := host.root_of_follow context root (maxReturned + 1) (.function f) calls
  rw [evaluate]
  split
  · rename_i heq
    rwa [heq] at hfollow
  · rename_i heq
    rwa [heq] at hfollow

/-- A tree with one top, and calls that were all given the whole data as such. -/
structure Session.Rooted (data : Value φ) (s : Session φ) : Prop where
  tree : s.tree.Rooted data
  calls : ∀ c ∈ s.calls, c.root = data

namespace Run

variable {data : Value φ} {host : Host φ} {policy : FailurePolicy} {s : Session φ} {id : ScopeId}

theorem rooted_evaluate (hs : s.Rooted data) (f : φ) (context : Value φ) {root : Value φ}
    (hroot : root = data) : Leads (Session.Rooted data) s (evaluate host policy f context root)
      fun v s' => s'.tree = s.tree ∧ v.isFunction = false := by
  have hcalls : ∀ c ∈ (host.evaluate policy f context root s.calls).2, c.root = data := by
    intro c hc
    rcases host.root_of_evaluate policy f context root s.calls c hc with hc | hc
    · exact hs.calls c hc
    · exact hc.trans hroot
  simp only [Leads, evaluate]
  cases h : host.evaluate policy f context root s.calls with
  | mk r calls =>
    rw [h] at hcalls
    cases r with
    | error e => exact ⟨.refl _, hs.tree, hcalls⟩
    | ok v => exact ⟨.refl _, ⟨hs.tree, hcalls⟩, rfl, Host.evaluate_not_function h⟩

private theorem rooted_force (hs : s.Rooted data) (hid : id < s.tree.scopes.size) :
    Leads (Session.Rooted data) s (force host policy id) fun _ s' => s'.tree.Ready id := by
  refine .look ?_
  cases hc : (s.tree.scope id).content with
  | ready v => exact .pure hs ⟨v, hc⟩
  | pending f =>
    have hne : id ≠ ScopeTree.root := by
      rintro rfl
      cases hs.tree.content.symm.trans hc
    refine (rooted_evaluate hs f _ (hs.tree.surroundings hid hne)).bind
      fun v s' _ hs' ⟨ht, _⟩ => ?_
    have hset := ScopeTree.settles hid v
    have hkept := hset.kept hc (hs.tree.wellFormed.pending id hid f hc)
    exact ⟨ht ▸ hkept, ⟨hs.tree.settles hid hc hset, hs'.calls⟩, v, by rw [hset.self]⟩

theorem rooted_value (hs : s.Rooted data) (hid : id < s.tree.scopes.size) :
    Leads (Session.Rooted data) s (value host policy id) fun v s' =>
      s'.tree.Ready id ∧ s'.tree.data id = v :=
  (rooted_force hs hid).bind fun _ _ _ hs' hr => .look (.pure hs' ⟨hr, rfl⟩)

/-- A scope of the tree, which is not the top. -/
abbrev Below (t : ScopeTree φ) (id : ScopeId) : Prop := id < t.scopes.size ∧ id ≠ ScopeTree.root

/-- A field that is asked for under its name is a scope below the top; and at the top all names are
names, unless the data is an array, which has no fields. -/
private theorem rooted_field (hs : s.Rooted data) (hid : id < s.tree.scopes.size) {name : String}
    (hname : id = ScopeTree.root → name = "" ∨ isNamed name = true ∨ data.isArray = true) :
    Leads (Session.Rooted data) s (field host policy id name true) fun r s' =>
      (∀ c ∈ r, c < s'.tree.scopes.size ∧
        (c = id ∧ ScopeTree.isSelfKey name = true ∨ c ≠ ScopeTree.root)) ∧
      (r = none → id = ScopeTree.root → isNamed name = true ∨ data.isArray = true) := by
  refine (rooted_force hs hid).bind fun _ s' he hs' hready => ?_
  have hid' := he.lt hid
  have hroot : id = ScopeTree.root → s'.tree.data id = data := by
    rintro rfl
    exact hs'.tree.data_root
  have hnamed : id = ScopeTree.root → (s'.tree.data id).isArray = false →
      ScopeTree.isSelfKey name = false → isNamed name = true := by
    intro htop hsingle hother
    rcases hname htop with rfl | hnamed | harray
    · cases hother
    · exact hnamed
    · rw [hroot htop, harray] at hsingle
      cases hsingle
  have hcase := ScopeTree.field_cases hid' name true
  generalize hr : s'.tree.field id name true = r at hcase
  refine .step ?_ ?_ ?_ <;> rw [hr]
  · cases hcase with
    | made _ _ _ adds => exact adds.grows.kept
    | _ => exact .refl _
  · cases hcase with
    | made single other holds adds =>
      exact ⟨hs'.tree.addsField hid' (fun htop => hnamed htop single other) adds, hs'.calls⟩
    | _ => exact hs'
  · cases hcase with
    | cached looks => cases looks
    | array repeats =>
      refine ⟨nofun, fun _ htop => .inr ?_⟩
      rwa [hroot htop] at repeats
    | absent single other => exact ⟨nofun, fun _ htop => .inl (hnamed htop single other)⟩
    | itself single self =>
      refine ⟨?_, nofun⟩
      rintro c ⟨⟩
      exact ⟨hid', .inl ⟨rfl, self⟩⟩
    | child single other there =>
      refine ⟨?_, nofun⟩
      rintro c ⟨⟩
      have hc := hs'.tree.wellFormed.fields id hid' name _ (ScopeTree.mem_of_lookup there)
      exact ⟨hc.lt, .inr (Nat.ne_of_gt (Nat.zero_lt_of_lt hc.newer))⟩
    | made single other holds adds =>
      refine ⟨?_, nofun⟩
      rintro c ⟨⟩
      have hc := adds.fieldOf hid'
      exact ⟨hc.lt, .inr (Nat.ne_of_gt (Nat.zero_lt_of_lt hc.newer))⟩

/-- Going down from below the top, or by a name, leads below the top. -/
private theorem rooted_descend (hs : s.Rooted data) (hid : id < s.tree.scopes.size)
    (target : String)
    {joined : String} {segments : List String} (hdot : Dotless segments)
    (hjoined : id = ScopeTree.root → joined = "" ∨ isNamed joined = true ∨ data.isArray = true) :
    Leads (Session.Rooted data) s (descend host policy target joined segments id) fun r s' =>
      ∀ c ∈ r, c < s'.tree.scopes.size ∧
        ((id = ScopeTree.root → isNamed (joined ++ segments.headD "") = true) →
          c ≠ ScopeTree.root) := by
  induction segments generalizing s id joined with
  | nil => exact .pure hs (by simp)
  | cons segment segments ih =>
    obtain ⟨hsegment, hrest⟩ := List.forall_mem_cons.1 hdot
    have hname : id = ScopeTree.root → joined ++ segment = "" ∨ isNamed (joined ++ segment) = true ∨
        data.isArray = true := by
      intro htop
      rcases hjoined htop with rfl | hnamed | harray
      · by_cases he : segment = ""
        · exact .inl he
        · exact .inr (.inl (by simpa using isNamed_of_dotless he hsegment))
      · exact .inr (.inl (isNamed_append hnamed segment))
      · exact .inr (.inr harray)
    rw [descend]
    refine (rooted_field hs hid hname).bind fun r s' he hs' hfield => ?_
    obtain ⟨hfound, hnone⟩ := hfield
    cases r with
    | none =>
      have hjoined' : id = ScopeTree.root → joined ++ segment ++ "." = "" ∨
          isNamed (joined ++ segment ++ ".") = true ∨ data.isArray = true := fun htop =>
        .inr ((hnone rfl htop).imp_left fun h => isNamed_append h ".")
      refine (ih hs' (he.lt hid) hrest hjoined').weaken fun r s'' _ _ hr c hc => ?_
      obtain ⟨hlt, hne⟩ := hr c hc
      refine ⟨hlt, fun hnamed => hne fun htop => ?_⟩
      exact isNamed_append (isNamed_append (hnamed htop) ".") _
    | some child =>
      obtain ⟨hlt, hchild⟩ := hfound child rfl
      dsimp only
      split
      · rename_i hself
        refine .pure hs' ?_
        rintro c ⟨⟩
        refine ⟨he.lt hid, fun hnamed htop => ?_⟩
        rcases hchild with ⟨-, hselfKey⟩ | hne
        · have hother : ScopeTree.isSelfKey (joined ++ segment) = false :=
            isSelfKey_of_isNamed (hnamed htop)
          cases hselfKey.symm.trans hother
        · exact hne (hself.trans htop)
      · rename_i hother
        have hne : child ≠ ScopeTree.root := hchild.resolve_left fun h => hother h.1
        refine .look ?_
        split
        · refine .pure hs' ?_
          rintro c ⟨⟩
          exact ⟨hlt, fun _ => hne⟩
        · refine (ih hs' hlt hrest fun htop => absurd htop hne).weaken fun r s'' _ _ hr c hc => ?_
          obtain ⟨hlt', hne'⟩ := hr c hc
          exact ⟨hlt', fun _ => hne' fun htop => absurd htop hne⟩

/-- Where a climb to a path that is not empty can end: below the top, or at the top with all of the
path to go. -/
inductive LandsBelow (t : ScopeTree φ) (segments : List String) : ScopeTree.Landing → Prop where
  | found {id : ScopeId} (below : Below t id) : LandsBelow t segments (.found id)
  | descend {id : ScopeId} {rest : List String} (lt : id < t.scopes.size) (dotless : Dotless rest)
      (all : id = ScopeTree.root → rest = segments) : LandsBelow t segments (.descend id rest)

theorem climb_landsBelow {t : ScopeTree φ} (ht : t.Rooted data) {target : String}
    (htarget : target ≠ "") (id : ScopeId) (hid : id < t.scopes.size) (useCache : Bool) :
    LandsBelow t (splitPath target) (t.climb target (splitPath target) id useCache) := by
  have hclimb := ScopeTree.climbs_climb ht.wellFormed.parent target (splitPath target) hid useCache
  generalize t.climb target (splitPath target) id useCache = landing at hclimb ⊢
  have hdot := dotless_splitPath target
  induction hclimb with
  | known known =>
    obtain ⟨hlt, -, hpath⟩ := ht.wellFormed.cached _ _ _ (ScopeTree.mem_of_lookup known)
    exact .found ⟨hlt, ht.ne_root_of_path (hpath ▸ htarget)⟩
  | itself same =>
    have hpath := same.resolve_left fun h => htarget (splitPath_eq_nil.1 h)
    exact .found ⟨hid, ht.ne_root_of_path (by rw [hpath]; exact htarget)⟩
  | top => exact .descend hid hdot fun _ => rfl
  | reached _ parent => exact .found ⟨hid, ht.ne_root_of_parent parent hid⟩
  | covered _ parent =>
    exact .descend hid (fun s hm => hdot s (List.drop_subset _ _ hm))
      fun htop => absurd htop (ht.ne_root_of_parent parent hid)
  | above _ _ older _ _ ih => exact ih (Nat.lt_trans older hid)

/-- A key that names something starts with a segment that does. -/
private theorem isNamed_headD {key : Key} (hk : key.Formed) (hnamed : isNamed key.text = true) :
    isNamed ("" ++ key.segments.headD "") = true := by
  have hdot : Dotless key.segments := hk.segments ▸ dotless_splitPath key.text
  obtain ⟨segment, segments, hsplit, hne⟩ := head_splitPath_of_isNamed hnamed
  rw [← hk.segments] at hsplit
  rw [hsplit] at hdot ⊢
  simpa using isNamed_of_dotless hne (hdot segment List.mem_cons_self)

/-- What a search must find: nothing, or a scope that is below the top if the key leads there. -/
abbrev FoundBelow (key : Key) (inside : Bool) (r : Option ScopeId) (s : Session φ) : Prop :=
  ∀ c ∈ r, c < s.tree.scopes.size ∧ (key.leadsBelow inside = true → c ≠ ScopeTree.root)

section Searches

variable {key : Key} {inside : Bool}

private theorem rooted_search_inContext (hs : s.Rooted data) (hid : id < s.tree.scopes.size)
    (hk : key.Formed) (hc : key.inContext = true) (hin : inside = true → id ≠ ScopeTree.root) :
    Leads (Session.Rooted data) s (search host policy id key) (FoundBelow key inside) := by
  rw [search]
  refine .look ?_
  simp only [hc, if_true]
  split
  · rename_i hempty
    refine .pure hs ?_
    rintro c ⟨⟩
    refine ⟨hid, fun hleads => ?_⟩
    have hnot : isNamed key.text = false := by
      rw [String.isEmpty_iff.1 hempty]
      rfl
    rw [Key.leadsBelow, hnot, hc] at hleads
    exact hin hleads
  · rename_i hne
    have htext : key.text ≠ "" := by simpa using hne
    have htarget : pathStem (s.tree.path id) ++ key.text ≠ "" := by simp [htext]
    split
    · rename_i hit hknown
      obtain ⟨hlt, -, hpath⟩ := hs.tree.wellFormed.cached _ _ _ (ScopeTree.mem_of_lookup hknown)
      refine .pure hs ?_
      rintro c ⟨⟩
      exact ⟨hlt, fun _ => hs.tree.ne_root_of_path (by rw [hpath]; exact htarget)⟩
    · split
      · rename_i hthere
        refine .pure hs ?_
        rintro c ⟨⟩
        refine ⟨hid, fun _ => hs.tree.ne_root_of_path ?_⟩
        simp only [Bool.or_eq_true, List.isEmpty_iff, decide_eq_true_eq] at hthere
        rcases hthere with hnil | hpath
        · exact absurd (splitPath_eq_nil.1 (hk.segments ▸ hnil)) htext
        · rw [hpath]
          exact htarget
      · have hdot : Dotless key.segments := hk.segments ▸ dotless_splitPath key.text
        refine (rooted_descend hs hid _ hdot fun _ => .inl rfl).weaken fun r s' _ _ hr c hm => ?_
        obtain ⟨hlt, hne⟩ := hr c hm
        refine ⟨hlt, fun hleads => hne fun htop => ?_⟩
        rw [Key.leadsBelow, hc, Bool.true_and, Bool.or_eq_true] at hleads
        exact hleads.elim (isNamed_headD hk) fun h => absurd htop (hin h)

private theorem rooted_search_absolute (hs : s.Rooted data) (hid : id < s.tree.scopes.size)
    (hk : key.Formed) (hc : key.inContext = false) :
    Leads (Session.Rooted data) s (search host policy id key) (FoundBelow key inside) := by
  rw [search]
  refine .look ?_
  simp only [hc, Bool.false_eq_true, if_false]
  have hland := climb_landsBelow hs.tree (hk.text hc) id hid true
  rw [← hk.segments] at hland
  split
  · rename_i hit hclimb
    rw [hclimb] at hland
    cases hland with
    | found below =>
      refine .pure hs ?_
      rintro c ⟨⟩
      exact ⟨below.1, fun _ => below.2⟩
  · rename_i start rest hclimb
    rw [hclimb] at hland
    cases hland with
    | descend lt dotless all =>
      refine (rooted_descend hs lt _ dotless fun _ => .inl rfl).weaken fun r s' _ _ hr c hm => ?_
      obtain ⟨hlt, hne⟩ := hr c hm
      refine ⟨hlt, fun hleads => hne fun htop => ?_⟩
      rw [Key.leadsBelow, hc, Bool.false_and, Bool.or_false] at hleads
      rw [all htop]
      exact isNamed_headD hk hleads

/-- A search for a key that leads below the top does not end at it. `inside` says that the scope it
starts from is below the top. -/
theorem rooted_search (hs : s.Rooted data) (hid : id < s.tree.scopes.size) (hk : key.Formed)
    (hin : key.inContext = true → inside = true → id ≠ ScopeTree.root) :
    Leads (Session.Rooted data) s (search host policy id key) (FoundBelow key inside) := by
  cases hc : key.inContext with
  | true => exact rooted_search_inContext hs hid hk hc (hin hc)
  | false => exact rooted_search_absolute hs hid hk hc

end Searches

/-- Something in the place of a scope below the top is below the top itself. -/
theorem rooted_overlay (hs : s.Rooted data) (hid : Below s.tree id) {key : OverlayKey}
    (hchain : ∀ c ∈ key.chain, c < s.tree.scopes.size) (v : Value φ) :
    Leads (Session.Rooted data) s (onTree fun t => t.overlay id key v) fun o s' =>
      Below s'.tree o := by
  obtain ⟨hlt, hne⟩ := hid
  have hcase := ScopeTree.overlay_cases hlt key v
  generalize hr : s.tree.overlay id key v = r at hcase
  refine .step ?_ ?_ ?_ <;> rw [hr]
  · cases hcase with
    | there => exact .refl _
    | made _ adds => exact adds.grows.kept
  · cases hcase with
    | there => exact hs
    | made _ adds => exact ⟨hs.tree.addsOverlay hlt hne hchain adds, hs.calls⟩
  · have hnewer : ∀ {t : ScopeTree φ} {o}, t.OverlayOf id key o → Below t o := fun ho =>
      ⟨ho.lt, Nat.ne_of_gt (Nat.zero_lt_of_lt ho.newer)⟩
    cases hcase with
    | there there =>
      exact hnewer (hs.tree.wellFormed.overlays id hlt _ _ (ScopeTree.mem_of_lookup there))
    | made _ adds => exact hnewer (adds.overlayOf hs.tree.wellFormed hlt hchain)

theorem rooted_item (hs : s.Rooted data) (hid : Below s.tree id) (index : Nat) :
    Leads (Session.Rooted data) s (item host policy id index) fun o s' => Below s'.tree o := by
  have hchain : ∀ {t : ScopeTree φ}, ∀ c ∈ (OverlayKey.item index).chain, c < t.scopes.size := by
    intro t
    exact nofun
  refine .look ?_
  split
  · rename_i o ho
    have hover := hs.tree.wellFormed.overlays id hid.1 _ _ (ScopeTree.mem_of_lookup ho)
    exact .pure hs ⟨hover.lt, Nat.ne_of_gt (Nat.zero_lt_of_lt hover.newer)⟩
  · dsimp only
    split
    · exact rooted_overlay hs hid hchain _
    · exact (rooted_value hs hid.1).bind fun v s' he hs' _ =>
        rooted_overlay hs' ⟨he.lt hid.1, hid.2⟩ hchain v

end Run

end TextTemplate
