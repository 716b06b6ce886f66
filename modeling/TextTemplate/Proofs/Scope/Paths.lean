import TextTemplate.Proofs.Scope.Lineage
import TextTemplate.Proofs.Parsing

/-!
The paths of scopes that are found. Going down takes up the segments of a key from the front, and
stops before the end only at an empty segment, which names the scope itself. So what is found for a
key stands at the very path that was asked for, or, when the key ends in a dot, one dot before it.
-/
namespace TextTemplate
variable {φ : Type}

/-- All of the segments are taken up below the segments `base`, or those before an empty one; `path`
is where that leads. -/
def TakenUp (base segments : List String) (path : String) : Prop :=
  ∃ taken rest, segments = taken ++ rest ∧ splitPath path = base ++ taken ∧
    (rest = [] ∨ ∃ more, rest = "" :: more)

namespace TakenUp

variable {base segments more : List String} {path target segment : String}

theorem all (h : splitPath path = base ++ segments) : TakenUp base segments path :=
  ⟨segments, [], by simp, h, .inl rfl⟩

theorem none (h : splitPath path = base) : TakenUp base ("" :: segments) path :=
  ⟨[], _, rfl, by simpa using h, .inr ⟨segments, rfl⟩⟩

/-- Segments taken up before are taken up. -/
theorem before (h : TakenUp (base ++ more) segments path) :
    TakenUp base (more ++ segments) path := by
  obtain ⟨taken, rest, rfl, hpath, hrest⟩ := h
  exact ⟨more ++ taken, rest, by simp, by simpa using hpath, hrest⟩

theorem splitPath_ne_empty (p : String) : splitPath p ≠ [""] := by
  intro h
  have hp := congrArg (".".intercalate ·) h
  rw [intercalate_splitPath] at hp
  rw [show p = "" from hp, splitPath_empty] at h
  cases h

/-- When only the last segment may be empty, the path is the target, up to a dot at its end. -/
theorem eq_or_dot (h : TakenUp base segments path) (htarget : splitPath target = base ++ segments)
    (hgaps : ∀ segment ∈ segments.dropLast, segment ≠ "") :
    path = target ∨ (segments.getLast? = some "" ∧ path ++ "." = target) := by
  obtain ⟨taken, rest, rfl, hpath, rfl | ⟨more, rfl⟩⟩ := h
  · exact .inl (splitPath_injective (by rw [hpath, htarget, List.append_nil]))
  · cases more with
    | nil =>
      have hsplit : splitPath target = splitPath path ++ [""] := by simp [htarget, hpath]
      have hne : path ≠ "" := by
        rintro rfl
        exact splitPath_ne_empty target (by simpa using hsplit)
      have hdot := splitPath_snoc hne (s := "") (by simp)
      refine .inr ⟨by simp, splitPath_injective ?_⟩
      rw [hsplit, ← hdot, String.append_empty]
    | cons segment more =>
      have hmem : "" ∈ (taken ++ "" :: segment :: more).dropLast := by
        rw [List.dropLast_append_of_ne_nil (by simp)]
        simp
      exact absurd rfl (hgaps "" hmem)

end TakenUp

namespace ScopeTree

variable {t : ScopeTree φ} {id : ScopeId} {name : String}

/-- What a scope gives for a field when its cache is not looked at. -/
inductive FieldGiven (t : ScopeTree φ) (id : ScopeId) (name : String) : Option ScopeId → Prop where
  | itself (single : (t.data id).isArray = false) (self : isSelfKey name = true) :
      FieldGiven t id name (some id)
  | field {c : ScopeId} (single : (t.data id).isArray = false) (other : isSelfKey name = false)
      (field : t.FieldOf id name c) : FieldGiven t id name (some c)
  | array (ready : t.Ready id) (repeats : (t.data id).isArray = true) : FieldGiven t id name none
  | absent (other : isSelfKey name = false) : FieldGiven t id name none

theorem FieldCase.given (hw : t.WellFormed) (hid : id < t.scopes.size) (hready : t.Ready id)
    {r : Option ScopeId × ScopeTree φ} (h : FieldCase t id name true r) :
    FieldGiven r.2 id name r.1 := by
  cases h with
  | cached looks => cases looks
  | array repeats => exact .array hready repeats
  | itself single self => exact .itself single self
  | absent _ other => exact .absent other
  | child single other there =>
    exact .field single other (hw.fields id hid name _ (mem_of_lookup there))
  | made single other _ adds =>
    refine .field ?_ other (adds.fieldOf hid)
    rwa [adds.grows.kept.data_eq hid hready]

end ScopeTree

open ScopeTree

namespace Run

variable {host : Host φ} {policy : FailurePolicy} {s : Session φ} {id : ScopeId}

private theorem leads_field_given (hs : s.tree.Traced) (hid : id < s.tree.scopes.size)
    (name : String) :
    Leads (fun s => s.tree.Traced) s (field host policy id name true) fun r s' =>
      FieldGiven s'.tree id name r := by
  refine (leads_force upheld_traced hs hid).bind fun _ s₁ he hs₁ hready => ?_
  have hid₁ := he.lt hid
  have hcase := field_cases hid₁ name true
  have hgiven := hcase.given hs₁.wellFormed hid₁ hready
  generalize hr : s₁.tree.field id name true = r at hcase hgiven
  refine .step ?_ ?_ ?_ <;> rw [hr]
  · cases hcase with
    | made _ _ _ adds => exact adds.grows.kept
    | _ => exact .refl _
  · cases hcase with
    | made _ _ _ adds unmade => exact adds.traced hs₁ hid₁ unmade
    | _ => exact hs₁
  · exact hgiven

/-- Below a sequence nothing is found. -/
private theorem leads_descend_array (hs : s.tree.Traced) (hid : id < s.tree.scopes.size)
    (hready : s.tree.Ready id) (harray : (s.tree.data id).isArray = true)
    (target joined : String) (segments : List String) :
    Leads (fun s => s.tree.Traced) s (descend host policy target joined segments id) fun r _ =>
      r = none := by
  induction segments generalizing s joined with
  | nil => exact .pure hs rfl
  | cons segment segments ih =>
    rw [descend]
    refine (leads_field_given hs hid (joined ++ segment)).bind fun r s₁ he hs₁ hr => ?_
    have harray₁ : (s₁.tree.data id).isArray = true := by rwa [he.data_eq hid hready]
    cases hr with
    | itself single | field single => exact absurd harray₁ (by simp [single])
    | array | absent => exact ih hs₁ (he.lt hid) (he.isReady hid hready) harray₁ _

/-- Going down takes up the segments that are not joined yet, with those joined so far. -/
private theorem leads_descend_path (hs : s.tree.Traced) (hid : id < s.tree.scopes.size)
    {target joined : String} {before segments : List String} (hjoined : Joined joined before)
    (hdotless : Dotless segments)
    (htarget : splitPath target = splitPath (s.tree.path id) ++ (before ++ segments)) :
    Leads (fun s => s.tree.Traced) s (descend host policy target joined segments id) fun r s' =>
      ∀ c ∈ r, TakenUp (splitPath (s.tree.path id)) (before ++ segments) (s'.tree.path c) := by
  induction segments generalizing s id joined before with
  | nil => exact .pure hs fun _ hc => by cases hc
  | cons segment segments ih =>
    have hdot : '.' ∉ segment.toList := hdotless segment List.mem_cons_self
    have hdotless' : Dotless segments := fun s hm => hdotless s (List.mem_cons_of_mem _ hm)
    rw [descend]
    refine (leads_field_given hs hid (joined ++ segment)).bind fun r s₁ he hs₁ hr => ?_
    have hpath : s₁.tree.path id = s.tree.path id := he.path id hid
    cases hr with
    | itself _ self =>
      -- A name that is the scope's own is an empty segment, with nothing joined to it.
      obtain ⟨rfl, rfl, rfl⟩ := hjoined.of_isSelfKey hdot self
      simp only [if_true]
      refine .pure hs₁ ?_
      rintro _ ⟨⟩
      exact .none (by rw [hpath])
    | @field c _ other hfield =>
      have hne : joined ++ segment ≠ "" := by
        intro hempty
        simp [hempty, isSelfKey] at other
      have hc : splitPath (s₁.tree.path c) =
          splitPath (s.tree.path id) ++ (before ++ [segment]) := by
        rw [hfield.path, hpath, splitPath_stem _ hne, hjoined.splitPath_append hdot hne]
      have hrest : splitPath target = splitPath (s₁.tree.path c) ++ segments := by
        rw [htarget, hc]
        simp
      simp only [if_neg (Nat.ne_of_gt hfield.newer)]
      refine .look ?_
      split
      · rename_i hdone
        have hnil : segments = [] := by
          rcases Bool.or_eq_true_iff.1 hdone with hempty | hsame
          · exact List.isEmpty_iff.1 hempty
          · rw [of_decide_eq_true hsame] at hrest
            simpa using hrest
        subst hnil
        refine .pure hs₁ ?_
        rintro _ ⟨⟩
        exact .all hc
      · refine (ih hs₁ hfield.lt .none hdotless' hrest).weaken fun r s₂ he₂ _ hr c' hc' => ?_
        have htaken := hr c' hc'
        rw [hc] at htaken
        have hall := htaken.before
        rwa [List.append_assoc] at hall
    | array ready repeats =>
      refine (leads_descend_array hs₁ (he.lt hid) ready repeats _ _ _).weaken ?_
      intro _ _ _ _ hnone
      simp [hnone]
    | absent other =>
      have hne : joined ++ segment ≠ "" := by
        intro hempty
        simp [hempty, isSelfKey] at other
      have hleads := ih hs₁ (he.lt hid) (hjoined.next hdot hne) hdotless' (by
        rw [hpath, htarget]
        simp)
      rwa [hpath, List.append_assoc] at hleads

end Run

namespace ScopeTree

variable {t : ScopeTree φ} {id : ScopeId}

/-- Where a climb ends: at the target, or above it with the segments that are left. -/
inductive Landing.Toward (t : ScopeTree φ) (target : String) : Landing → Prop where
  | found {hit : ScopeId} (path : t.path hit = target) : Toward t target (.found hit)
  | descend {start : ScopeId} {segments : List String} (lt : start < t.scopes.size)
      (rest : splitPath target = splitPath (t.path start) ++ segments) :
      Toward t target (.descend start segments)

theorem Traced.climb_toward (h : t.Traced) {target : String} (hne : target ≠ "")
    (hid : id < t.scopes.size) (useCache : Bool) :
    Landing.Toward t target (t.climb target (splitPath target) id useCache) := by
  have hclimb := climbs_climb h.wellFormed.parent target (splitPath target) hid useCache
  generalize t.climb target (splitPath target) id useCache = landing at hclimb ⊢
  have hdrop : ∀ {id}, t.covers id target = true →
      splitPath target = splitPath (t.path id) ++ (splitPath target).drop (pathDepth (t.path id)) := by
    intro id hcov
    obtain ⟨below, hbelow⟩ := pathCovers_iff.1 hcov
    rw [pathDepth_eq_length, ← hbelow, List.drop_left]
  induction hclimb with
  | known known => exact .found (h.wellFormed.cached _ _ _ (mem_of_lookup known)).2.2
  | itself same => exact .found (same.resolve_left fun hnil => hne (splitPath_eq_nil.1 hnil))
  | top _ orphan => exact .descend hid (by simp [h.orphan _ hid orphan])
  | reached other _ covers rest =>
    have hsame := hdrop covers
    rw [rest, List.append_nil] at hsame
    exact absurd (splitPath_injective hsame).symm other
  | covered _ _ covers => exact .descend hid (hdrop covers)
  | above _ _ older _ _ ih => exact ih (Nat.lt_trans older hid)

end ScopeTree

/-- The path that a key asks for, seen from the scope at `path`. -/
def Key.target (path : String) (key : Key) : String :=
  if key.inContext then joinPath path key.text else key.text

namespace Run

variable {host : Host φ} {policy : FailurePolicy} {s : Session φ} {id : ScopeId} {key : Key}

/-- A scope that is found for a key stands at the path it asks for, or takes up its segments. -/
def Arrives (key : Key) (start : String) (r : Option ScopeId) (s' : Session φ) : Prop :=
  ∀ c ∈ r, s'.tree.path c = key.target start ∨
    ∃ base, splitPath (key.target start) = base ++ key.segments ∧
      TakenUp base key.segments (s'.tree.path c)

private theorem leads_search_path_inContext (hs : s.tree.Traced) (hid : id < s.tree.scopes.size)
    (hk : key.Formed) (hin : key.inContext = true) :
    Leads (fun s => s.tree.Traced) s (search host policy id key) (Arrives key (s.tree.path id)) := by
  have hdotless : Dotless key.segments := hk.segments ▸ dotless_splitPath key.text
  have htarget : key.target (s.tree.path id) = joinPath (s.tree.path id) key.text := by
    simp [Key.target, hin]
  rw [search]
  refine .look ?_
  simp only [hin, if_true]
  by_cases hbare : key.text = ""
  · rw [if_pos (String.isEmpty_iff.2 hbare)]
    refine .pure hs ?_
    rintro _ ⟨⟩
    exact .inl (by simp [htarget, hbare, joinPath])
  · have hstem : pathStem (s.tree.path id) ++ key.text = key.target (s.tree.path id) := by
      rw [htarget]
      by_cases hp : s.tree.path id = "" <;> simp [pathStem, joinPath, hp, hbare]
    have hsplit : splitPath (key.target (s.tree.path id)) =
        splitPath (s.tree.path id) ++ key.segments := by
      rw [htarget, splitPath_joinPath, hk.segments]
    have hnone : key.segments.isEmpty = false := by
      rw [hk.segments]
      simpa using fun hnil => hbare (splitPath_eq_nil.1 hnil)
    simp only [String.isEmpty_iff, hbare, if_false, hstem]
    split
    · rename_i hit hknown
      refine .pure hs ?_
      rintro _ ⟨⟩
      exact .inl (hs.wellFormed.cached _ _ _ (mem_of_lookup hknown)).2.2
    · simp only [hnone, Bool.false_or, decide_eq_true_eq]
      split
      · rename_i hsame
        refine .pure hs ?_
        rintro _ ⟨⟩
        exact .inl hsame
      · exact (leads_descend_path hs hid .none hdotless hsplit).weaken
          fun _ _ _ _ hr c hc => .inr ⟨_, hsplit, hr c hc⟩

private theorem leads_search_path_absolute (hs : s.tree.Traced) (hid : id < s.tree.scopes.size)
    (hk : key.Formed) (hout : key.inContext = false) :
    Leads (fun s => s.tree.Traced) s (search host policy id key) (Arrives key (s.tree.path id)) := by
  have hdotless : Dotless key.segments := hk.segments ▸ dotless_splitPath key.text
  have htarget : ∀ start, key.target start = key.text := fun start => by simp [Key.target, hout]
  have hland := hs.climb_toward (hk.text hout) hid true
  rw [← hk.segments] at hland
  rw [search]
  refine .look ?_
  simp only [hout, Bool.false_eq_true, if_false]
  split
  · rename_i hit hclimb
    rw [hclimb] at hland
    cases hland with
    | found path =>
      refine .pure hs ?_
      rintro _ ⟨⟩
      exact .inl (path.trans (htarget _).symm)
  · rename_i start segments hclimb
    rw [hclimb] at hland
    cases hland with
    | descend lt rest =>
      have hrest : key.segments = splitPath (s.tree.path start) ++ segments := by
        rw [hk.segments, rest]
      have hdotless' : Dotless segments := fun x hx =>
        hdotless x (hrest ▸ List.mem_append_right _ hx)
      refine (leads_descend_path hs lt .none hdotless' rest).weaken fun _ s₁ _ _ hr c hc =>
        .inr ⟨[], by rw [htarget, hk.segments, List.nil_append], ?_⟩
      have htaken : TakenUp ([] ++ splitPath (s.tree.path start)) segments (s₁.tree.path c) :=
        hr c hc
      rw [hrest]
      exact htaken.before

private theorem leads_search_path (hs : s.tree.Traced) (hid : id < s.tree.scopes.size)
    (hk : key.Formed) :
    Leads (fun s => s.tree.Traced) s (search host policy id key)
      (Arrives key (s.tree.path id)) := by
  cases hin : key.inContext with
  | true => exact leads_search_path_inContext hs hid hk hin
  | false => exact leads_search_path_absolute hs hid hk hin

end Run

/-- **A key is resolved in full or not at all.** What is found for a key stands at the path that
the key asks for. Only a key that ends in a dot may also stand for the scope before the dot, as the
empty name is a scope's own. Keys with an empty segment in front of their last one are not spoken
of. -/
theorem Reachable.path_of_search {host : Host φ} {s : Session φ}
    (h : Reachable host (fun _ => True) (fun _ => True) s) {raw content : String} {tag : Tag}
    (hparse : Tag.parse raw content = .ok tag) (hshown : tag.directive ≠ some .comment) {key : Key}
    (hkey : key ∈ tag.binding.keys) (hgaps : ∀ segment ∈ key.segments.dropLast, segment ≠ "")
    {id : ScopeId} (hid : id < s.tree.scopes.size) {policy : FailurePolicy} {c : ScopeId}
    {s' : Session φ} (hrun : Run.search host policy id key s = .ok (some c) s') :
    s'.tree.path c = key.target (s.tree.path id) ∨
      (key.segments.getLast? = some "" ∧ s'.tree.path c ++ "." = key.target (s.tree.path id)) := by
  have hformed : key.Formed :=
    (Tag.yields_parse raw content tag hparse).resolve_left hshown key hkey
  obtain ⟨-, -, hfound⟩ := (Run.leads_search_path h.traced hid hformed).of_ok hrun
  rcases hfound c rfl with hpath | ⟨base, htarget, htaken⟩
  · exact .inl hpath
  · exact htaken.eq_or_dot htarget hgaps

namespace Directory

def host : Host Unit := ⟨fun _ _ _ _ => .error "no functions"⟩

def policy : FailurePolicy := ⟨"", true⟩

/-- A name with a dot in it, and a record below. -/
def start : Session Unit :=
  ⟨.new (.record [("name", .string "Ada"),
    ("home.town", .record [("street", .string "main")])]), []⟩

/-- The path of what is found from the top. -/
def found (key : Key) : Option String :=
  match Run.search host policy ScopeTree.root key start with
  | .ok (some c) s => some (s.tree.path c)
  | _ => none

theorem run_of_found {key : Key} {path : String} (h : found key = some path) :
    ∃ c s, Run.search host policy ScopeTree.root key start = .ok (some c) s ∧
      s.tree.path c = path := by
  rw [found] at h
  split at h
  · rename_i c s hrun
    exact ⟨c, s, hrun, Option.some.inj h⟩
  · cases h

end Directory

open Directory in
/-- Segments joined to a name are taken up like others. -/
theorem Reachable.path_of_search_joined :
    ∃ tag c s, Tag.parse "{{home.town.street}}" "home.town.street" = .ok tag ∧
      Run.search host policy ScopeTree.root tag.key start = .ok (some c) s ∧
      (s.tree.path c = "home.town.street" ∨
        (tag.key.segments.getLast? = some "" ∧ s.tree.path c ++ "." = "home.town.street")) := by
  have hstart : Reachable host (fun _ => True) (fun _ => True) start := .new [] trivial
  obtain ⟨tag, hparse, hkey, hdirective⟩ : ∃ tag,
      Tag.parse "{{home.town.street}}" "home.town.street" = .ok tag ∧
        tag.key = .ofPath "home.town.street" false ∧ tag.directive = none := ⟨_, rfl, rfl, rfl⟩
  have hfound : found (.ofPath "home.town.street" false) = some "home.town.street" := by
    decide +kernel
  obtain ⟨c, s, hrun, -⟩ := run_of_found hfound
  have hmem : tag.key ∈ tag.binding.keys := List.mem_cons_self
  have htop : ScopeTree.root < start.tree.scopes.size := Nat.zero_lt_one
  have hpath := hstart.path_of_search hparse (by simp [hdirective]) hmem
    (by rw [hkey]; decide +kernel) htop (by rw [hkey]; exact hrun)
  refine ⟨tag, c, s, hparse, by rw [hkey]; exact hrun, ?_⟩
  rw [hkey] at hpath ⊢
  exact hpath

open Directory in
/-- A dot at the end of a key is not part of any path that is found. -/
theorem Reachable.not_path_of_search :
    Reachable host (fun _ => True) (fun _ => True) start ∧
      ∃ tag c s, Tag.parse "{{name.}}" "name." = .ok tag ∧ tag.directive = none ∧
        Run.search host policy ScopeTree.root tag.key start = .ok (some c) s ∧
        s.tree.path c = "name" ∧ tag.key.target (start.tree.path ScopeTree.root) = "name." := by
  have hfound : found (.ofPath "name." false) = some "name" := by decide +kernel
  obtain ⟨c, s, hrun, hpath⟩ := run_of_found hfound
  exact ⟨.new [] trivial, _, c, s, rfl, rfl, hrun, hpath, rfl⟩

end TextTemplate
