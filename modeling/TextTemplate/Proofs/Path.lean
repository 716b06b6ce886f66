import TextTemplate.Scope.Tree
import TextTemplate.Tag
import Mathlib.Data.List.Basic

/-!
Dotted paths as lists of segments. A path is told from its segments, a stem puts the segments of a
scope in front, and a path covers just the keys that its segments begin.
-/
namespace TextTemplate

namespace Text

private theorem splitAt_of_not_mem {sep : Char} {s : List Char} (h : sep ∉ s) : splitAt sep s =
    [s] := by
  induction s with
  | nil => rfl
  | cons c r ih =>
    have hc : c ≠ sep := fun e => h (e ▸ List.mem_cons_self)
    have hr := ih fun hm => h (List.mem_cons_of_mem _ hm)
    simp [splitAt, hc, hr, consHead]

private theorem splitAt_append (sep : Char) (a b : List Char) :
    splitAt sep (a ++ sep :: b) = splitAt sep a ++ splitAt sep b := by
  induction a with
  | nil => simp [splitAt]
  | cons c r ih =>
    by_cases hc : c = sep
    · simp [splitAt, hc, ih]
    · obtain ⟨p, ps, hp⟩ := List.exists_cons_of_ne_nil (splitAt_ne_nil sep r)
      simp [splitAt, hc, ih, hp, consHead]

private theorem length_splitAt (sep : Char) (s : List Char) :
    (splitAt sep s).length = s.count sep + 1 := by
  induction s with
  | nil => rfl
  | cons c r ih =>
    by_cases hc : c = sep
    · simp [splitAt, hc, ih]
    · obtain ⟨p, ps, hp⟩ := List.exists_cons_of_ne_nil (splitAt_ne_nil sep r)
      simp [splitAt, hc, hp, consHead, ← ih]

private theorem not_mem_of_mem_splitAt {sep : Char} {s p : List Char} (h : p ∈ splitAt sep s) :
    sep ∉ p := by
  induction s generalizing p with
  | nil => simp_all [splitAt]
  | cons c r ih =>
    by_cases hc : c = sep
    · rcases (by simpa [splitAt, hc] using h : p = [] ∨ p ∈ splitAt sep r) with rfl | hp
      · simp
      · exact ih hp
    · obtain ⟨q, qs, hq⟩ := List.exists_cons_of_ne_nil (splitAt_ne_nil sep r)
      rcases (by simpa [splitAt, hc, hq, consHead] using h : p = c :: q ∨ p ∈ qs) with rfl | hp
      · have := ih (p := q) (by simp [hq])
        simp [Ne.symm hc, this]
      · exact ih (by simp [hq, hp])

/-- Parts joined by the separator are the text they were cut from. -/
private theorem intercalate_splitAt (sep : Char) (s : List Char) :
    [sep].intercalate (splitAt sep s) = s := by
  induction s with
  | nil => rfl
  | cons c r ih =>
    obtain ⟨p, ps, hp⟩ := List.exists_cons_of_ne_nil (splitAt_ne_nil sep r)
    rw [hp] at ih
    by_cases hc : c = sep
    · simp [splitAt, hc, hp, List.intercalate_cons_cons, ih]
    · cases ps with
      | nil => simpa [splitAt, hc, hp, consHead] using ih
      | cons q qs =>
        rw [List.intercalate_cons_cons] at ih
        simp [splitAt, hc, hp, consHead, List.intercalate_cons_cons, ih]

/-- Cutting at a separator forgets nothing. -/
private theorem splitAt_injective (sep : Char) : Function.Injective (splitAt sep) := by
  intro s t h
  induction s generalizing t with
  | nil =>
    cases t with
    | nil => rfl
    | cons d r =>
      by_cases hd : d = sep
      · simp [splitAt, hd, splitAt_ne_nil] at h
      · obtain ⟨q, qs, hq⟩ := List.exists_cons_of_ne_nil (splitAt_ne_nil sep r)
        simp [splitAt, hd, hq, consHead] at h
  | cons c r ih =>
    obtain ⟨p, ps, hp⟩ := List.exists_cons_of_ne_nil (splitAt_ne_nil sep r)
    cases t with
    | nil =>
      by_cases hc : c = sep
      · simp [splitAt, hc, splitAt_ne_nil] at h
      · simp [splitAt, hc, hp, consHead] at h
    | cons d u =>
      obtain ⟨q, qs, hq⟩ := List.exists_cons_of_ne_nil (splitAt_ne_nil sep u)
      by_cases hc : c = sep <;> by_cases hd : d = sep
      · simp only [splitAt, hc, hd, if_true, List.cons.injEq, true_and] at h
        rw [hc, hd, ih h]
      · simp [splitAt, hc, hd, hq, consHead] at h
      · simp [splitAt, hc, hd, hp, consHead] at h
      · simp only [splitAt, hc, hd, if_false, hp, hq, consHead, List.cons.injEq] at h
        obtain ⟨⟨rfl, rfl⟩, rfl⟩ := h
        rw [ih (hp.trans hq.symm)]

/-- More parts than those of a beginning mean that a separator follows the beginning. -/
theorem exists_of_splitAt_eq_append {sep : Char} {s t : List Char} {q : List Char}
    {qs : List (List Char)} (h : splitAt sep s = splitAt sep t ++ q :: qs) :
    ∃ r, s = t ++ sep :: r := by
  induction t generalizing s with
  | nil =>
    cases s with
    | nil => simp [splitAt] at h
    | cons c r =>
      by_cases hc : c = sep
      · exact ⟨r, by simp [hc]⟩
      · obtain ⟨p, ps, hp⟩ := List.exists_cons_of_ne_nil (splitAt_ne_nil sep r)
        simp [splitAt, hc, hp, consHead] at h
  | cons d t ih =>
    obtain ⟨p, ps, hp⟩ := List.exists_cons_of_ne_nil (splitAt_ne_nil sep t)
    cases s with
    | nil => by_cases hd : d = sep <;> simp [splitAt, hd, hp, consHead] at h
    | cons c r =>
      obtain ⟨p', ps', hp'⟩ := List.exists_cons_of_ne_nil (splitAt_ne_nil sep r)
      by_cases hc : c = sep <;> by_cases hd : d = sep
      · obtain ⟨u, hu⟩ := ih (s := r) (by simpa [splitAt, hc, hd] using h)
        exact ⟨u, by simp [hc, hd, hu]⟩
      · simp [splitAt, hc, hd, hp, consHead] at h
      · simp [splitAt, hc, hd, hp', consHead] at h
      · simp only [splitAt, hc, hd, if_false, hp, hp', consHead, List.cons_append,
          List.cons.injEq] at h
        obtain ⟨⟨rfl, rfl⟩, h⟩ := h
        obtain ⟨u, hu⟩ := ih (s := r) (by simp [hp, hp', h])
        exact ⟨u, by simp [hu]⟩

end Text

@[simp] theorem splitPath_empty : splitPath "" = [] := rfl

theorem splitPath_of_ne {p : String} (h : p ≠ "") :
    splitPath p = (Text.splitAt '.' p.toList).map String.ofList := by
  simp [splitPath, h]

theorem splitPath_eq_nil {p : String} : splitPath p = [] ↔ p = "" := by
  by_cases h : p = ""
  · simp [h]
  · simp [splitPath_of_ne h, Text.splitAt_ne_nil, h]

theorem splitPath_injective : Function.Injective splitPath := by
  intro p q h
  by_cases hp : p = ""
  · rw [hp, splitPath_empty] at h
    rw [hp, splitPath_eq_nil.1 h.symm]
  · have hq : q ≠ "" := fun hq => hp (splitPath_eq_nil.1 (by rw [h, hq, splitPath_empty]))
    rw [splitPath_of_ne hp, splitPath_of_ne hq] at h
    have := Text.splitAt_injective '.' (List.map_injective_iff.2 (fun _ _ => String.ofList_injective) h)
    exact String.toList_inj.1 this

theorem intercalate_splitPath (p : String) : ".".intercalate (splitPath p) = p := by
  by_cases hp : p = ""
  · rw [hp]
    rfl
  · rw [splitPath_of_ne hp, ← String.toList_inj, String.toList_intercalate, List.map_map]
    simpa using Text.intercalate_splitAt '.' p.toList

/-- No segment of a path has a dot in it. -/
def Dotless (segments : List String) : Prop := ∀ s ∈ segments, '.' ∉ s.toList

theorem dotless_splitPath (p : String) : Dotless (splitPath p) := by
  intro s hs
  by_cases hp : p = ""
  · simp [hp] at hs
  · rw [splitPath_of_ne hp] at hs
    obtain ⟨t, ht, rfl⟩ := List.mem_map.1 hs
    simpa using Text.not_mem_of_mem_splitAt ht

theorem splitPath_of_dotless {s : String} (hs : s ≠ "") (h : '.' ∉ s.toList) :
    splitPath s = [s] := by
  rw [splitPath_of_ne hs, Text.splitAt_of_not_mem h]
  simp

@[simp] theorem toList_dot : (".": String).toList = ['.'] := rfl

theorem splitPath_dot {p k : String} (hp : p ≠ "") (hk : k ≠ "") :
    splitPath (p ++ "." ++ k) = splitPath p ++ splitPath k := by
  have h : p ++ "." ++ k ≠ "" := by simp [hp]
  rw [splitPath_of_ne h, splitPath_of_ne hp, splitPath_of_ne hk]
  simp [Text.splitAt_append]

theorem splitPath_snoc {p s : String} (hp : p ≠ "") (hs : '.' ∉ s.toList) :
    splitPath (p ++ "." ++ s) = splitPath p ++ [s] := by
  have h : p ++ "." ++ s ≠ "" := by simp [hp]
  rw [splitPath_of_ne h, splitPath_of_ne hp]
  simp [Text.splitAt_append, Text.splitAt_of_not_mem hs]

/-- A stem stands for the segments of its path. -/
theorem splitPath_stem (p : String) {k : String} (hk : k ≠ "") :
    splitPath (pathStem p ++ k) = splitPath p ++ splitPath k := by
  by_cases hp : p = ""
  · simp [pathStem, hp]
  · simp [pathStem, hp, splitPath_dot hp hk]

/-- What of a path has been joined to a name so far: nothing, or some segments and a dot. -/
inductive Joined : String → List String → Prop where
  | none : Joined "" []
  | some {name : String} (h : name ≠ "") : Joined (name ++ ".") (splitPath name)

theorem Joined.splitPath_append {joined s : String} {segments : List String}
    (h : Joined joined segments) (hs : '.' ∉ s.toList) (hne : joined ++ s ≠ "") :
    splitPath (joined ++ s) = segments ++ [s] := by
  cases h with
  | none => simpa using splitPath_of_dotless (by simpa using hne) hs
  | some h => exact splitPath_snoc h hs

theorem Joined.next {joined s : String} {segments : List String} (h : Joined joined segments)
    (hs : '.' ∉ s.toList) (hne : joined ++ s ≠ "") :
    Joined (joined ++ s ++ ".") (segments ++ [s]) := by
  rw [← h.splitPath_append hs hne]
  exact .some hne

/-- A name that a scope has for itself is made of one empty segment. -/
theorem Joined.of_isSelfKey {joined s : String} {segments : List String}
    (h : Joined joined segments) (hs : '.' ∉ s.toList) (hself : ScopeTree.isSelfKey (joined ++ s) = true) :
    joined = "" ∧ segments = [] ∧ s = "" := by
  simp only [ScopeTree.isSelfKey, Bool.or_eq_true, String.isEmpty_iff, decide_eq_true_eq] at hself
  cases h with
  | none =>
    refine ⟨rfl, rfl, ?_⟩
    rcases hself with hempty | hdot
    · simpa using hempty
    · refine absurd ?_ hs
      rw [← String.empty_append (s := s), hdot]
      simp
  | @some name hname =>
    have hdot := congrArg String.toList (hself.resolve_left (by simp))
    have hlength := congrArg List.length hdot
    simp only [String.toList_append, List.length_append, toList_dot,
      List.length_singleton] at hlength
    exact absurd (String.toList_eq_nil_iff.1 (List.eq_nil_of_length_eq_zero (by omega))) hname

theorem splitPath_joinPath (p k : String) :
    splitPath (joinPath p k) = splitPath p ++ splitPath k := by
  by_cases hp : p = ""
  · simp [joinPath, hp]
  · by_cases hk : k = ""
    · simp [joinPath, hp, hk]
    · simp [joinPath, hp, hk, splitPath_dot hp hk]

theorem pathDepth_eq_length (p : String) : pathDepth p = (splitPath p).length := by
  by_cases hp : p = ""
  · simp [pathDepth, pathStem, hp]
  · simp [pathDepth, pathStem, hp, splitPath_of_ne hp, Text.length_splitAt]

/-- A path covers the keys whose segments begin with its own. -/
theorem pathCovers_iff {p k : String} : pathCovers p k = true ↔ splitPath p <+: splitPath k := by
  by_cases hp : p = ""
  · simp [pathCovers, pathStem, hp]
  · simp only [pathCovers, Bool.or_eq_true, decide_eq_true_eq, List.isPrefixOf_iff_prefix]
    constructor
    · rintro (rfl | ⟨t, ht⟩)
      · exact List.prefix_rfl
      · have hk : k = p ++ "." ++ String.ofList t := by
          apply String.toList_inj.1
          simp [← ht, pathStem, hp]
        by_cases htn : t = []
        · refine ⟨[""], ?_⟩
          have : k.toList = p.toList ++ ['.'] := by simp [hk, htn]
          have hkn : k ≠ "" := by rintro rfl; simp at this
          rw [splitPath_of_ne hp, splitPath_of_ne hkn, this, Text.splitAt_append]
          simp [Text.splitAt]
        · rw [hk, splitPath_dot hp (by simpa [← String.toList_eq_nil_iff] using htn)]
          exact List.prefix_append _ _
    · rintro ⟨t, ht⟩
      cases t with
      | nil => exact .inl (splitPath_injective (by simpa using ht.symm))
      | cons q qs =>
        right
        have hk : k ≠ "" := by
          rintro rfl
          simp at ht
        rw [splitPath_of_ne hp, splitPath_of_ne hk] at ht
        have hs : Text.splitAt '.' k.toList =
            Text.splitAt '.' p.toList ++ q.toList :: qs.map String.toList := by
          have := congrArg (List.map String.toList) ht
          simpa [Function.comp_def] using this.symm
        obtain ⟨r, hr⟩ := Text.exists_of_splitAt_eq_append hs
        exact ⟨r, by simp [pathStem, hp, hr]⟩

end TextTemplate
