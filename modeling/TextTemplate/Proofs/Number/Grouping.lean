import TextTemplate.Number.Spec
import Mathlib.Data.List.TakeWhile

/-!
Thousands grouping. A run of digits is cut, counted from its end, into groups of three behind a
first group of one to three, and a comma goes in front of every group but the first. What this says
of the places of the commas leaves only one text for each run.
-/
namespace TextTemplate.Number

/-- After each comma three digits stand, and then another comma or the end. -/
def Threes (s : List Char) : Prop :=
  ∀ before after, s = before ++ ',' :: after → ∃ group rest, after = group ++ rest ∧
    group.length = 3 ∧ group.all Char.isDigit = true ∧ ∀ c ∈ rest.head?, c = ','

/-- A run of digits with commas between groups of three, counted from its end. -/
structure Grouped (run out : List Char) : Prop where
  /-- Without the commas it is the run. -/
  digits : out.filter (· ≠ ',') = run
  starts : out.head? ≠ some ','
  ends : out.getLast? ≠ some ','
  threes : Threes out
  /-- The first group of a run has one to three digits. -/
  first_pos : run ≠ [] → 1 ≤ (out.takeWhile (· ≠ ',')).length
  first_le : (out.takeWhile (· ≠ ',')).length ≤ 3
  short : run.length ≤ 3 → ',' ∉ out

section Commas

variable {s t g : List Char}

theorem comma_notMem_digits (h : s.all Char.isDigit = true) : ',' ∉ s :=
  fun hmem => absurd (List.all_eq_true.1 h ',' hmem) (by decide)

private theorem filter_ne_comma (h : ',' ∉ s) : s.filter (· ≠ ',') = s :=
  List.filter_eq_self.2 fun _ hc => decide_eq_true fun heq => h (heq ▸ hc)

theorem Threes.of_append (h : Threes (s ++ t)) : Threes t := by
  rintro before after rfl
  exact h (s ++ before) after (List.append_assoc s before _).symm

theorem threes_of_notMem (h : ',' ∉ s) : Threes s := by
  rintro before after rfl
  simp at h

/-- A text without commas and one more comma may stand in front of three digits and a comma or the
end. -/
theorem Threes.cons (hs : ',' ∉ s) (hthree : g.length = 3) (hdigits : g.all Char.isDigit = true)
    (hstarts : ∀ c ∈ t.head?, c = ',') (h : Threes (g ++ t)) : Threes (s ++ ',' :: (g ++ t)) := by
  intro before after heq
  rcases List.append_eq_append_iff.1 heq with ⟨more, rfl, hmore⟩ | ⟨more, rfl, hmore⟩
  · cases more with
    | nil =>
      obtain rfl := (List.cons.inj hmore).2
      exact ⟨g, t, rfl, hthree, hdigits, hstarts⟩
    | cons c more => exact h more after (List.cons.inj hmore).2
  · cases more with
    | nil =>
      obtain rfl := (List.cons.inj hmore).2
      exact ⟨g, t, rfl, hthree, hdigits, hstarts⟩
    | cons c more =>
      obtain rfl := (List.cons.inj hmore).1
      simp at hs

end Commas

/-- A first group and the groups of three behind it. -/
structure Groups (lead : List Char) (groups : List (List Char)) : Prop where
  lead_pos : 1 ≤ lead.length
  lead_le : lead.length ≤ 3
  three : ∀ g ∈ groups, g.length = 3
  lead_digits : lead.all Char.isDigit = true
  digits : ∀ g ∈ groups, g.all Char.isDigit = true

/-- The groups behind the first, each with the comma in front of it. -/
def withCommas (groups : List (List Char)) : List Char := groups.flatMap (List.cons ',')

section Groups

variable {run lead : List Char} {groups : List (List Char)}

theorem head_withCommas (groups : List (List Char)) : ∀ c ∈ (withCommas groups).head?, c = ',' := by
  cases groups with
  | nil => nofun
  | cons g groups =>
    rintro _ ⟨⟩
    rfl

theorem Groups.tail {g : List Char} (h : Groups lead (g :: groups)) : Groups g groups := by
  obtain ⟨hthree, htail⟩ := List.forall_mem_cons.1 h.three
  obtain ⟨hdigits, htailDigits⟩ := List.forall_mem_cons.1 h.digits
  exact ⟨by omega, by omega, htail, hdigits, htailDigits⟩

theorem length_flatten_mod (h : ∀ g ∈ groups, g.length = 3) : groups.flatten.length % 3 = 0 := by
  induction groups with
  | nil => rfl
  | cons g groups ih =>
    obtain ⟨hg, hgroups⟩ := List.forall_mem_cons.1 h
    have hrest := ih hgroups
    rw [List.flatten_cons, List.length_append]
    omega

/-- A digit in front goes to the first group, or before it when that has three already. -/
private theorem exists_groups (hne : run ≠ []) (hdigits : run.all Char.isDigit = true) :
    ∃ lead groups, Groups lead groups ∧ lead ++ groups.flatten = run := by
  induction run with
  | nil => exact absurd rfl hne
  | cons c run ih =>
    obtain ⟨hc, hrun⟩ := Bool.and_eq_true_iff.1 hdigits
    by_cases hempty : run = []
    · subst hempty
      exact ⟨[c], [], ⟨by simp, by simp, nofun, hdigits, nofun⟩, rfl⟩
    · obtain ⟨lead, groups, h, rfl⟩ := ih hempty hrun
      by_cases hfull : lead.length = 3
      · refine ⟨[c], lead :: groups, ⟨by simp, by simp, ?_, by simp [hc], ?_⟩, rfl⟩
        · exact List.forall_mem_cons.2 ⟨hfull, h.three⟩
        · exact List.forall_mem_cons.2 ⟨h.lead_digits, h.digits⟩
      · have hle := h.lead_le
        refine ⟨c :: lead, groups, ⟨by simp, ?_, h.three, ?_, h.digits⟩, rfl⟩
        · rw [List.length_cons]
          omega
        · rw [List.all_cons, hc, h.lead_digits, Bool.and_self]

private theorem groupDigits_of_length_le (h : lead.length ≤ 3) : groupDigits lead = lead := by
  induction lead with
  | nil => rfl
  | cons c lead ih =>
    rw [List.length_cons] at h
    have hcomma : ¬ (lead.length % 3 = 0 ∧ lead ≠ []) := by
      rintro ⟨hmod, hne⟩
      have hpos := List.length_pos_iff.2 hne
      omega
    rw [groupDigits, if_neg hcomma, ih (by omega)]

/-- The first comma goes where what follows has whole groups of three. -/
private theorem groupDigits_append {tail : List Char} (hne : lead ≠ []) (hle : lead.length ≤ 3)
    (htail : tail ≠ []) (hmod : tail.length % 3 = 0) :
    groupDigits (lead ++ tail) = lead ++ ',' :: groupDigits tail := by
  induction lead with
  | nil => exact absurd rfl hne
  | cons c lead ih =>
    rw [List.length_cons] at hle
    rw [List.cons_append, groupDigits, List.length_append]
    by_cases hlast : lead = []
    · subst hlast
      rw [List.nil_append, if_pos (by simpa using ⟨hmod, htail⟩)]
      rfl
    · have hpos := List.length_pos_iff.2 hlast
      rw [if_neg (by omega), ih hlast (by omega)]
      rfl

private theorem groupDigits_groups (h : Groups lead groups) :
    groupDigits (lead ++ groups.flatten) = lead ++ withCommas groups := by
  induction groups generalizing lead with
  | nil => simpa [withCommas] using groupDigits_of_length_le h.lead_le
  | cons g groups ih =>
    have hlead : lead ≠ [] := List.length_pos_iff.1 h.lead_pos
    have hg : g ≠ [] := List.length_pos_iff.1 h.tail.lead_pos
    have hmod := length_flatten_mod h.three
    rw [List.flatten_cons] at hmod ⊢
    rw [groupDigits_append hlead h.lead_le (by simp [hg]) hmod, ih h.tail]
    rfl

theorem Groups.threes (h : Groups lead groups) : Threes (lead ++ withCommas groups) := by
  induction groups generalizing lead with
  | nil => simpa [withCommas] using threes_of_notMem (comma_notMem_digits h.lead_digits)
  | cons g groups ih =>
    have hg := h.three g List.mem_cons_self
    exact Threes.cons (comma_notMem_digits h.lead_digits) hg h.tail.lead_digits
      (head_withCommas groups) (ih h.tail)

private theorem Groups.filter_ne_comma (h : Groups lead groups) :
    (lead ++ withCommas groups).filter (· ≠ ',') = lead ++ groups.flatten := by
  induction groups generalizing lead with
  | nil => simpa [withCommas] using Number.filter_ne_comma (comma_notMem_digits h.lead_digits)
  | cons g groups ih =>
    calc (lead ++ withCommas (g :: groups)).filter (· ≠ ',')
        = lead.filter (· ≠ ',') ++ (g ++ withCommas groups).filter (· ≠ ',') :=
          List.filter_append lead _
      _ = lead ++ (g ++ groups.flatten) := by
          rw [Number.filter_ne_comma (comma_notMem_digits h.lead_digits), ih h.tail]

private theorem Groups.takeWhile_ne_comma (h : Groups lead groups) :
    (lead ++ withCommas groups).takeWhile (· ≠ ',') = lead := by
  have hlead : ∀ c ∈ lead, decide (c ≠ ',') = true := fun c hc =>
    decide_eq_true fun heq => comma_notMem_digits h.lead_digits (heq ▸ hc)
  rw [List.takeWhile_append_of_pos hlead]
  cases groups with
  | nil => simp [withCommas]
  | cons g groups => simp [withCommas]

theorem Groups.grouped (h : Groups lead groups) :
    Grouped (lead ++ groups.flatten) (lead ++ withCommas groups) where
  digits := h.filter_ne_comma
  starts := by
    obtain ⟨c, lead, rfl⟩ := List.exists_cons_of_length_pos h.lead_pos
    rintro ⟨⟩
    exact comma_notMem_digits h.lead_digits List.mem_cons_self
  ends := by
    -- a comma at the end would have three digits after it
    intro hlast
    obtain ⟨before, hbefore⟩ := List.getLast?_eq_some_iff.1 hlast
    obtain ⟨group, rest, hnil, hthree, -⟩ := h.threes before [] hbefore
    rw [(List.append_eq_nil_iff.1 hnil.symm).1] at hthree
    cases hthree
  threes := h.threes
  first_pos _ := by rw [h.takeWhile_ne_comma]; exact h.lead_pos
  first_le := by rw [h.takeWhile_ne_comma]; exact h.lead_le
  short hshort := by
    cases groups with
    | nil => simpa [withCommas] using comma_notMem_digits h.lead_digits
    | cons g groups =>
      have hpos := h.lead_pos
      have hthree := h.three g List.mem_cons_self
      simp only [List.length_append, List.flatten_cons] at hshort
      omega

/-- A text that begins with a comma and goes on by threes is made of groups, each behind its
comma. -/
private theorem Threes.exists_groups {s : List Char} (h : Threes s)
    (hstarts : ∀ c ∈ s.head?, c = ',') :
    ∃ groups, s = withCommas groups ∧ (∀ g ∈ groups, g.length = 3) ∧
      ∀ g ∈ groups, g.all Char.isDigit = true := by
  induction hn : s.length using Nat.strong_induction_on generalizing s with
  | _ n ih =>
    cases s with
    | nil => exact ⟨[], rfl, nofun, nofun⟩
    | cons c s =>
      obtain rfl := hstarts c rfl
      obtain ⟨g, rest, rfl, hthree, hdigits, hrest⟩ := h [] s rfl
      have hless : rest.length < n := by
        rw [← hn, List.length_cons, List.length_append]
        omega
      have htail : Threes rest := Threes.of_append (s := ',' :: g) h
      obtain ⟨groups, rfl, hgroups, hgroupsDigits⟩ := ih rest.length hless htail hrest rfl
      exact ⟨g :: groups, rfl, List.forall_mem_cons.2 ⟨hthree, hgroups⟩,
        List.forall_mem_cons.2 ⟨hdigits, hgroupsDigits⟩⟩

end Groups

theorem grouped_groupDigits {run : List Char} (hdigits : run.all Char.isDigit = true) :
    Grouped run (groupDigits run) := by
  by_cases hne : run = []
  · subst hne
    constructor <;> simp [groupDigits, Threes]
  · obtain ⟨lead, groups, h, rfl⟩ := exists_groups hne hdigits
    rw [groupDigits_groups h]
    exact h.grouped

private theorem Grouped.exists_groups {run out : List Char} (h : Grouped run out) (hne : run ≠ [])
    (hdigits : run.all Char.isDigit = true) : ∃ lead groups, Groups lead groups ∧
      lead ++ groups.flatten = run ∧ lead ++ withCommas groups = out := by
  have hsplit : out = out.takeWhile (· ≠ ',') ++ out.dropWhile (· ≠ ',') :=
    List.takeWhile_append_dropWhile.symm
  have hthrees : Threes (out.dropWhile (· ≠ ',')) := Threes.of_append (hsplit ▸ h.threes)
  have hstarts : ∀ c ∈ (out.dropWhile (· ≠ ',')).head?, c = ',' := by
    intro c hc
    have hhead := List.head?_dropWhile_not (· ≠ ',') out
    rw [Option.mem_def.1 hc] at hhead
    simpa using hhead
  obtain ⟨groups, hrest, hthree, hgroups⟩ := hthrees.exists_groups hstarts
  have hlead : (out.takeWhile (· ≠ ',')).all Char.isDigit = true := by
    refine List.all_eq_true.2 fun c hc => List.all_eq_true.1 hdigits c ?_
    have hcomma := List.mem_takeWhile_imp hc
    rw [← h.digits]
    exact List.mem_filter.2 ⟨(List.takeWhile_prefix _).subset hc, hcomma⟩
  have hparts : Groups (out.takeWhile (· ≠ ',')) groups :=
    ⟨h.first_pos hne, h.first_le, hthree, hlead, hgroups⟩
  refine ⟨_, groups, hparts, ?_, ?_⟩
  · rw [← hparts.filter_ne_comma, ← hrest, ← hsplit, h.digits]
  · rw [← hrest, ← hsplit]

theorem Grouped.eq_groupDigits {run out : List Char} (h : Grouped run out)
    (hdigits : run.all Char.isDigit = true) : out = groupDigits run := by
  by_cases hne : run = []
  · subst hne
    cases out with
    | nil => rfl
    | cons c out =>
      have hc : c = ',' := by
        simpa using List.filter_eq_nil_iff.1 h.digits c List.mem_cons_self
      exact absurd (congrArg some hc) h.starts
  · obtain ⟨lead, groups, hgroups, rfl, rfl⟩ := h.exists_groups hne hdigits
    exact (groupDigits_groups hgroups).symm

/-- **Grouping.** The digits in front are written with commas by the rules of `Grouped`, which leave
no other text for them, and everything from the first other character on is kept. -/
theorem groupThousands_grouped (body : List Char) :
    ∃ out, groupThousands body = out ++ body.dropWhile Char.isDigit ∧
      Grouped (body.takeWhile Char.isDigit) out ∧
      ∀ other, Grouped (body.takeWhile Char.isDigit) other → other = out := by
  have hdigits : (body.takeWhile Char.isDigit).all Char.isDigit = true := List.all_takeWhile
  exact ⟨_, rfl, grouped_groupDigits hdigits, fun other h => h.eq_groupDigits hdigits⟩

example : groupThousands "1234567.89".toList = "1,234,567.89".toList := by decide

end TextTemplate.Number
