import TextTemplate.Text.Case
import Mathlib

/-!
Which letters get a capital. The walk over a text changes a small letter at the start of a word, and
upper-cases the character in front of it along with it. So the capitals are all that changes just
when the characters in front of them are their own upper case.
-/
namespace TextTemplate.Text

/-- Whether `c` is a small letter that begins a word when `before` stands in front of it. The `s` of
a possessive begins none. -/
def beginsAfter (before : Option Char) (c : Char) : Bool :=
  c.isLower && before.all fun p => !isWordChar p && !(p == '\'' && c == 's')

/-- The character in front of place `i` of a text that comes after `before`. -/
def inFront (before : Option Char) (s : List Char) : Nat → Option Char
  | 0 => before
  | i + 1 => s[i]?

/-- Whether at place `i` of a text stands a small letter that begins a word. -/
def begins (s : List Char) (i : Nat) : Bool := s[i]?.any (beginsAfter (inFront none s i))

/-- `t` is `s` with capitals for the small letters that begin words, and is `s` everywhere else. -/
structure WordCapitals (s t : List Char) : Prop where
  length : t.length = s.length
  each : ∀ i, t[i]? = s[i]?.map fun c => if begins s i then c.toUpper else c

theorem isWordChar_of_isLower {c : Char} (h : c.isLower = true) : isWordChar c = true := by
  simp [isWordChar, Char.isAlphanum, Char.isAlpha, h]

theorem beginsAfter_wordChar {p : Char} (h : isWordChar p = true) (c : Char) :
    beginsAfter (some p) c = false := by
  simp [beginsAfter, h]

theorem upperChar_of_isLower {c : Char} (h : c.isLower = true) : upperChar c = [c.toUpper] := by
  have hall : ∀ n < 26, upperChar (.ofNat (97 + n)) = [(Char.ofNat (97 + n)).toUpper] := by
    decide +kernel
  obtain ⟨hlow, hhigh⟩ : 97 ≤ c.toNat ∧ c.toNat ≤ 122 := by
    simpa [Char.isLower, UInt32.le_iff_toNat_le] using h
  have hc := hall (c.toNat - 97) (by omega)
  rwa [Nat.add_sub_cancel' hlow, Char.ofNat_toNat] at hc

private theorem upperChar_ne_nil (c : Char) : upperChar c ≠ [] := by
  have hall : ∀ e ∈ upperExpansions, e.2 ≠ [] := by decide +kernel
  rw [upperChar, mapCase]
  split
  · rename_i codes hlookup
    obtain ⟨before, after, hmem, -⟩ := List.lookup_eq_some_iff.1 hlookup
    have hcodes : codes ≠ [] := hall (c.toNat, codes) (hmem ▸ by simp)
    simpa using hcodes
  · split <;> simp

/-- What is written for `c` between two characters. -/
def writtenBetween (before : Option Char) (c : Char) (after : Option Char) : List Char :=
  if beginsAfter before c then [c.toUpper]
  else if after.any (beginsAfter (some c)) then upperChar c
  else [c]

/-- What is written for each character of a text that comes after `before`. -/
def pieces (before : Option Char) : List Char → List (List Char)
  | [] => []
  | c :: r => writtenBetween before c r.head? :: pieces (some c) r

section Written

variable {before after : Option Char} {c d : Char}

private theorem writtenBetween_first (h : beginsAfter before c = true) :
    writtenBetween before c after = [c.toUpper] := if_pos h

private theorem writtenBetween_inFront (hc : beginsAfter before c = false)
    (hd : beginsAfter (some c) d = true) : writtenBetween before c (some d) = upperChar c := by
  simp [writtenBetween, hc, hd]

private theorem writtenBetween_other (hc : beginsAfter before c = false)
    (hafter : ∀ d ∈ after, beginsAfter (some c) d = false) :
    writtenBetween before c after = [c] := by
  cases after with
  | none => simp [writtenBetween, hc]
  | some d => simp [writtenBetween, hc, hafter d rfl]

end Written

/-- The walk writes these pieces when its first character begins no word. -/
private theorem capitalizeRest_eq_flatten {before : Option Char} {s : List Char}
    (h : ∀ c ∈ s.head?, beginsAfter before c = false) :
    capitalizeRest s = (pieces before s).flatten := by
  fun_induction capitalizeRest s generalizing before with
  | case1 => rfl
  | case2 c => rw [pieces, writtenBetween_other (h c rfl) (by simp), pieces,
    List.flatten_singleton]
  | case3 p c r hkept ih =>
    have hc : ∀ d ∈ (c :: r).head?, beginsAfter (some p) d = false := by
      rintro _ ⟨⟩
      rcases Bool.or_eq_true_iff.1 hkept with hword | hlower
      · exact beginsAfter_wordChar hword c
      · simp_all [beginsAfter]
    rw [ih hc, pieces.eq_2 before, writtenBetween_other (h p rfl) hc]
    rfl
  | case4 p c r hstarts hpossessive ih =>
    obtain ⟨rfl, rfl⟩ := hpossessive
    have hs : ∀ d ∈ ('s' :: r).head?, beginsAfter (some '\'') d = false := by
      rintro _ ⟨⟩
      rfl
    have hnext : ∀ d ∈ r.head?, beginsAfter (some 's') d = false := fun d _ =>
      beginsAfter_wordChar rfl d
    rw [ih hnext, pieces, pieces, writtenBetween_other (h '\'' rfl) hs,
      writtenBetween_other rfl hnext]
    rfl
  | case5 p c r hstarts hpossessive ih =>
    obtain ⟨hword, hlower⟩ : isWordChar p = false ∧ c.isLower = true := by simpa using hstarts
    have hc : beginsAfter (some p) c = true := by
      simpa [beginsAfter, hword, hlower, imp_iff_not_or] using hpossessive
    have hnext : ∀ d ∈ r.head?, beginsAfter (some c) d = false := fun d _ =>
      beginsAfter_wordChar (isWordChar_of_isLower hlower) d
    rw [ih hnext, pieces, pieces, List.head?_cons, writtenBetween_inFront (h p rfl) hc,
      writtenBetween_first hc, upperChar_of_isLower hlower]
    simp

private theorem capitalizeChars_eq_flatten (s : List Char) :
    capitalizeChars s = (pieces none s).flatten := by
  fun_cases capitalizeChars s with
  | case1 => rfl
  | case2 c r hlower =>
    have hc : beginsAfter none c = true := by simpa [beginsAfter] using hlower
    have hnext : ∀ d ∈ r.head?, beginsAfter (some c) d = false := fun d _ =>
      beginsAfter_wordChar (isWordChar_of_isLower hlower) d
    rw [capitalizeRest_eq_flatten hnext, upperChar_of_isLower hlower, pieces,
      writtenBetween_first hc]
    rfl
  | case3 c r hlower => exact capitalizeRest_eq_flatten (by simpa [beginsAfter] using hlower)

theorem getElem?_pieces (before : Option Char) (s : List Char) (i : Nat) :
    (pieces before s)[i]? =
      s[i]?.map fun c => writtenBetween (inFront before s i) c s[i + 1]? := by
  induction s generalizing before i with
  | nil => rfl
  | cons c r ih =>
    cases i with
    | zero => simp [pieces, inFront, List.head?_eq_getElem?]
    | succ i =>
      have hfront : inFront (some c) r i = inFront before (c :: r) (i + 1) := by cases i <;> rfl
      simp [pieces, ih, hfront]

theorem length_pieces (before : Option Char) (s : List Char) :
    (pieces before s).length = s.length := by
  induction s generalizing before with
  | nil => rfl
  | cons c r ih => rw [pieces, List.length_cons, List.length_cons, ih]

private theorem writtenBetween_ne_nil (before : Option Char) (c : Char) (after : Option Char) :
    writtenBetween before c after ≠ [] := by
  rw [writtenBetween]
  split
  · simp
  · split
    · exact upperChar_ne_nil c
    · simp

private theorem pieces_ne_nil {before : Option Char} {s p : List Char} (h : p ∈ pieces before s) :
    p ≠ [] := by
  induction s generalizing before with
  | nil => cases h
  | cons c r ih =>
    rcases List.mem_cons.1 h with rfl | h
    · exact writtenBetween_ne_nil before c r.head?
    · exact ih h

private theorem length_le_length_flatten {parts : List (List Char)} (hne : ∀ p ∈ parts, p ≠ []) :
    parts.length ≤ parts.flatten.length := by
  induction parts with
  | nil => exact Nat.le_refl 0
  | cons p parts ih =>
    obtain ⟨hp, hparts⟩ := List.forall_mem_cons.1 hne
    have hpos := List.length_pos_iff.2 hp
    have hrest := ih hparts
    simp only [List.flatten_cons, List.length_append, List.length_cons]
    omega

/-- Pieces that are not empty come to a text with one character for each just when each is that
character. -/
theorem flatten_eq_iff {parts : List (List Char)} {t : List Char}
    (hne : ∀ p ∈ parts, p ≠ []) (hlength : parts.length = t.length) :
    parts.flatten = t ↔ parts = t.map fun c => [c] := by
  constructor
  · intro h
    induction parts generalizing t with
    | nil => simp_all
    | cons p parts ih =>
      obtain ⟨hp, hparts⟩ := List.forall_mem_cons.1 hne
      obtain ⟨c, p, rfl⟩ := List.exists_cons_of_ne_nil hp
      obtain ⟨d, t, rfl⟩ := List.exists_cons_of_length_eq_add_one hlength.symm
      obtain ⟨rfl, hrest⟩ : c = d ∧ p ++ parts.flatten = t := List.cons.inj h
      have hrest_length : parts.length = t.length := Nat.succ.inj hlength
      -- a second character in the first piece leaves too few for the others
      obtain rfl : p = [] := by
        have hmany := length_le_length_flatten hparts
        have hall := congrArg List.length hrest
        rw [List.length_append] at hall
        exact List.length_eq_zero_iff.1 (by omega)
      rw [List.map_cons, ih hparts hrest_length hrest]
  · rintro rfl
    simp [← List.flatMap_def]

section Places

variable {s t : List Char} {i : Nat} {c : Char}

private theorem begins_of_getElem? (h : s[i]? = some c) :
    begins s i = beginsAfter (inFront none s i) c := by
  rw [begins, h, Option.any_some]

private theorem begins_succ_of_getElem? (h : s[i]? = some c) :
    begins s (i + 1) = s[i + 1]?.any (beginsAfter (some c)) := by
  rw [begins, inFront, h]

theorem getElem?_pieces_none (s : List Char) (i : Nat) :
    (pieces none s)[i]? = s[i]?.map fun c =>
      if begins s i then [c.toUpper] else if begins s (i + 1) then upperChar c else [c] := by
  rw [getElem?_pieces]
  cases h : s[i]? with
  | none => rfl
  | some c =>
    rw [Option.map_some, Option.map_some, begins_of_getElem? h, begins_succ_of_getElem? h,
      writtenBetween]

/-- No word begins right after a letter that begins one. -/
private theorem begins_succ_eq_false (h : begins s i = true) : begins s (i + 1) = false := by
  cases hc : s[i]? with
  | none => simp [begins, hc] at h
  | some c =>
    rw [begins_of_getElem? hc, beginsAfter, Bool.and_eq_true] at h
    have hnext : ∀ d, beginsAfter (some c) d = false :=
      beginsAfter_wordChar (isWordChar_of_isLower h.1)
    rw [begins_succ_of_getElem? hc]
    cases s[i + 1]? <;> simp [hnext]

theorem wordCapitals_iff : WordCapitals s t ↔
    t = s.mapIdx fun i c => if begins s i then c.toUpper else c := by
  constructor
  · intro h
    refine List.ext_getElem? fun i => ?_
    rw [h.each i, List.getElem?_mapIdx]
  · rintro rfl
    exact ⟨List.length_mapIdx, fun i => List.getElem?_mapIdx⟩

end Places

/-- **Capitals.** What is written is known place by place: a small letter that begins a word becomes
its capital, the character in front of it its upper case, and every other character stays. So the
capitals are all that changes exactly when every character in front of one is its own upper case. -/
theorem capitalize_initials (text : String) :
    (∃ parts : List (List Char), (capitalize text).toList = parts.flatten ∧
      parts.length = text.length ∧
      ∀ i, parts[i]? = text.toList[i]?.map fun c =>
        if begins text.toList i then [c.toUpper]
        else if begins text.toList (i + 1) then upperChar c
        else [c]) ∧
    (WordCapitals text.toList (capitalize text).toList ↔
      ∀ i, begins text.toList (i + 1) = true → ∀ p ∈ text.toList[i]?, upperChar p = [p]) := by
  have hwritten : (capitalize text).toList = (pieces none text.toList).flatten := by
    rw [capitalize, String.toList_ofList, capitalizeChars_eq_flatten]
  have hlength : (pieces none text.toList).length = text.toList.length :=
    length_pieces none text.toList
  refine ⟨⟨_, hwritten, hlength, getElem?_pieces_none text.toList⟩, ?_⟩
  rw [wordCapitals_iff, hwritten, flatten_eq_iff (fun p => pieces_ne_nil)
    (by rw [hlength, List.length_mapIdx])]
  constructor
  · intro h i hbegins p hp
    have hi := congrArg (·[i]?) h
    have hkept : begins text.toList i = false := by
      by_contra hfirst
      simp [begins_succ_eq_false (Bool.of_not_eq_false hfirst)] at hbegins
    simpa [getElem?_pieces_none, Option.mem_def.1 hp, hbegins, hkept] using hi
  · intro h
    refine List.ext_getElem? fun i => ?_
    rw [getElem?_pieces_none, List.getElem?_map, List.getElem?_mapIdx, Option.map_map]
    refine Option.map_congr fun c hc => ?_
    by_cases hfirst : begins text.toList i = true
    · simp [hfirst]
    · by_cases hbegins : begins text.toList (i + 1) = true
      · simp [hfirst, hbegins, h i hbegins c hc]
      · simp [hfirst, hbegins]

/-- The sharp s and the e acute are no word characters, so a word begins after them, and they are
upper-cased with its first letter. -/
theorem not_wordCapitals_capitalize :
    capitalize "straße" = "StraSSE" ∧ ¬ WordCapitals "straße".toList (capitalize "straße").toList ∧
      capitalize "éa" = "ÉA" ∧ ¬ WordCapitals "éa".toList (capitalize "éa").toList := by
  have hlonger : capitalize "straße" = "StraSSE" := by decide +kernel
  have hchanged : capitalize "éa" = "ÉA" := by decide +kernel
  refine ⟨hlonger, fun h => ?_, hchanged, fun h => ?_⟩
  · have hlength := h.length
    rw [hlonger] at hlength
    revert hlength
    decide +kernel
  · have hfirst := h.each 0
    rw [hchanged] at hfirst
    revert hfirst
    decide +kernel

end TextTemplate.Text
