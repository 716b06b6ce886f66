import TextTemplate.Format
import Mathlib.Data.List.Infix

/-!
Escaped texts. A text is harmless when it can stand in HTML text and in quoted attributes without
ending them: it has none of the characters that do, and an ampersand only where an entity starts.
Escaping makes every text harmless and loses nothing: each harmless text is written for exactly one
text, which is found by replacing its entities in one pass.
-/
namespace TextTemplate.Text

/-- What is written for the escaped characters. -/
def entities : List (List Char) :=
  ["&amp;".toList, "&lt;".toList, "&gt;".toList, "&quot;".toList, "&#039;".toList]

/-- A text without markup. -/
structure Harmless (s : List Char) : Prop where
  plain : ∀ c ∈ s, c ∉ ['<', '>', '"', '\'']
  entity : ∀ t, '&' :: t <:+ s → ∃ e ∈ entities, e <+: '&' :: t

theorem harmless_nil : Harmless [] := ⟨nofun, fun t h => by simp at h⟩

/-- A text is read from its start: what its first character must be, and the rest. -/
theorem harmless_cons_iff {c : Char} {s : List Char} : Harmless (c :: s) ↔
    (c ∉ ['<', '>', '"', '\''] ∧ (c = '&' → ∃ e ∈ entities, e <+: c :: s)) ∧ Harmless s := by
  constructor
  · intro h
    obtain ⟨hc, hs⟩ := List.forall_mem_cons.1 h.plain
    refine ⟨⟨hc, ?_⟩, hs, fun t ht => h.entity t (ht.trans (List.suffix_cons c s))⟩
    rintro rfl
    exact h.entity s (List.suffix_refl _)
  · rintro ⟨⟨hc, hentity⟩, h⟩
    refine ⟨List.forall_mem_cons.2 ⟨hc, h.plain⟩, fun t ht => ?_⟩
    rcases List.suffix_cons_iff.1 ht with heq | ht
    · obtain ⟨rfl, rfl⟩ := List.cons.inj heq
      exact hentity rfl
    · exact h.entity t ht

instance decidableHarmless : (s : List Char) → Decidable (Harmless s)
  | [] => .isTrue harmless_nil
  | _ :: s =>
    have := decidableHarmless s
    decidable_of_iff' _ harmless_cons_iff

namespace Harmless

variable {s t : List Char}

theorem append (hs : Harmless s) (ht : Harmless t) : Harmless (s ++ t) := by
  induction s with
  | nil => exact ht
  | cons c s ih =>
    obtain ⟨⟨hc, hentity⟩, hrest⟩ := harmless_cons_iff.1 hs
    refine harmless_cons_iff.2 ⟨⟨hc, fun hamp => ?_⟩, ih hrest⟩
    obtain ⟨e, he, hprefix⟩ := hentity hamp
    exact ⟨e, he, hprefix.trans (List.prefix_append _ _)⟩

theorem of_append_right (h : Harmless (s ++ t)) : Harmless t := by
  induction s with
  | nil => exact h
  | cons c s ih => exact ih (harmless_cons_iff.1 h).2

/-- An entity does not run over a character that stands in none. -/
theorem of_append_left {stop : Char} (hstop : ∀ e ∈ entities, stop ∉ e)
    (h : Harmless (s ++ stop :: t)) : Harmless s := by
  induction s with
  | nil => exact harmless_nil
  | cons c s ih =>
    obtain ⟨⟨hc, hentity⟩, hrest⟩ := harmless_cons_iff.1 h
    refine harmless_cons_iff.2 ⟨⟨hc, fun hamp => ?_⟩, ih hrest⟩
    obtain ⟨e, he, hprefix⟩ := hentity hamp
    have hupto : c :: s ++ [stop] <+: c :: (s ++ stop :: t) := ⟨t, by simp⟩
    refine ⟨e, he, ?_⟩
    rcases List.prefix_or_prefix_of_prefix hprefix hupto with hle | hge
    · rcases List.prefix_concat_iff.1 hle with rfl | hle
      · exact absurd (by simp) (hstop _ he)
      · exact hle
    · exact absurd (hge.subset (by simp)) (hstop e he)

theorem escapeChars (s : List Char) : Harmless (escapeChars s) := by
  have hchar : ∀ c, Harmless (escapeChar c) := by
    intro c
    unfold escapeChar
    split
    case h_6 hamp hlt hgt hquot hapos =>
      refine harmless_cons_iff.2 ⟨⟨?_, fun h => (hamp h).elim⟩, harmless_nil⟩
      simp only [List.mem_cons, List.not_mem_nil, or_false, not_or]
      exact ⟨hlt, hgt, hquot, hapos⟩
    all_goals decide
  induction s with
  | nil => exact harmless_nil
  | cons c s ih => exact (hchar c).append ih

end Harmless

/-- Replaces entities by the characters they are written for, in one pass from left to right. What
has been replaced is not read again. -/
def unescapeChars : List Char → List Char
  | '&' :: 'a' :: 'm' :: 'p' :: ';' :: r => '&' :: unescapeChars r
  | '&' :: 'l' :: 't' :: ';' :: r => '<' :: unescapeChars r
  | '&' :: 'g' :: 't' :: ';' :: r => '>' :: unescapeChars r
  | '&' :: 'q' :: 'u' :: 'o' :: 't' :: ';' :: r => '"' :: unescapeChars r
  | '&' :: '#' :: '0' :: '3' :: '9' :: ';' :: r => '\'' :: unescapeChars r
  | c :: r => c :: unescapeChars r
  | [] => []

def unescapeHtml (text : String) : String := String.ofList (unescapeChars text.toList)

section Entities

variable {c : Char}

private theorem unescapeChars_cons_of_ne (h : c ≠ '&') (s : List Char) :
    unescapeChars (c :: s) = c :: unescapeChars s := by
  rw [unescapeChars.eq_def]
  split <;> simp_all

/-- What is written for a character is read as that character, whatever follows it. -/
private theorem unescapeChars_escapeChar (c : Char) (s : List Char) :
    unescapeChars (escapeChar c ++ s) = c :: unescapeChars s := by
  unfold escapeChar
  split
  case h_6 hamp _ _ _ _ => exact unescapeChars_cons_of_ne hamp s
  all_goals rfl

private theorem unescapeChars_escapeChars (s : List Char) : unescapeChars (escapeChars s) = s := by
  induction s with
  | nil => rfl
  | cons c s ih =>
    calc unescapeChars (escapeChars (c :: s))
        = unescapeChars (escapeChar c ++ escapeChars s) := rfl
      _ = c :: unescapeChars (escapeChars s) := unescapeChars_escapeChar c _
      _ = c :: s := by rw [ih]

theorem escapeChar_of_plain (hplain : c ∉ ['<', '>', '"', '\'']) (hamp : c ≠ '&') :
    escapeChar c = [c] := by
  simp only [List.mem_cons, List.not_mem_nil, or_false, not_or] at hplain
  obtain ⟨hlt, hgt, hquot, hapos⟩ := hplain
  exact escapeChar.eq_6 c hamp hlt hgt hquot hapos

/-- The step of a pass: what is written for `c` is read, and the rest is harmless as well. -/
theorem Harmless.escapeChars_cons {r : List Char}
    (ih : Harmless r → Text.escapeChars (unescapeChars r) = r) (h : Harmless (escapeChar c ++ r)) :
    Text.escapeChars (c :: unescapeChars r) = escapeChar c ++ r := by
  rw [Text.escapeChars, List.flatMap_cons]
  exact congrArg (escapeChar c ++ ·) (ih h.of_append_right)

/-- A harmless text is written for the text that its entities stand for. -/
theorem Harmless.escapeChars_unescapeChars {s : List Char} (h : Harmless s) :
    Text.escapeChars (unescapeChars s) = s := by
  fun_induction unescapeChars s with
  | case1 r ih => exact escapeChars_cons (c := '&') ih h
  | case2 r ih => exact escapeChars_cons (c := '<') ih h
  | case3 r ih => exact escapeChars_cons (c := '>') ih h
  | case4 r ih => exact escapeChars_cons (c := '"') ih h
  | case5 r ih => exact escapeChars_cons (c := '\'') ih h
  | case6 c r hamp hlt hgt hquot hapos ih =>
    obtain ⟨hplain, hentity⟩ := (harmless_cons_iff.1 h).1
    -- an ampersand would start an entity, and these were read by the cases before
    have hne : c ≠ '&' := by
      rintro rfl
      obtain ⟨e, he, t, ht⟩ := hentity rfl
      simp only [entities, List.mem_cons, List.not_mem_nil, or_false] at he
      rcases he with rfl | rfl | rfl | rfl | rfl
      · exact hamp t rfl (List.cons.inj ht).2.symm
      · exact hlt t rfl (List.cons.inj ht).2.symm
      · exact hgt t rfl (List.cons.inj ht).2.symm
      · exact hquot t rfl (List.cons.inj ht).2.symm
      · exact hapos t rfl (List.cons.inj ht).2.symm
    have hwritten := escapeChar_of_plain hplain hne
    have hstep := escapeChars_cons (c := c) ih (by rwa [hwritten])
    rwa [hwritten] at hstep
  | case7 => rfl

end Entities

theorem unescapeHtml_escapeHtml (text : String) : unescapeHtml (escapeHtml text) = text := by
  rw [unescapeHtml, toList_escapeHtml, unescapeChars_escapeChars, String.ofList_toList]

theorem harmless_iff_escapeHtml (escaped : String) :
    Harmless escaped.toList ↔ ∃ text, escapeHtml text = escaped := by
  constructor
  · intro h
    refine ⟨unescapeHtml escaped, ?_⟩
    rw [escapeHtml, unescapeHtml, String.toList_ofList, h.escapeChars_unescapeChars,
      String.ofList_toList]
  · rintro ⟨text, rfl⟩
    rw [toList_escapeHtml]
    exact Harmless.escapeChars text.toList

/-- **Escaping.** Replacing the entities gives the text back, so no two texts are escaped alike. The
escaped texts are exactly the harmless ones. A text may be escaped piece by piece. -/
theorem escapeHtml_reversible :
    Function.LeftInverse unescapeHtml escapeHtml ∧ Function.Injective escapeHtml ∧
      (∀ escaped : String, Harmless escaped.toList ↔ ∃ text, escapeHtml text = escaped) ∧
      ∀ s t : String, escapeHtml (s ++ t) = escapeHtml s ++ escapeHtml t := by
  refine ⟨unescapeHtml_escapeHtml, ?_, harmless_iff_escapeHtml, ?_⟩
  · exact Function.LeftInverse.injective unescapeHtml_escapeHtml
  · intro s t
    rw [escapeHtml, String.toList_append, escapeChars_append, String.ofList_append]
    rfl

/-- A text with an entity in it is escaped once more, and one pass undoes only that. -/
example : escapeHtml "&lt;" = "&amp;lt;" ∧ unescapeHtml "&amp;lt;" = "&lt;" := by decide

end TextTemplate.Text
