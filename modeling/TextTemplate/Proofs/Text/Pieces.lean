import TextTemplate.Text.Characters
import TextTemplate.Text.Cut
import Mathlib.Data.List.Chain
import Mathlib.Data.List.DropRight

/-!
Pieces of a text. A text that is tight is left alone by trimming, and a text in which a pair never
occurs is left whole by cutting at the pair. The pieces that trimming and cutting give are such texts.
-/
namespace TextTemplate.Text

variable {a b c : Char} {s t p l r : List Char}

/-- No blank at the end. -/
def Ends (s : List Char) : Prop := ∀ c ∈ s.getLast?, isBlank c = false

/-- No blank at either end. -/
structure Tight (s : List Char) : Prop where
  head : ∀ c ∈ s.head?, isBlank c = false
  ends : Ends s

theorem tight_nil : Tight [] := ⟨nofun, nofun⟩

theorem tight_singleton (h : isBlank c = false) : Tight [c] := by
  constructor <;> simpa [Ends] using h

theorem Ends.append (hs : Ends s) (ht : Ends t) : Ends (s ++ t) := by
  intro c hc
  rw [List.getLast?_append] at hc
  cases hl : t.getLast? with
  | none => exact hs c (by simpa [hl] using hc)
  | some d =>
    obtain rfl : d = c := by simpa [hl] using hc
    exact ht d hl

theorem Ends.append_of_ne (hne : t ≠ []) (ht : Ends t) (s : List Char) : Ends (s ++ t) := by
  intro c hc
  rw [List.getLast?_append, List.getLast?_eq_getLast_of_ne_nil hne] at hc
  exact ht c (by rw [List.getLast?_eq_getLast_of_ne_nil hne]; simpa using hc)

theorem trimEnd_isPrefix (s : List Char) : trimEnd s <+: s := List.rdropWhile_prefix isBlank s

theorem ends_trimEnd (s : List Char) : Ends (trimEnd s) := by
  intro c hc
  have hne : trimEnd s ≠ [] := fun he => by simp [he] at hc
  rw [List.getLast?_eq_getLast_of_ne_nil hne] at hc
  obtain rfl : (trimEnd s).getLast hne = c := by simpa using hc
  exact Bool.eq_false_iff.2 (List.rdropWhile_last_not isBlank s hne)

theorem trimEnd_of_ends (h : Ends s) : trimEnd s = s :=
  List.rdropWhile_eq_self_iff.2 fun hne => by
    simp [h _ (List.getLast?_eq_getLast_of_ne_nil hne)]

/-- The first character of a beginning is the first character of the text. -/
theorem mem_head?_of_isPrefix (h : p <+: s) (hc : c ∈ p.head?) : c ∈ s.head? := by
  obtain ⟨t, rfl⟩ := h
  rw [List.head?_append]
  simp [Option.mem_def.1 hc]

theorem trimStart_mono (h : p <+: s) : trimStart p <+: trimStart s := by
  obtain ⟨t, rfl⟩ := h
  induction p with
  | nil => exact List.nil_prefix
  | cons c p ih =>
    by_cases hc : isBlank c = true
    · simpa [trimStart, List.dropWhile_cons, hc] using ih
    · simp [trimStart, hc]

theorem trimStart_of_head (h : ∀ c ∈ s.head?, isBlank c = false) : trimStart s = s := by
  cases s with
  | nil => rfl
  | cons c s => exact trimStart_append_of_head (h c rfl) s

theorem trim_isPrefix (s : List Char) : trim s <+: trimStart s := trimEnd_isPrefix _

theorem trim_isInfix (s : List Char) : trim s <:+: s :=
  (trim_isPrefix s).isInfix.trans (List.dropWhile_suffix isBlank).isInfix

theorem tight_trim (s : List Char) : Tight (trim s) where
  head c hc := by
    have hfirst := List.head?_dropWhile_not isBlank s
    have hhead : (s.dropWhile isBlank).head? = some c := mem_head?_of_isPrefix (trim_isPrefix s) hc
    rw [hhead] at hfirst
    exact hfirst
  ends := ends_trimEnd _

theorem trim_of_tight (h : Tight s) : trim s = s := by
  rw [trim, trimStart_of_head h.head, trimEnd_of_ends h.ends]

/-- What is left of a tight text when something is taken off its end, and then the blanks there. -/
theorem Tight.trimEnd (h : Tight s) (hp : p <+: s) : Tight (Text.trimEnd p) where
  head c hc := h.head c (mem_head?_of_isPrefix ((trimEnd_isPrefix p).trans hp) hc)
  ends := ends_trimEnd p

/-- Blanks around a tight text go. -/
theorem trim_padded (hb : ∀ c ∈ l, isBlank c = true) (h : Tight s)
    (ha : ∀ c ∈ r, isBlank c = true) : trim (l ++ s ++ r) = s := by
  have hafter : Text.trimEnd (s ++ r) = Text.trimEnd s := by
    rw [Text.trimEnd, List.reverse_append,
      List.dropWhile_append_of_pos fun c hc => ha c (List.mem_reverse.1 hc), ← Text.trimEnd]
  have hbefore : trimStart (l ++ (s ++ r)) = trimStart (s ++ r) :=
    List.dropWhile_append_of_pos hb
  rw [trim, List.append_assoc, hbefore]
  cases s with
  | nil =>
    have hnone : trimStart r = [] := by
      simpa [trimStart] using ha
    rw [List.nil_append, hnone]
    rfl
  | cons c s =>
    rw [List.cons_append, trimStart_append_of_head (h.head c rfl), ← List.cons_append, hafter,
      trimEnd_of_ends h.ends]

theorem trim_spaced (hb : ∀ c ∈ l, c = ' ') (h : Tight s)
    (ha : ∀ c ∈ r, c = ' ') : trim (l ++ s ++ r) = s := by
  refine trim_padded (fun c hc => ?_) h fun c hc => ?_
  · rw [hb c hc]
    rfl
  · rw [ha c hc]
    rfl

/-- Nowhere is `a` directly followed by `b`. -/
abbrev Uncut (a b : Char) : List Char → Prop := List.IsChain fun c d => ¬(c = a ∧ d = b)

theorem Uncut.of_isInfix (h : Uncut a b s) (hp : p <:+: s) : Uncut a b p := List.IsChain.infix h hp

theorem Uncut.append_of_last (hs : Uncut a b s) (ht : Uncut a b t) (h : a ∉ s.getLast?) :
    Uncut a b (s ++ t) := by
  refine List.isChain_append.2 ⟨hs, ht, fun c hc d _ hcd => h ?_⟩
  rwa [← hcd.1]

theorem Uncut.append_of_head (hs : Uncut a b s) (ht : Uncut a b t) (h : b ∉ t.head?) :
    Uncut a b (s ++ t) := by
  refine List.isChain_append.2 ⟨hs, ht, fun c _ d hd hcd => h ?_⟩
  rwa [← hcd.2]

theorem uncut_of_notMem (h : a ∉ s) : Uncut a b s := by
  induction s with
  | nil => exact .nil
  | cons c s ih =>
    have hs := ih fun hm => h (List.mem_cons_of_mem _ hm)
    exact List.isChain_cons.2 ⟨fun d _ hcd => h (hcd.1 ▸ List.mem_cons_self), hs⟩

theorem splitPair_ne_nil (a b : Char) (s : List Char) : splitPair a b s ≠ [] := by
  fun_cases splitPair a b s with
  | case1 => simp
  | case2 => simp
  | case3 => simp
  | case4 c d r h => cases splitPair a b (d :: r) <;> simp [consHead]

/-- The parts are pieces of the text, and the first one begins it. -/
theorem infix_of_splitPair {parts : List (List Char)} (h : splitPair a b s = p :: parts) :
    p <+: s ∧ ∀ q ∈ parts, q <:+: s := by
  fun_induction splitPair a b s generalizing p parts with
  | case1 =>
    obtain ⟨rfl, rfl⟩ := List.cons.inj h
    simp
  | case2 c =>
    obtain ⟨rfl, rfl⟩ := List.cons.inj h
    simp
  | case3 c d r hcd ih =>
    obtain ⟨rfl, rfl⟩ := List.cons.inj h
    refine ⟨List.nil_prefix, fun q hq => ?_⟩
    obtain ⟨q', qs, hqs⟩ := List.exists_cons_of_ne_nil (splitPair_ne_nil a b r)
    obtain ⟨hfirst, hrest⟩ := ih hqs
    have hinfix : q <:+: r := by
      rcases List.mem_cons.1 (hqs ▸ hq) with rfl | hq
      · exact hfirst.isInfix
      · exact hrest q hq
    exact hinfix.trans (List.suffix_append [c, d] r).isInfix
  | case4 c d r hcd ih =>
    obtain ⟨q', qs, hqs⟩ := List.exists_cons_of_ne_nil (splitPair_ne_nil a b (d :: r))
    obtain ⟨hfirst, hrest⟩ := ih hqs
    rw [hqs, consHead] at h
    obtain ⟨rfl, rfl⟩ := List.cons.inj h
    exact ⟨List.cons_prefix_cons.2 ⟨rfl, hfirst⟩, fun q hq =>
      (hrest q hq).trans (List.suffix_cons c (d :: r)).isInfix⟩

/-- No part can be cut again. -/
theorem uncut_of_mem_splitPair (h : p ∈ splitPair a b s) : Uncut a b p := by
  fun_induction splitPair a b s generalizing p with
  | case1 => simp_all
  | case2 c => simp_all
  | case3 c d r hcd ih =>
    rcases List.mem_cons.1 h with rfl | h
    · exact .nil
    · exact ih h
  | case4 c d r hcd ih =>
    obtain ⟨q, qs, hqs⟩ := List.exists_cons_of_ne_nil (splitPair_ne_nil a b (d :: r))
    rw [hqs, consHead] at h
    rcases List.mem_cons.1 h with rfl | h
    · refine List.isChain_cons.2 ⟨fun e he => ?_, ih (by simp [hqs])⟩
      obtain rfl : d = e := by simpa using mem_head?_of_isPrefix (infix_of_splitPair hqs).1 he
      exact hcd
    · exact ih (by simp [hqs, h])

theorem splitPair_of_uncut (h : Uncut a b s) : splitPair a b s = [s] := by
  fun_induction splitPair a b s with
  | case1 => rfl
  | case2 => rfl
  | case3 c d r hcd ih => exact absurd hcd ((List.isChain_cons.1 h).1 d rfl)
  | case4 c d r hcd ih => rw [ih (List.isChain_cons.1 h).2, consHead]

theorem eq_of_splitPair (h : splitPair a b s = [p]) : s = p := by
  fun_induction splitPair a b s generalizing p with
  | case1 => exact (List.cons.inj h).1
  | case2 c => exact (List.cons.inj h).1
  | case3 c d r hcd ih => exact absurd (List.cons.inj h).2 (splitPair_ne_nil a b r)
  | case4 c d r hcd ih =>
    obtain ⟨q, qs, hqs⟩ := List.exists_cons_of_ne_nil (splitPair_ne_nil a b (d :: r))
    rw [hqs, consHead] at h
    obtain ⟨rfl, rfl⟩ := List.cons.inj h
    rw [ih hqs]

/-- The first cut is where the pair first occurs. -/
theorem splitPair_append (h : Uncut a b (s ++ [a])) (t : List Char) :
    splitPair a b (s ++ a :: b :: t) = s :: splitPair a b t := by
  induction s with
  | nil => simp [splitPair]
  | cons c s ih =>
    obtain ⟨hnext, hs⟩ := List.isChain_cons.1 h
    cases s with
    | nil =>
      change splitPair a b (c :: a :: b :: t) = _
      rw [splitPair, if_neg (hnext a rfl), show splitPair a b (a :: b :: t) = _ from ih hs, consHead]
    | cons d s =>
      change splitPair a b (c :: d :: (s ++ a :: b :: t)) = _
      rw [splitPair, if_neg (hnext d rfl),
        show splitPair a b (d :: (s ++ a :: b :: t)) = _ from ih hs, consHead]

theorem uncut_padded (h : Uncut a b s) (hb : ∀ c ∈ l, c = ' ')
    (hc : ∀ c ∈ r, c = ' ') (ha' : a ≠ ' ') (hb' : b ≠ ' ') :
    Uncut a b (l ++ s ++ r) := by
  have hbefore : a ∉ l := fun hm => ha' (hb a hm)
  have hafter : a ∉ r := fun hm => ha' (hc a hm)
  refine Uncut.append_of_head (Uncut.append_of_last (uncut_of_notMem hbefore) h ?_)
    (uncut_of_notMem hafter) ?_
  · exact fun hm => hbefore (List.mem_of_mem_getLast? hm)
  · exact fun hm => hb' (hc b (List.mem_of_mem_head? hm))

end TextTemplate.Text
