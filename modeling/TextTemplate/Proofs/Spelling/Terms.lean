import TextTemplate.Proofs.Parsing
import TextTemplate.Proofs.Text.Pieces

/-!
How a key is written, with its format and the mark of escaping. Every term that parsing leaves is read
back from its spelling, whatever blanks stand around it.
-/
namespace TextTemplate

/-- The mark behind what is to be escaped. -/
def escapeMark (escape : Bool) : List Char := if escape then Directive.escape.symbol.toList else []

/-- A key, and a format if there is one, each with the mark of escaping behind it. -/
def Term.spelling (term : Term) : List Char :=
  term.key ++ escapeMark term.escape ++
    match term.format with
    | none => []
    | some f => ' ' :: Directive.format.symbol.toList ++ f ++ escapeMark term.escape

namespace Text

/-- A piece between two arrows and beside a `::`, without blanks around it. -/
structure Piece (s : List Char) : Prop where
  tight : Tight s
  arrow : Uncut '-' '>' s
  colons : Uncut ':' ':' s

theorem piece_trim {s : List Char} (ha : Uncut '-' '>' s) (hc : Uncut ':' ':' s) : Piece (trim s) :=
  ⟨tight_trim s, ha.of_isInfix (trim_isInfix s), hc.of_isInfix (trim_isInfix s)⟩

/-- A piece from which something is taken off the end, and then the blanks there. -/
theorem Piece.trimEnd {s p : List Char} (h : Piece s) (hp : p <+: s) : Piece (Text.trimEnd p) :=
  have hinfix := ((trimEnd_isPrefix p).trans hp).isInfix
  ⟨h.tight.trimEnd hp, h.arrow.of_isInfix hinfix, h.colons.of_isInfix hinfix⟩

end Text

open Text

namespace Term

/-- A format as parsing leaves it. -/
structure FormatClean (escape : Bool) (f : List Char) : Prop where
  nonempty : f ≠ []
  piece : Piece f
  head : ':' ∉ f.head?
  unmarked : escape = false → ';' ∉ f.getLast?

/-- A term as parsing leaves it. -/
structure Clean (term : Term) : Prop where
  key : Piece term.key
  unmarked : term.escape = false → ';' ∉ term.key.getLast?
  format : ∀ f ∈ term.format, FormatClean term.escape f

private theorem dropMark?_eq_some {s p : List Char} (h : dropMark? s = some p) :
    ∃ q, s = q ++ [';'] ∧ p = trimEnd q := by
  simp only [dropMark?, Option.map_eq_some_iff, Text.dropSuffix?] at h
  obtain ⟨q, hq, rfl⟩ := h
  split at hq
  · rename_i hsuffix
    obtain ⟨front, rfl⟩ := List.isSuffixOf_iff_suffix.1 hsuffix
    refine ⟨front, rfl, ?_⟩
    rw [← Option.some.inj hq]
    simp [Directive.symbol]
  · cases hq

private theorem dropMark?_eq_none {s : List Char} (h : dropMark? s = none) : ';' ∉ s.getLast? := by
  simp only [dropMark?, Option.map_eq_none_iff, Text.dropSuffix?] at h
  split at h
  · cases h
  · rename_i hsuffix
    intro hlast
    obtain ⟨front, rfl⟩ := List.getLast?_eq_some_iff.1 hlast
    exact hsuffix (List.isSuffixOf_iff_suffix.2 (List.suffix_append front [';']))

/-- The mark is read off what it was put behind. -/
private theorem dropMark?_mark {s : List Char} (h : Ends s) : dropMark? (s ++ [';']) = some s := by
  have hsuffix : [';'].isSuffixOf (s ++ [';']) = true :=
    List.isSuffixOf_iff_suffix.2 (List.suffix_append s [';'])
  have hsymbol : Directive.escape.symbol.toList = [';'] := rfl
  simp [dropMark?, Text.dropSuffix?, hsymbol, hsuffix, trimEnd_of_ends h]

private theorem dropMark?_of_unmarked {s : List Char} (h : ';' ∉ s.getLast?) :
    dropMark? s = none := by
  cases hs : dropMark? s with
  | none => rfl
  | some p =>
    obtain ⟨q, rfl, -⟩ := dropMark?_eq_some hs
    simp at h

/-- A piece without the mark at its end, if it has one. -/
theorem piece_dropMark {s : List Char} (h : Piece s) : Piece ((dropMark? s).getD s) := by
  cases hs : dropMark? s with
  | none => exact h
  | some p =>
    obtain ⟨q, rfl, rfl⟩ := dropMark?_eq_some hs
    exact h.trimEnd (List.prefix_append q [';'])

theorem dropMark_isPrefix (s : List Char) : (dropMark? s).getD s <+: s := by
  cases hs : dropMark? s with
  | none => exact List.prefix_rfl
  | some p =>
    obtain ⟨q, rfl, rfl⟩ := dropMark?_eq_some hs
    exact (trimEnd_isPrefix q).trans (List.prefix_append q [';'])

theorem yields_ofParts {key : List Char} {format : Option (List Char)} (hk : Piece key)
    (hf : ∀ f ∈ format, Piece f ∧ f ≠ [] ∧ ':' ∉ f.head?) :
    Yields (fun term => term.Clean ∧ term.key <+: key) (ofParts key format) := by
  have hkey := piece_dropMark hk
  have hprefix := dropMark_isPrefix key
  have hunmarked : (dropMark? key).isSome = false → ';' ∉ ((dropMark? key).getD key).getLast? := by
    cases hm : dropMark? key with
    | none => exact fun _ => dropMark?_eq_none hm
    | some p => exact fun h => nomatch h
  rw [ofParts.eq_def]
  split
  · exact .ok ⟨⟨hkey, hunmarked, by simp⟩, hprefix⟩
  · rename_i f
    obtain ⟨hpiece, hne, hhead⟩ := hf f rfl
    split
    · rename_i hm
      refine .ok ⟨⟨hkey, hunmarked, ?_⟩, hprefix⟩
      rintro _ ⟨⟩
      exact ⟨hne, hpiece, hhead, fun _ => dropMark?_eq_none hm⟩
    · exact .error
    · rename_i f' hne' hm
      obtain ⟨q, rfl, rfl⟩ := dropMark?_eq_some hm
      have hq : trimEnd q <+: q ++ [';'] := (trimEnd_isPrefix q).trans (List.prefix_append q [';'])
      refine .ok ⟨⟨hkey, nofun, ?_⟩, hprefix⟩
      rintro _ ⟨⟩
      exact ⟨hne', hpiece.trimEnd (List.prefix_append q [';']),
        fun hc => hhead (mem_head?_of_isPrefix hq hc), nofun⟩

/-- What is parsed is clean, and its key begins the text. -/
theorem yields_parse {inContext : Bool} {text : List Char} (h : Uncut '-' '>' text) :
    Yields (fun term => term.Clean ∧ term.key <+: trimStart text) (parse inContext text) := by
  have hpart : ∀ {p}, p ∈ splitPair ':' ':' text → p <:+: text → Piece (trim p) := fun hp hi =>
    piece_trim (h.of_isInfix hi) (uncut_of_mem_splitPair hp)
  have hkey : ∀ {p}, p <+: text → trim p <+: trimStart text := fun hp =>
    (trim_isPrefix _).trans (trimStart_mono hp)
  rw [parse]
  split
  · rename_i key hsplit
    obtain ⟨hfirst, -⟩ := infix_of_splitPair hsplit
    have hk := hpart (hsplit ▸ List.mem_cons_self) hfirst.isInfix
    exact fun term ht => (yields_ofParts hk (by simp) term ht).imp_right (·.trans (hkey hfirst))
  · rename_i key format hsplit
    obtain ⟨hfirst, hrest⟩ := infix_of_splitPair hsplit
    have hk := hpart (hsplit ▸ List.mem_cons_self) hfirst.isInfix
    have hf := hpart (hsplit ▸ List.mem_cons_of_mem _ List.mem_cons_self)
      (hrest format List.mem_cons_self)
    dsimp only
    split
    · exact .error
    · rename_i hne
      simp only [Bool.or_eq_true, decide_eq_true_eq, not_or] at hne
      refine fun term ht => (yields_ofParts hk ?_ term ht).imp_right (·.trans (hkey hfirst))
      rintro _ ⟨⟩
      exact ⟨hf, by simpa using hne.1.1, hne.1.2⟩
  · exact .error

theorem yields_parseKeyed_clean {inContext : Bool} {text : List Char} (h : Uncut '-' '>' text) :
    Yields (fun term => term.Clean ∧ term.Keyed inContext ∧ term.key <+: trimStart text)
      (parseKeyed inContext text) := by
  have hclean : Yields (fun term => term.Clean ∧ term.key <+: trimStart text)
      (parseKeyed inContext text) := by
    refine (yields_parse h).bind fun term ht => ?_
    split
    · exact .error
    · exact .ok ht
  intro term ht
  exact ⟨(hclean term ht).1, yields_parseKeyed inContext text term ht, (hclean term ht).2⟩

section Marked

variable {s : List Char} {escape : Bool}

private theorem eq_of_mem_mark {c : Char} (h : c ∈ escapeMark escape) : c = ';' := by
  cases escape with
  | false => cases h
  | true => exact List.mem_singleton.1 h

private theorem notMem_mark {c : Char} (h : c ≠ ';') : c ∉ escapeMark escape := fun hm =>
  h (eq_of_mem_mark hm)

private theorem tight_marked (h : Tight s) : Tight (s ++ escapeMark escape) where
  head c hc := by
    cases s with
    | nil =>
      rw [eq_of_mem_mark (List.mem_of_mem_head? hc)]
      rfl
    | cons d s => exact h.head c hc
  ends := h.ends.append fun c hc => by
    rw [eq_of_mem_mark (List.mem_of_mem_getLast? hc)]
    rfl

private theorem uncut_marked {a b : Char} (h : Uncut a b s) (ha : a ≠ ';') (hb : b ≠ ';') :
    Uncut a b (s ++ escapeMark escape) :=
  h.append_of_head (uncut_of_notMem (notMem_mark ha)) fun hm =>
    notMem_mark hb (List.mem_of_mem_head? hm)

private theorem dropMark?_marked (h : Ends s) (hs : escape = false → ';' ∉ s.getLast?) :
    dropMark? (s ++ escapeMark escape) = if escape then some s else none := by
  cases escape with
  | false => simpa [escapeMark] using dropMark?_of_unmarked (hs rfl)
  | true => exact dropMark?_mark h

end Marked

variable {l r : List Char}

theorem Keyed.nonempty {inContext : Bool} {term : Term} (h : term.Keyed inContext)
    (more : List Char) : ((term.key ++ more).isEmpty && !inContext) = false := by
  cases inContext with
  | true => simp
  | false => simp [h rfl]

/-- **A term is read back from its spelling**, with any blanks around it. -/
theorem parseKeyed_spelling {inContext : Bool} {term : Term} (h : term.Clean)
    (hk : term.Keyed inContext) (hb : ∀ c ∈ l, c = ' ') (ha : ∀ c ∈ r, c = ' ') :
    parseKeyed inContext (l ++ term.spelling ++ r) = .ok term := by
  have hkey : Tight (term.key ++ escapeMark term.escape) := tight_marked h.key.tight
  have hcut : Uncut ':' ':' (term.key ++ escapeMark term.escape) :=
    uncut_marked h.key.colons (by decide) (by decide)
  have hdrop := dropMark?_marked h.key.tight.ends h.unmarked
  have hparse : parse inContext (l ++ term.spelling ++ r) = .ok term := by
    obtain ⟨key, format, escape⟩ := term
    cases format with
    | none =>
      have hpadded := uncut_padded hcut hb ha (by decide) (by decide)
      simp only [spelling, List.append_nil, parse, splitPair_of_uncut hpadded,
        trim_spaced hb hkey ha, ofParts, hdrop]
      cases escape <;> simp [escapeMark]
    | some f =>
      obtain ⟨hne, hpiece, hhead, hmark⟩ := h.format f rfl
      have hf : Tight (f ++ escapeMark escape) := tight_marked hpiece.tight
      have hspace : ∀ c ∈ [' '], c = ' ' := by simp
      have hfirst : Uncut ':' ':' (l ++ (key ++ escapeMark escape) ++ [' '] ++ [':']) :=
        (uncut_padded hcut hb hspace (by decide) (by decide)).append_of_last (.singleton _)
          (by simp)
      have hrest : Uncut ':' ':' (f ++ escapeMark escape ++ r) :=
        uncut_padded (l := []) (uncut_marked hpiece.colons (by decide) (by decide)) (by simp)
          ha (by decide) (by decide)
      have hsplit : splitPair ':' ':' (l ++ spelling ⟨key, some f, escape⟩ ++ r) =
          [l ++ (key ++ escapeMark escape) ++ [' '], f ++ escapeMark escape ++ r] := by
        rw [← splitPair_of_uncut hrest, ← splitPair_append hfirst]
        simp [spelling, Directive.symbol]
      have htrim : trim (f ++ escapeMark escape ++ r) = f ++ escapeMark escape :=
        trim_spaced (l := []) (by simp) hf ha
      have hcond : ((f ++ escapeMark escape).isEmpty || (f ++ escapeMark escape).head? = some ':' ||
          ((key ++ escapeMark escape).isEmpty && !inContext)) = false := by
        rw [hk.nonempty]
        cases f with
        | nil => exact absurd rfl hne
        | cons c f => simpa using hhead
      simp only [parse, hsplit, trim_spaced hb hkey hspace, htrim, hcond, Bool.false_eq_true,
        if_false, ofParts.eq_def, hdrop, dropMark?_marked hpiece.tight.ends hmark]
      cases escape with
      | false => simp [escapeMark]
      | true =>
        cases f with
        | nil => exact absurd rfl hne
        | cons c f => rfl
  have hne := hk.nonempty []
  rw [List.append_nil] at hne
  rw [parseKeyed, hparse]
  exact if_neg (by simp [hne])

private theorem ends_mark (escape : Bool) : Ends (escapeMark escape) :=
  (tight_marked tight_nil).ends

theorem Clean.ends {term : Term} (h : term.Clean) : Ends term.spelling := by
  refine (tight_marked h.key.tight).ends.append ?_
  cases hf : term.format with
  | none => exact tight_nil.ends
  | some f =>
    have hclean := h.format f hf
    exact (Ends.append_of_ne hclean.nonempty hclean.piece.tight.ends _).append (ends_mark _)

theorem Clean.uncut {term : Term} (h : term.Clean) : Uncut '-' '>' term.spelling := by
  have hkey : Uncut '-' '>' (term.key ++ escapeMark term.escape) :=
    uncut_marked h.key.arrow (by decide) (by decide)
  cases hf : term.format with
  | none => simpa [spelling, hf] using hkey
  | some f =>
    have hformat : Uncut '-' '>' ([' ', ':', ':'] ++ f) :=
      (uncut_of_notMem (by decide)).append_of_last (h.format f hf).piece.arrow (by decide)
    rw [spelling, hf]
    exact hkey.append_of_head (uncut_marked hformat (by decide) (by decide)) (by simp)

theorem Clean.tight {term : Term} (h : term.Clean) (hne : term.key ≠ []) : Tight term.spelling where
  head c hc := by
    refine h.key.tight.head c ?_
    obtain ⟨d, key, hkey⟩ := List.exists_cons_of_ne_nil hne
    simpa [spelling, hkey] using hc
  ends := h.ends

theorem spelling_ne_nil {term : Term} (hne : term.key ≠ []) : term.spelling ≠ [] := by
  simp [spelling, hne]

end Term

end TextTemplate
