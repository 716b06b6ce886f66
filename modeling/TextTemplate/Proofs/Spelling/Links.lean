import TextTemplate.Proofs.Spelling.Terms

/-!
How links are written. A link is a term behind an arrow, with a dot in front when its key is in context.
The parts between the arrows are cut where they were put together, so each link is read back.
-/
namespace TextTemplate

namespace Link

def term (link : Link) : Term := ⟨link.key.text.toList, link.format.map String.toList, link.escape⟩

def spelling (link : Link) : List Char :=
  (if link.key.inContext then Directive.inContext.symbol.toList else []) ++ link.term.spelling

end Link

/-- Links as they follow a key, each behind its arrow. -/
def spellLinks (links : List Link) : List Char :=
  links.flatMap fun link => ' ' :: Directive.passContext.symbol.toList ++ ' ' :: link.spelling

open Text

theorem readInContext_cases (s : List Char) :
    (∃ r, s = '.' :: r ∧ readInContext s = (true, r)) ∨
      ('.' ∉ s.head? ∧ readInContext s = (false, s)) := by
  rw [readInContext.eq_def]
  split
  · exact .inl ⟨_, rfl, rfl⟩
  · rename_i hne
    refine .inr ⟨fun hm => ?_, rfl⟩
    cases s with
    | nil => cases hm
    | cons c s =>
      obtain rfl : c = '.' := by simpa using hm
      exact hne s rfl

theorem readInContext_of_head {s : List Char} (h : '.' ∉ s.head?) : readInContext s = (false, s) := by
  rcases readInContext_cases s with ⟨r, rfl, -⟩ | ⟨-, hread⟩
  · simp at h
  · exact hread

namespace Link

/-- A link as parsing leaves it. -/
structure Clean (link : Link) : Prop where
  term : link.term.Clean
  keyed : link.term.Keyed link.key.inContext
  key : link.key = .ofPath link.key.text link.key.inContext
  head : link.key.inContext = false → ∀ c ∈ link.key.text.toList.head?, c ≠ '.' ∧ c ≠ '-' ∧ c ≠ '>'

@[simp] theorem term_ofTerm (inContext : Bool) (term : Term) : (ofTerm inContext term).term = term := by
  cases term with
  | mk key format escape => cases format <;> simp [Link.term, ofTerm, Key.ofPath]

theorem ofTerm_term {link : Link} (h : link.key = .ofPath link.key.text link.key.inContext) :
    ofTerm link.key.inContext link.term = link := by
  obtain ⟨key, format, escape⟩ := link
  simp only at h
  cases format <;> simp [Link.term, ofTerm, ← h]

theorem yields_parseChars_clean {name : List Char} (ht : Tight name) (ha : Uncut '-' '>' name) :
    Yields Clean (parseChars name) := by
  rw [parseChars]
  split
  · exact .error
  · rename_i hname
    simp only [Bool.or_eq_true, decide_eq_true_eq, not_or] at hname
    rcases readInContext_cases name with ⟨r, rfl, hread⟩ | ⟨hdot, hread⟩ <;> rw [hread] <;>
      dsimp only
    · have hr : Uncut '-' '>' r := (List.isChain_cons.1 ha).2
      refine (Term.yields_parseKeyed_clean hr).map fun term hterm => ?_
      obtain ⟨hclean, hkeyed, -⟩ := hterm
      refine ⟨(term_ofTerm true term).symm ▸ hclean, (term_ofTerm true term).symm ▸ hkeyed, rfl, ?_⟩
      intro h
      cases h
    · refine (Term.yields_parseKeyed_clean ha).map fun term hterm => ?_
      obtain ⟨hclean, hkeyed, hprefix⟩ := hterm
      refine ⟨(term_ofTerm false term).symm ▸ hclean, (term_ofTerm false term).symm ▸ hkeyed, rfl,
        fun _ c hc => ?_⟩
      rw [trimStart_of_head ht.head] at hprefix
      have hfirst : c ∈ name.head? :=
        mem_head?_of_isPrefix hprefix (by simpa [ofTerm, Key.ofPath] using hc)
      refine ⟨?_, ?_, ?_⟩ <;> rintro rfl
      · exact hdot hfirst
      · exact hname.1.2 hfirst
      · exact hname.2 hfirst

variable {link : Link}

theorem Clean.ne_nil (h : link.Clean) : link.spelling ≠ [] := by
  cases hin : link.key.inContext with
  | true => simp [spelling, hin, Directive.symbol]
  | false => simp [spelling, hin, Term.spelling_ne_nil (h.keyed hin)]

theorem Clean.tight (h : link.Clean) : Tight link.spelling := by
  rw [spelling]
  cases hin : link.key.inContext with
  | true =>
    have hdot : Tight ['.'] := tight_singleton rfl
    exact ⟨hdot.head, hdot.ends.append h.term.ends⟩
  | false => exact h.term.tight (h.keyed hin)

theorem Clean.uncut (h : link.Clean) : Uncut '-' '>' link.spelling := by
  rw [spelling]
  cases link.key.inContext with
  | true => exact Uncut.append_of_last (.singleton _) h.term.uncut (by decide)
  | false => exact h.term.uncut

/-- **A link is read back from its spelling.** -/
theorem parseChars_spelling (h : link.Clean) : parseChars link.spelling = .ok link := by
  have hparse : Term.parseKeyed link.key.inContext link.term.spelling = .ok link.term := by
    simpa using Term.parseKeyed_spelling (l := []) (r := []) h.term h.keyed (by simp)
      (by simp)
  have hlink : (Term.parseKeyed link.key.inContext link.term.spelling).map
      (ofTerm link.key.inContext) = .ok link := by
    rw [hparse, Except.map, ofTerm_term h.key]
  have hread : readInContext link.spelling = (link.key.inContext, link.term.spelling) ∧
      ∀ c ∈ link.spelling.head?, c ≠ '-' ∧ c ≠ '>' := by
    cases hin : link.key.inContext with
    | true => simp [spelling, hin, Directive.symbol, readInContext]
    | false =>
      have hfirst : ∀ c ∈ link.term.spelling.head?, c ≠ '.' ∧ c ≠ '-' ∧ c ≠ '>' := fun c hc => by
        refine h.head hin c ?_
        obtain ⟨d, key, hkey⟩ := List.exists_cons_of_ne_nil (h.keyed hin)
        have hkey' : link.key.text.toList = d :: key := hkey
        simpa [Term.spelling, hkey, hkey'] using hc
      have hspelling : link.spelling = link.term.spelling := by simp [spelling, hin]
      rw [hspelling]
      exact ⟨readInContext_of_head fun hm => (hfirst _ hm).1 rfl, fun c hc => (hfirst c hc).2⟩
  obtain ⟨hread, hfirst⟩ := hread
  rw [parseChars, if_neg, hread]
  · exact hlink
  · simp only [Bool.or_eq_true, decide_eq_true_eq, not_or]
    exact ⟨⟨by simpa using h.ne_nil, fun hm => (hfirst _ hm).1 rfl⟩, fun hm => (hfirst _ hm).2 rfl⟩

end Link

/-- The parts of a spelling between its arrows, when `head` stands before the first. -/
def spelledParts (head : List Char) : List Link → List (List Char)
  | [] => [head]
  | link :: links => (head ++ [' ']) :: spelledParts (' ' :: link.spelling) links

section Parts

variable {head : List Char} {links : List Link}

theorem spelledParts_ne_nil (head : List Char) (links : List Link) : spelledParts head links ≠ [] := by
  cases links <;> simp [spelledParts]

theorem splitPair_links (hh : Uncut '-' '>' head) (hl : ∀ link ∈ links, link.Clean) :
    splitPair '-' '>' (head ++ spellLinks links) = spelledParts head links := by
  induction links generalizing head with
  | nil => simp [spellLinks, spelledParts, splitPair_of_uncut hh]
  | cons link links ih =>
    have hspace : Uncut '-' '>' (head ++ [' '] ++ ['-']) :=
      (hh.append_of_head (.singleton _) (by decide)).append_of_last (.singleton _) (by simp)
    have hlink : Uncut '-' '>' (' ' :: link.spelling) :=
      Uncut.append_of_last (s := [' ']) (.singleton _) (hl link List.mem_cons_self).uncut (by decide)
    rw [spelledParts, ← ih hlink fun l hm => hl l (List.mem_cons_of_mem _ hm),
      ← splitPair_append hspace]
    simp [spellLinks, Directive.symbol]

/-- The links are read back from the parts behind the arrows. -/
theorem parse_spelledParts {link : Link} (hl : ∀ l ∈ link :: links, Link.Clean l) :
    (spelledParts (' ' :: link.spelling) links).mapM (fun name => Link.parseChars (trim name)) =
      .ok (link :: links) := by
  induction links generalizing link with
  | nil =>
    have hclean := hl link List.mem_cons_self
    have htrim : trim (' ' :: link.spelling) = link.spelling := by
      simpa using trim_spaced (l := [' ']) (r := []) (by simp) hclean.tight (by simp)
    simp only [spelledParts, List.mapM_cons, htrim, Link.parseChars_spelling hclean]
    rfl
  | cons link' links ih =>
    have hclean := hl link List.mem_cons_self
    have htrim : trim (' ' :: link.spelling ++ [' ']) = link.spelling :=
      trim_spaced (l := [' ']) (by simp) hclean.tight (by simp)
    have hrest := ih fun l hm => hl l (List.mem_cons_of_mem _ hm)
    rw [spelledParts, List.mapM_cons, htrim, Link.parseChars_spelling hclean, hrest]
    rfl

end Parts

end TextTemplate
