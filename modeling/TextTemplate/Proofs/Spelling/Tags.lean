import TextTemplate.Proofs.Spelling.Links

/-!
How a tag is written, and tags as parsing leaves them. Every tag has one spelling: its directive, a dot
or a blank, its key with the mark of escaping and the format, and after each arrow a link in the same
form.
-/
namespace TextTemplate

namespace Tag

def term (tag : Tag) : Term := ⟨tag.key.text.toList, tag.format.map String.toList, tag.escape⟩

/-- What stands between the delimiters of a tag when it is written out. -/
def spelling (tag : Tag) : String :=
  String.ofList <|
    if tag.directive = some .comment then
      Directive.comment.symbol.toList ++ ' ' :: tag.key.text.toList
    else
      (tag.directive.elim [] fun d => d.symbol.toList) ++
        (if tag.key.inContext then Directive.inContext.symbol.toList else [' ']) ++
        (tag.term.spelling ++ spellLinks tag.links)

example : spelling ⟨"", some .list, .ofPath "names" true, [⟨.ofPath "greet" false, some "upper", true⟩],
    none, false⟩ = "&.names -> greet; ::upper;" := by decide +kernel

end Tag

open Text

namespace Directive

/-- The directives that stand in front of a tag. -/
def Leads (d : Directive) : Prop := d = listSection ∨ d = passSection ∨ d.isLeadingMark = true

theorem leads_of_leading? {content : List Char} {d : Directive} (h : leading? content = some d) :
    d.Leads := by
  rw [leading?] at h
  split at h
  · exact .inl (Option.some.inj h).symm
  · split at h
    · exact .inr (.inl (Option.some.inj h).symm)
    · obtain ⟨c, -, hc⟩ := Option.bind_eq_some_iff.1 h
      exact .inr (.inr (Option.filter_eq_some_iff.1 hc).2)

/-- A directive is read back when a blank or a dot follows. -/
theorem leading?_symbol {d : Directive} (h : d.Leads) {c : Char} (hc : c = ' ' ∨ c = '.')
    (rest : List Char) : leading? (d.symbol.toList ++ c :: rest) = some d := by
  rcases hc with rfl | rfl <;> cases d <;> first | rfl | (simp [Leads, isLeadingMark] at h)

/-- Whether there is a directive is up to the first character. -/
theorem leading?_of_cons {c : Char} {rest : List Char} (h : leading? (c :: rest) = none)
    (rest' : List Char) : leading? (c :: rest') = none := by
  have hmark : (ofSymbol? (String.singleton c)).filter isLeadingMark = none := by
    rw [leading?] at h
    split at h
    · cases h
    · split at h
      · cases h
      · exact h
  have hlist : c ≠ '&' := by
    rintro rfl
    exact absurd hmark (by decide)
  have hsection : c ≠ '#' := by
    rintro rfl
    exact absurd hmark (by decide)
  have hlong : (listSection.symbol.toList.isPrefixOf (c :: rest')) = false ∧
      (passSection.symbol.toList.isPrefixOf (c :: rest')) = false := by
    simp [symbol, List.isPrefixOf, hlist.symm, hsection.symm]
  rw [leading?, hlong.1, hlong.2]
  exact hmark

end Directive

namespace Tag

/-- A tag as parsing leaves it, unless it is a comment. -/
structure Clean (tag : Tag) : Prop where
  term : tag.term.Clean
  keyed : tag.term.Keyed tag.key.inContext
  key : tag.key = .ofPath tag.key.text tag.key.inContext
  links : ∀ link ∈ tag.links, link.Clean
  leads : ∀ d ∈ tag.directive, d.Leads
  /-- Nothing in front of a bare key can be taken for more than the key. -/
  head : tag.directive = none → tag.key.inContext = false →
    ∀ c ∈ tag.key.text.toList.head?, c ≠ '.' ∧ Directive.leading? [c] = none

/-- A tag as parsing leaves it. -/
inductive Parsed : Tag → Prop where
  | comment (raw : String) {text : List Char} (tight : Tight text) : Parsed (Tag.comment raw text)
  | tag {tag : Tag} (shown : tag.directive ≠ some .comment) (clean : tag.Clean) : Parsed tag

theorem yields_parseTerms_clean {inContext : Bool} {text : List Char} :
    Yields (fun p => p.1.Clean ∧ p.1.Keyed inContext ∧ p.1.key <+: trimStart text ∧
        ∀ link ∈ p.2, Link.Clean link)
      (parseTerms inContext text) := by
  have hpart : ∀ {p}, p ∈ splitPair '-' '>' text → Uncut '-' '>' p := uncut_of_mem_splitPair
  rw [parseTerms.eq_def]
  split
  · rename_i head name names hsplit
    obtain ⟨hfirst, -⟩ := infix_of_splitPair hsplit
    have hlinks : Yields (fun links => ∀ link ∈ links, Link.Clean link)
        ((name :: names).mapM fun name => Link.parseChars (trim name)) :=
      Yields.mapM fun name hm => Link.yields_parseChars_clean (tight_trim name)
        ((hpart (hsplit ▸ List.mem_cons_of_mem _ hm)).of_isInfix (trim_isInfix name))
    have hrest : Yields (fun p => p.1.Clean ∧ p.1.Keyed inContext ∧ p.1.key <+: trimStart text ∧
          ∀ link ∈ p.2, Link.Clean link)
        (((name :: names).mapM fun name => Link.parseChars (trim name)) >>= fun links =>
          Term.parseKeyed inContext head >>= fun term => pure (term, links)) := by
      refine hlinks.bind fun links hl => ?_
      refine (Term.yields_parseKeyed_clean (hpart (hsplit ▸ List.mem_cons_self))).bind
        fun term ⟨hclean, hkeyed, hprefix⟩ => ?_
      exact .ok ⟨hclean, hkeyed, hprefix.trans (trimStart_mono hfirst), hl⟩
    split
    · exact .error
    · exact hrest
  · rename_i hnot
    obtain ⟨part, parts, hsplit⟩ := List.exists_cons_of_ne_nil (splitPair_ne_nil '-' '>' text)
    cases parts with
    | cons name names => exact absurd hsplit (hnot part name names)
    | nil =>
      have huncut : Uncut '-' '>' text := hpart (by
        rw [hsplit, eq_of_splitPair hsplit]
        exact List.mem_cons_self)
      exact (Term.yields_parseKeyed_clean huncut).map fun term ⟨hclean, hkeyed, hprefix⟩ =>
        ⟨hclean, hkeyed, hprefix, by simp⟩

/-- The tag that a term and links make. -/
theorem clean_of_terms {raw : String} {directive : Option Directive} {inContext : Bool} {term : Term}
    {links : List Link} (hterm : term.Clean) (hkeyed : term.Keyed inContext)
    (hlinks : ∀ link ∈ links, link.Clean) (hleads : ∀ d ∈ directive, d.Leads)
    (hhead : directive = none → inContext = false →
      ∀ c ∈ term.key.head?, c ≠ '.' ∧ Directive.leading? [c] = none) :
    Clean {
      raw
      directive
      key := .ofPath (String.ofList term.key) inContext
      links
      format := term.format.map String.ofList
      escape := term.escape } := by
  obtain ⟨key, format, escape⟩ := term
  have hsame : (format.map String.ofList).map String.toList = format := by
    cases format <;> simp
  refine ⟨?_, ?_, rfl, hlinks, hleads, ?_⟩
  · simpa [Tag.term, Key.ofPath, hsame] using hterm
  · simpa [Tag.term, Key.ofPath, hsame] using hkeyed
  · simpa [Key.ofPath] using hhead

theorem yields_parseChars_clean {raw : String} {directive : Option Directive} {text : List Char}
    (hleads : ∀ d ∈ directive, d.Leads)
    (hplain : directive = none → Tight text ∧ Directive.leading? text = none) :
    Yields (fun tag => tag.Clean ∧ tag.directive = directive ∧ tag.raw = raw)
      (parseChars raw directive text) := by
  rw [parseChars]
  rcases readInContext_cases text with ⟨r, rfl, hread⟩ | ⟨hdot, hread⟩ <;> rw [hread] <;> dsimp only
  · refine yields_parseTerms_clean.bind fun terms hterms => ?_
    obtain ⟨hterm, hkeyed, -, hlinks⟩ := hterms
    refine .ok ⟨clean_of_terms hterm hkeyed hlinks hleads fun _ h => ?_, rfl, rfl⟩
    cases h
  · refine yields_parseTerms_clean.bind fun terms hterms => ?_
    obtain ⟨hterm, hkeyed, hprefix, hlinks⟩ := hterms
    refine .ok ⟨?_, rfl, rfl⟩
    refine clean_of_terms hterm hkeyed hlinks hleads fun hnone _ c hc => ?_
    obtain ⟨htight, hleading⟩ := hplain hnone
    rw [trimStart_of_head htight.head] at hprefix
    have hfirst : c ∈ text.head? := mem_head?_of_isPrefix hprefix hc
    obtain ⟨rest, rfl⟩ : ∃ rest, text = c :: rest := by
      cases text with
      | nil => cases hfirst
      | cons d rest => exact ⟨rest, by rw [Option.some.inj hfirst]⟩
    exact ⟨fun he => hdot (he ▸ rfl), Directive.leading?_of_cons hleading []⟩

theorem yields_parseContent (raw : String) (content : List Char) :
    Yields (fun tag => tag.Parsed ∧ tag.raw = raw) (parseContent raw content) := by
  have htag : ∀ {directive text}, directive ≠ some .comment → (∀ d ∈ directive, d.Leads) →
      (directive = none → Tight text ∧ Directive.leading? text = none) →
      Yields (fun tag => tag.Parsed ∧ tag.raw = raw) (parseChars raw directive text) :=
    fun hshown hleads hplain tag h => by
      obtain ⟨hclean, hdirective, hraw⟩ := yields_parseChars_clean hleads hplain tag h
      exact ⟨.tag (hdirective ▸ hshown) hclean, hraw⟩
  rw [parseContent]
  split
  · exact .ok ⟨.comment raw tight_nil, rfl⟩
  · split
    · exact .ok ⟨.comment raw (tight_trim _), rfl⟩
    · rename_i d hshown hd
      refine htag (fun he => hshown (Option.some.inj he)) ?_ (by simp)
      rintro _ ⟨⟩
      exact Directive.leads_of_leading? hd
    · rename_i hnone
      exact htag (by simp) (by simp) fun _ => ⟨tight_trim content, hnone⟩

end Tag

end TextTemplate
