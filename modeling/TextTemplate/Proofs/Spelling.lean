import TextTemplate.Proofs.Spelling.Tags

/-!
Tags are read back from their spellings. Parsing gives the tag that was spelled, so no two tags of one
source text have the same spelling.
-/
namespace TextTemplate

open Text

namespace Tag

/-- A key and its links are read back, with any blanks in front. -/
theorem parseTerms_spelling {inContext : Bool} {term : Term} {links : List Link}
    {before : List Char} (h : term.Clean) (hk : term.Keyed inContext)
    (hl : ∀ link ∈ links, link.Clean) (hb : ∀ c ∈ before, c = ' ') :
    parseTerms inContext (before ++ term.spelling ++ spellLinks links) = .ok (term, links) := by
  have hhead : Uncut '-' '>' (before ++ term.spelling) := by
    simpa using uncut_padded (r := []) h.uncut hb (by simp) (by decide) (by decide)
  rw [parseTerms.eq_def, splitPair_links hhead hl]
  cases links with
  | nil =>
    have hparse := Term.parseKeyed_spelling (r := []) h hk hb (by simp)
    rw [List.append_nil] at hparse
    simp only [spellLinks, List.flatMap_nil, List.append_nil, spelledParts, hparse]
    rfl
  | cons link links =>
    have hparse := Term.parseKeyed_spelling (r := [' ']) h hk hb (by simp)
    have hlinks := parse_spelledParts hl
    obtain ⟨part, parts, hparts⟩ :=
      List.exists_cons_of_ne_nil (spelledParts_ne_nil (' ' :: link.spelling) links)
    have hcond : ((trim (before ++ term.spelling ++ [' '])).isEmpty && !inContext) = false := by
      cases inContext with
      | true => simp
      | false =>
        rw [trim_spaced hb (h.tight (hk rfl)) (by simp)]
        simp [Term.spelling_ne_nil (hk rfl)]
    rw [hparts] at hlinks
    rw [spelledParts, hparts]
    simp only [hcond, hlinks, hparse]
    rfl

theorem ends_spellLinks {links : List Link} (hl : ∀ link ∈ links, link.Clean) :
    Ends (spellLinks links) := by
  induction links with
  | nil => exact tight_nil.ends
  | cons link links ih =>
    have hclean := hl link List.mem_cons_self
    rw [spellLinks, List.flatMap_cons]
    refine Ends.append ?_ (ih fun l hm => hl l (List.mem_cons_of_mem _ hm))
    exact Ends.append_of_ne hclean.ne_nil hclean.tight.ends [' ', '-', '>', ' ']

section Content

variable {content : List Char} {d : Directive}

private theorem parseContent_of_bare (raw : String) (ht : Tight content) (hne : content ≠ [])
    (hl : Directive.leading? content = none) :
    parseContent raw content = parseChars raw none content := by
  rw [parseContent, trim_of_tight ht, if_neg (by simpa using hne), hl]

private theorem parseContent_of_leading (raw : String) (ht : Tight content) (hne : content ≠ [])
    (hl : Directive.leading? content = some d) (hshown : d ≠ .comment) :
    parseContent raw content = parseChars raw (some d) (content.drop d.symbol.length) := by
  rw [parseContent, trim_of_tight ht, if_neg (by simpa using hne), hl]
  cases d with
  | comment => exact absurd rfl hshown
  | _ => rfl

end Content

section Clean

variable {tag : Tag} (h : tag.Clean)
include h

theorem Clean.ends : Ends (tag.term.spelling ++ spellLinks tag.links) :=
  h.term.ends.append (ends_spellLinks h.links)

theorem Clean.cons_of_absolute (hin : tag.key.inContext = false) :
    ∃ c rest, tag.term.spelling ++ spellLinks tag.links = c :: rest ∧
      c ∈ tag.key.text.toList.head? := by
  obtain ⟨c, key, hkey⟩ := List.exists_cons_of_ne_nil (h.keyed hin)
  have hfirst : c ∈ tag.key.text.toList.head? := by
    rw [show tag.key.text.toList = c :: key from hkey]
    rfl
  exact ⟨c, _, by rw [Term.spelling, hkey]; rfl, hfirst⟩

/-- What follows the directive is read back. -/
theorem Clean.parseChars_eq {before text : List Char} (hb : ∀ c ∈ before, c = ' ')
    (hread : readInContext text =
      (tag.key.inContext, before ++ (tag.term.spelling ++ spellLinks tag.links))) :
    parseChars tag.raw tag.directive text = .ok tag := by
  have hterms : parseTerms tag.key.inContext
      (before ++ (tag.term.spelling ++ spellLinks tag.links)) = .ok (tag.term, tag.links) := by
    rw [← List.append_assoc]
    exact parseTerms_spelling h.term h.keyed h.links hb
  have hkey : Key.ofPath (String.ofList tag.term.key) tag.key.inContext = tag.key := by
    rw [show String.ofList tag.term.key = tag.key.text from String.ofList_toList, ← h.key]
  have hformat : tag.term.format.map String.ofList = tag.format := by
    rw [Tag.term]
    cases tag.format <;> simp
  rw [parseChars, hread]
  dsimp only
  rw [hterms]
  change Except.ok _ = _
  simp only [hkey, hformat]
  rfl

/-- A tag without a directive is read back. -/
private theorem Clean.parseContent_plain (hd : tag.directive = none) :
    parseContent tag.raw ((if tag.key.inContext then ['.'] else [' ']) ++
      (tag.term.spelling ++ spellLinks tag.links)) = .ok tag := by
  cases hin : tag.key.inContext with
  | true =>
    have hdot : Tight ['.'] := tight_singleton rfl
    have htight : Tight ('.' :: (tag.term.spelling ++ spellLinks tag.links)) :=
      ⟨hdot.head, hdot.ends.append h.ends⟩
    have hleading := Directive.leading?_of_cons (show Directive.leading? ['.'] = none by decide)
      (tag.term.spelling ++ spellLinks tag.links)
    change parseContent tag.raw ('.' :: (tag.term.spelling ++ spellLinks tag.links)) = _
    have hread : readInContext ('.' :: (tag.term.spelling ++ spellLinks tag.links)) =
        (tag.key.inContext, [] ++ (tag.term.spelling ++ spellLinks tag.links)) := by
      rw [hin]
      rfl
    have hparse := h.parseChars_eq (by simp) hread
    rw [hd] at hparse
    exact (parseContent_of_bare _ htight (List.cons_ne_nil _ _) hleading).trans hparse
  | false =>
    obtain ⟨c, rest, hbody, hc⟩ := h.cons_of_absolute hin
    obtain ⟨hdot, hmark⟩ := h.head hd hin c hc
    have htight : Tight (tag.term.spelling ++ spellLinks tag.links) := by
      refine ⟨fun d hd' => ?_, h.ends⟩
      rw [hbody] at hd'
      obtain rfl : c = d := Option.some.inj hd'
      exact h.term.key.tight.head c hc
    have htrim : trim ([' '] ++ (tag.term.spelling ++ spellLinks tag.links)) = c :: rest := by
      rw [← hbody]
      simpa using trim_spaced (l := [' ']) (r := []) (by simp) htight (by simp)
    have hread : readInContext (c :: rest) =
        (tag.key.inContext, [] ++ (tag.term.spelling ++ spellLinks tag.links)) := by
      rw [hin, hbody]
      exact readInContext_of_head fun hm => hdot (Option.some.inj hm)
    have hparse := h.parseChars_eq (by simp) hread
    rw [hd] at hparse
    simp only [Bool.false_eq_true, if_false]
    rw [parseContent, htrim, Directive.leading?_of_cons hmark rest]
    exact hparse

/-- A tag with a directive is read back. -/
private theorem Clean.parseContent_directed {d : Directive} (hd : tag.directive = some d)
    (hshown : d ≠ .comment) :
    parseContent tag.raw (d.symbol.toList ++ ((if tag.key.inContext then ['.'] else [' ']) ++
      (tag.term.spelling ++ spellLinks tag.links))) = .ok tag := by
  generalize hbody : tag.term.spelling ++ spellLinks tag.links = body
  obtain ⟨c, before, hc, hb, hends, hread⟩ : ∃ c before, (c = ' ' ∨ c = '.') ∧
      (∀ c ∈ before, c = ' ') ∧ Ends (c :: body) ∧
      (if tag.key.inContext then ['.'] else [' ']) ++ body = c :: body ∧
      readInContext (c :: body) = (tag.key.inContext, before ++ body) := by
    cases hin : tag.key.inContext with
    | true =>
      have hdot : Tight ['.'] := tight_singleton rfl
      exact ⟨'.', [], .inr rfl, by simp, hdot.ends.append (hbody ▸ h.ends), rfl, rfl⟩
    | false =>
      obtain ⟨c, rest, hcons, -⟩ := h.cons_of_absolute hin
      have hne : body ≠ [] := by simp [← hbody, hcons]
      exact ⟨' ', [' '], .inl rfl, by simp, Ends.append_of_ne hne (hbody ▸ h.ends) [' '], rfl, rfl⟩
  obtain ⟨htext, hread⟩ := hread
  have htight : Tight (d.symbol.toList ++ c :: body) := by
    refine ⟨fun a ha => ?_, Ends.append_of_ne (List.cons_ne_nil c body) hends _⟩
    have hfirst : a ∈ d.symbol.toList.head? := by
      cases d <;> exact ha
    cases d <;> (obtain rfl := Option.some.inj hfirst; rfl)
  have hparse := h.parseChars_eq hb (hbody ▸ hread)
  have hdrop : (d.symbol.toList ++ c :: body).drop d.symbol.length = c :: body := by
    simp [← String.length_toList]
  rw [hd, hbody, ← hdrop] at hparse
  rw [htext]
  exact (parseContent_of_leading _ htight (by simp) (Directive.leading?_symbol (h.leads d hd) hc body)
    hshown).trans hparse

end Clean

/-- A comment is read back, also an empty one. -/
private theorem parseContent_comment (raw : String) {text : List Char} (h : Tight text) :
    parseContent raw ('!' :: ' ' :: text) = .ok (comment raw text) := by
  cases text with
  | nil => rfl
  | cons c text =>
    have hmark : Tight ['!'] := tight_singleton rfl
    have htight : Tight ('!' :: ' ' :: c :: text) :=
      ⟨hmark.head, Ends.append_of_ne (List.cons_ne_nil c text) h.ends ['!', ' ']⟩
    have hleading : Directive.leading? ('!' :: ' ' :: c :: text) = some .comment :=
      Directive.leading?_symbol (d := .comment) (.inr (.inr rfl)) (.inl rfl) (c :: text)
    have htext : trim (' ' :: c :: text) = c :: text := by
      simpa using trim_spaced (l := [' ']) (r := []) (by simp) h (by simp)
    rw [parseContent, trim_of_tight htight, if_neg (by simp), hleading]
    exact congrArg (fun text => Except.ok (comment raw text)) htext

private theorem Parsed.parseContent_spelling {tag : Tag} (h : tag.Parsed) :
    parseContent tag.raw tag.spelling.toList = .ok tag := by
  cases h with
  | @comment raw text tight =>
    have hspelling : (Tag.comment raw text).spelling.toList = '!' :: ' ' :: text := by
      simp [spelling, Tag.comment, Directive.symbol]
    rw [hspelling]
    exact parseContent_comment raw tight
  | tag shown clean =>
    rw [spelling, String.toList_ofList, if_neg shown]
    cases hd : tag.directive with
    | none => exact clean.parseContent_plain hd
    | some d =>
      rw [List.append_assoc]
      exact clean.parseContent_directed hd fun he => shown (by rw [hd, he])

/-- How a tag is parsed has nothing to do with its source text. -/
theorem Parsed.withRaw {tag : Tag} (h : tag.Parsed) (raw : String) :
    { tag with raw := raw }.Parsed := by
  cases h with
  | comment _ tight => exact .comment raw tight
  | tag shown clean =>
    exact .tag shown ⟨clean.term, clean.keyed, clean.key, clean.links, clean.leads, clean.head⟩

theorem parsed_of_parse {raw content : String} {tag : Tag} (h : parse raw content = .ok tag) :
    tag.Parsed ∧ tag.raw = String.ofList (trim raw.toList) :=
  Yields.mapError (yields_parseContent _ content.toList) tag h

/-- Parsing undoes spelling: a parsed tag is read back from its spelling, and tags with one spelling
are the same up to their source text. -/
theorem parse_spelling {raw content : String} {tag : Tag} (h : parse raw content = .ok tag) :
    parse raw tag.spelling = .ok tag ∧
      ∀ {raw' content' : String} {tag' : Tag}, parse raw' content' = .ok tag' →
        tag'.spelling = tag.spelling → tag' = { tag with raw := tag'.raw } := by
  obtain ⟨hparsed, hraw⟩ := parsed_of_parse h
  refine ⟨?_, fun {raw' content' tag'} h' hsame => ?_⟩
  · rw [parse, ← hraw, hparsed.parseContent_spelling]
    rfl
  · have hback := (parsed_of_parse h').1.parseContent_spelling
    have hagain := (hparsed.withRaw tag'.raw).parseContent_spelling
    rw [hsame] at hback
    exact Except.ok.inj (hback.symm.trans hagain)

/-- Both ways of writing a tag lead to the longer one. -/
theorem parse_spelling_of_links :
    ∃ tag, parse "\x7b\x7b&.names ::list; -> greet ::upper; -> .wrap\x7d\x7d"
        "&.names ::list; -> greet ::upper; -> .wrap" = .ok tag ∧
      tag.spelling = "&.names; ::list; -> greet; ::upper; -> .wrap" ∧
      parse "\x7b\x7b&.names ::list; -> greet ::upper; -> .wrap\x7d\x7d"
        "&.names; ::list; -> greet; ::upper; -> .wrap" = .ok tag := by
  refine ⟨_, rfl, by decide +kernel, ?_⟩
  exact (parse_spelling (show parse _ "&.names ::list; -> greet ::upper; -> .wrap" = _ from rfl)).1

end Tag

end TextTemplate
