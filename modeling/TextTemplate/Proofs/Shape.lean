import TextTemplate.Proofs.Spelling
import TextTemplate.Proofs.Walk

/-!
The shape of parsed trees. What stands as a key or as a format has no blank at either end and no
mark inside at which it would have been cut, and the head of a section agrees with the tag that
opened it. This is shown of one tag and carried by one token after the other through the open
sections, so it holds at every depth.
-/
namespace TextTemplate

namespace Text

/-- A pair never occurs in a text just when it is no piece of it. -/
theorem uncut_iff {a b : Char} {s : List Char} : Uncut a b s ↔ ¬ [a, b] <:+: s := by
  constructor
  · intro h hpair
    exact (List.isChain_cons.1 (h.of_isInfix hpair)).1 b rfl ⟨rfl, rfl⟩
  · intro h
    induction s with
    | nil => exact .nil
    | cons c s ih =>
      have hsuffix : s <:+: c :: s := (List.suffix_cons c s).isInfix
      refine List.isChain_cons.2 ⟨?_, ih fun hpair => h (hpair.trans hsuffix)⟩
      rintro d hd ⟨rfl, rfl⟩
      obtain ⟨rest, rfl⟩ := List.head?_eq_some_iff.1 hd
      exact h (List.prefix_append [c, d] rest).isInfix

/-- A text that trimming and cutting a tag leave whole. -/
structure Whole (text : String) : Prop where
  tight : Tight text.toList
  unlinked : ¬ Directive.passContext.symbol.toList <:+: text.toList
  unformatted : ¬ Directive.format.symbol.toList <:+: text.toList

theorem Piece.whole {text : String} (h : Piece text.toList) : Whole text :=
  ⟨h.tight, uncut_iff.1 h.arrow, uncut_iff.1 h.colons⟩

end Text

open Text

/-- A key as it stands in a parsed tree. Only one seen from the enclosing scope may be empty. -/
structure Key.Shaped (key : Key) : Prop where
  named : key.inContext = false → key.text ≠ ""
  whole : Whole key.text
  joined : ".".intercalate key.segments = key.text
  dotless : Dotless key.segments

private theorem Key.shaped_of_term {key : Key} {format : Option (List Char)} {escape : Bool}
    (hkey : key = .ofPath key.text key.inContext)
    (hclean : Term.Clean ⟨key.text.toList, format, escape⟩)
    (hkeyed : Term.Keyed key.inContext ⟨key.text.toList, format, escape⟩) : key.Shaped := by
  have hsegments : key.segments = splitPath key.text := congrArg Key.segments hkey
  refine ⟨fun hin hempty => hkeyed hin ?_, hclean.key.whole, ?_, ?_⟩
  · simp [hempty]
  · rw [hsegments, intercalate_splitPath]
  · rw [hsegments]
    exact dotless_splitPath key.text

/-- A format as it stands in a parsed tree. -/
structure FormatShaped (format : String) : Prop where
  named : format ≠ ""
  whole : Whole format

theorem formatShaped_of_term {term : Term} {format : Option String} (hclean : term.Clean)
    (hformat : term.format = format.map String.toList) : ∀ f ∈ format, FormatShaped f := by
  intro f hf
  have hmem : f.toList ∈ term.format := by
    rw [hformat, hf]
    exact rfl
  have hpart := hclean.format _ hmem
  exact ⟨fun hempty => hpart.nonempty (by simp [hempty]), hpart.piece.whole⟩

structure Link.Shaped (link : Link) : Prop where
  key : link.key.Shaped
  format : ∀ f ∈ link.format, FormatShaped f

theorem Link.Clean.shaped {link : Link} (h : link.Clean) : link.Shaped :=
  ⟨Key.shaped_of_term h.key h.term h.keyed, formatShaped_of_term h.term rfl⟩

/-- The parts of a tag, whatever it is a tag for. -/
structure Tag.PartsShaped (tag : Tag) : Prop where
  key : tag.key.Shaped
  links : ∀ link ∈ tag.links, link.Shaped
  format : ∀ f ∈ tag.format, FormatShaped f

theorem Tag.Clean.partsShaped {tag : Tag} (h : tag.Clean) : tag.PartsShaped :=
  ⟨Key.shaped_of_term h.key h.term h.keyed, fun link hl => (h.links link hl).shaped,
    formatShaped_of_term h.term rfl⟩

theorem Tag.clean_of_parse {raw content : String} {tag : Tag} (h : parse raw content = .ok tag)
    (hshown : tag.directive ≠ some .comment) : tag.Clean := by
  cases (parsed_of_parse h).1 with
  | comment => exact absurd rfl hshown
  | tag _ clean => exact clean

/-- A tag that stands for a value, or for a list of values. -/
structure Tag.Shaped (tag : Tag) : Prop extends tag.PartsShaped where
  directive : tag.directive = none ∨ tag.directive = some .list

/-- The directives that neither open a section nor take a tag out of the tree leave the list. -/
theorem Directive.Leads.eq_list {d : Directive} (h : d.Leads)
    (hplain : d ≠ .comment ∧ d ≠ .inclusion ∧ d ≠ .sectionEnd ∧ d.opensSection = false) :
    d = .list := by
  cases d <;> simp_all [Leads, isLeadingMark, opensSection]

theorem Tag.Clean.shaped {tag : Tag} (h : tag.Clean) (hplain : ∀ d, tag.directive = some d →
    d ≠ .comment ∧ d ≠ .inclusion ∧ d ≠ .sectionEnd ∧ d.opensSection = false) : tag.Shaped where
  toPartsShaped := h.partsShaped
  directive := by
    cases hd : tag.directive with
    | none => exact .inl rfl
    | some d => exact .inr (congrArg some ((h.leads d hd).eq_list (hplain d hd)))

structure Inclusion.Shaped (inclusion : Inclusion) : Prop where
  key : inclusion.key.Shaped
  format : ∀ f ∈ inclusion.format, FormatShaped f

private theorem Inclusion.shaped_of_ofTag {tag : Tag} {inclusion : Inclusion} (h : tag.PartsShaped)
    (hbuilt : Inclusion.ofTag tag = .ok inclusion) : inclusion.Shaped := by
  rw [Inclusion.ofTag] at hbuilt
  split at hbuilt
  · cases hbuilt
    exact ⟨h.key, h.format⟩
  · cases hbuilt

/-- The head of a section and the tag that opened it. -/
structure Section.Shaped (head : Section) : Prop where
  opener : head.opener.PartsShaped
  directive : head.opener.directive = some .sectionInclude ∨
    head.opener.directive = some .sectionExclude ∨ head.opener.directive = some .listSection ∨
    head.opener.directive = some .passSection
  bare : head.opener.format = none ∧ head.opener.escape = false
  key : head.key = head.opener.key
  inclusive : head.inclusive = false ↔ head.opener.directive = some .sectionExclude
  list : head.list = true ↔ head.opener.directive = some .listSection
  passesText : head.passesText = true ↔ head.opener.directive = some .passSection
  /-- Text that is passed goes through the function at the section's own key first. -/
  links : head.links =
    if head.passesText then ⟨head.key, none, false⟩ :: head.opener.links else head.opener.links
  linksShaped : ∀ link ∈ head.links, link.Shaped

theorem Directive.eq_of_opensSection {d : Directive} (h : d.opensSection = true) :
    d = .sectionInclude ∨ d = .sectionExclude ∨ d = .listSection ∨ d = .passSection := by
  cases d <;> simp_all [opensSection]

private theorem Section.shaped_of_ofTag {tag : Tag} {d : Directive} {head : Section} (h : tag.Clean)
    (hdirective : tag.directive = some d) (hopens : d.opensSection = true)
    (hbuilt : Section.ofTag tag = .ok head) : head.Shaped := by
  have hparts := h.partsShaped
  have hown : Link.ofKey tag.key = ⟨tag.key, none, false⟩ := by
    rw [Link.ofKey, ← h.key]
  rw [Section.ofTag] at hbuilt
  split at hbuilt
  · cases hbuilt
  · rename_i hformat
    split at hbuilt
    · cases hbuilt
    · rename_i hescape
      cases hbuilt
      refine ⟨hparts, ?_, ⟨by simpa using hformat, by simpa using hescape⟩, rfl, ?_, ?_, ?_, ?_, ?_⟩
      · simpa [hdirective] using Directive.eq_of_opensSection hopens
      · simp [Section.inclusive]
      · simp [Section.list]
      · simp [Section.passesText]
      · simp [Section.passesText, hown]
      · intro link hlink
        split at hlink
        · rcases List.mem_cons.1 hlink with rfl | hlink
          · rw [hown]
            exact ⟨hparts.key, by simp⟩
          · exact hparts.links link hlink
        · exact hparts.links link hlink

namespace Node

/-- Every part of a tree is shaped, at every depth. -/
abbrev AllShaped : List Node → Prop := EveryOf Tag.Shaped Inclusion.Shaped Section.Shaped

variable {frames frames' : List Frame} {level level' nodes : List Node} {token : Token}
  {tokens : List Token}

/-- Open sections and the nodes around them are shaped. -/
def FramesShaped (frames : List Frame) : Prop :=
  ∀ frame ∈ frames, frame.head.Shaped ∧ AllShaped frame.outer

/-- A token keeps what is built so far in shape. -/
theorem Takes.shaped (h : Takes frames level token frames' level') (hframes : FramesShaped frames)
    (hlevel : AllShaped level) : FramesShaped frames' ∧ AllShaped level' := by
  cases h with
  | text shown => exact ⟨hframes, hlevel.pushText shown⟩
  | comment => exact ⟨hframes, hlevel⟩
  | tag parsed plain =>
    have hclean := Tag.clean_of_parse parsed fun hd => (plain _ hd).1 rfl
    exact ⟨hframes, hclean.shaped plain, hlevel⟩
  | inclusion parsed directive built =>
    have hclean := Tag.clean_of_parse parsed (by simp [directive])
    exact ⟨hframes, Inclusion.shaped_of_ofTag hclean.partsShaped built, hlevel⟩
  | @opens _ _ _ _ _ d head parsed directive opener built =>
    have hshown : d ≠ .comment := by
      rintro rfl
      cases opener
    have hclean := Tag.clean_of_parse parsed (by simpa [directive] using hshown)
    refine ⟨fun frame hframe => ?_, trivial⟩
    rcases List.mem_cons.1 hframe with rfl | hframe
    · exact ⟨Section.shaped_of_ofTag hclean directive opener built, hlevel⟩
    · exact hframes frame hframe
  | @closes frame frames level _ _ _ parsed directive key =>
    obtain ⟨hhead, houter⟩ := hframes frame List.mem_cons_self
    exact ⟨fun other hmem => hframes other (List.mem_cons_of_mem _ hmem),
      ⟨hhead, hlevel.reverse⟩, houter⟩

private theorem shaped_of_assemble (h : assemble frames level tokens = .ok nodes)
    (hframes : FramesShaped frames) (hlevel : AllShaped level) : AllShaped nodes := by
  induction tokens generalizing frames level with
  | nil =>
    cases frames with
    | nil =>
      cases h
      exact hlevel.reverse
    | cons frame frames => cases h
  | cons token tokens ih =>
    obtain ⟨frames', level', htakes, hrest⟩ := takes_of_assemble h
    obtain ⟨hframes', hlevel'⟩ := htakes.shaped hframes hlevel
    exact ih hrest hframes' hlevel'

/-- **Every parsed tree is well made**, whatever the source and the delimiters. -/
theorem allShaped_of_parse {source : String} {d : Delimiters} (h : parse source d = .ok nodes) :
    AllShaped nodes :=
  shaped_of_assemble h (by simp [FramesShaped]) trivial

/-- A section whose text is passed on, with a list and another template inside. -/
theorem allShaped_of_parse_passSection :
    ∃ nodes, parse "{{#->.wrap -> a.b ::upper}}{{& xs ::list; -> f}}{{>.row}}{{/.wrap}}"
        Delimiters.default = .ok nodes ∧ nodes.length = 1 ∧ AllShaped nodes := by
  have hparses : (parse "{{#->.wrap -> a.b ::upper}}{{& xs ::list; -> f}}{{>.row}}{{/.wrap}}"
      Delimiters.default).toOption.map List.length = some 1 := by decide +kernel
  cases hparse : parse "{{#->.wrap -> a.b ::upper}}{{& xs ::list; -> f}}{{>.row}}{{/.wrap}}"
      Delimiters.default with
  | error e =>
    rw [hparse] at hparses
    cases hparses
  | ok nodes =>
    rw [hparse] at hparses
    exact ⟨nodes, rfl, Option.some.inj hparses, allShaped_of_parse hparse⟩

end Node

end TextTemplate
