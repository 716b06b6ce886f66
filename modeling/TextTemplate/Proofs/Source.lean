import TextTemplate.Token
import Mathlib.Data.List.Basic

/-!
How a source is read. Every place of it is a character, a tag, or the exclamation mark that makes the
tag after it text. Reading goes from delimiter to delimiter and looks back at what it has read; the
scan, which never looks back, gives the same characters and tags.
-/
namespace TextTemplate

namespace Text

/-- `word` stands in `s` between `before` and `after`, and nowhere further to the left. -/
structure First (word s before after : List Char) : Prop where
  split : s = before ++ word ++ after
  least : ∀ b a, s = b ++ word ++ a → before.length ≤ b.length

theorem First.cons {word s before after : List Char} {c : Char} (h : First word s before after)
    (hc : ¬ word <+: c :: s) : First word (c :: s) (c :: before) after := by
  constructor
  · rw [h.split]
    rfl
  · intro b a heq
    cases b with
    | nil =>
      exact absurd ⟨a, heq.symm⟩ hc
    | cons x b =>
      simp only [List.cons_append, List.cons.injEq] at heq
      simpa using h.least b a (by simpa using heq.2)

theorem First.unique {word s before after before' after' : List Char}
    (h : First word s before after) (h' : First word s before' after') :
    before = before' ∧ after = after' := by
  have hlength : before.length = before'.length :=
    Nat.le_antisymm (h.least _ _ h'.split) (h'.least _ _ h.split)
  have heq : before ++ (word ++ after) = before' ++ (word ++ after') := by
    simpa using h.split.symm.trans h'.split
  obtain ⟨hb, ha⟩ := List.append_inj heq hlength
  exact ⟨hb, List.append_cancel_left ha⟩

private theorem breakOn_eq_none {word s : List Char} : breakOn word s = none ↔ ¬ word <:+: s := by
  induction s with
  | nil => cases word <;> simp [breakOn]
  | cons c s ih =>
    rw [breakOn]
    split
    · rename_i hp
      have hstart : word <+: c :: s := List.isPrefixOf_iff_prefix.1 hp
      simpa using hstart.isInfix
    · rename_i hp
      have hstart : ¬ word <+: c :: s := fun h => hp (List.isPrefixOf_iff_prefix.2 h)
      rw [Option.map_eq_none_iff, ih, List.infix_cons_iff]
      simp [hstart]

/-- Breaking a text cuts it at the first place where the word stands. -/
theorem first_of_breakOn {word s before after : List Char}
    (h : breakOn word s = some (before, after)) : First word s before after := by
  induction s generalizing before with
  | nil =>
    simp only [breakOn, List.isEmpty_iff] at h
    split at h
    · rename_i hw
      cases h
      exact ⟨by simp [hw], fun _ _ _ => Nat.zero_le _⟩
    · cases h
  | cons c s ih =>
    have hsplit := eq_append_of_breakOn h
    rw [breakOn] at h
    split at h
    · cases h
      exact ⟨hsplit, fun _ _ _ => Nat.zero_le _⟩
    · rename_i hp
      obtain ⟨⟨b, a⟩, hb, heq⟩ := Option.map_eq_some_iff.1 h
      cases heq
      exact (ih hb).cons fun hstart => hp (List.isPrefixOf_iff_prefix.2 hstart)

private theorem breakOn_eq_some {word s before after : List Char} :
    breakOn word s = some (before, after) ↔ First word s before after := by
  constructor
  · exact first_of_breakOn
  · intro h
    cases hb : breakOn word s with
    | none =>
      have hpart : word <:+: s := ⟨before, after, h.split.symm⟩
      exact absurd hpart (breakOn_eq_none.1 hb)
    | some found =>
      obtain ⟨b, a⟩ := found
      obtain ⟨rfl, rfl⟩ := (first_of_breakOn hb).unique h
      rfl

end Text

namespace Delimiters

/-- A tag as it stands in a source. -/
def around (d : Delimiters) (content : List Char) : List Char :=
  d.opening.toList ++ content ++ d.closing.toList

theorem nonempty {d : Delimiters} (hd : d.validate = .ok ()) :
    d.opening.toList ≠ [] ∧ d.closing.toList ≠ [] := by
  rw [validate] at hd
  split at hd
  · cases hd
  · rename_i h
    simpa using h

end Delimiters

namespace Token

variable {d : Delimiters} {source before content rest : List Char}

/-- The next tag goes from the first opening delimiter to the first closing one after it. -/
private theorem findTag?_eq_some : findTag? d source = some (before, content, rest) ↔
    ∃ after, Text.First d.opening.toList source before after ∧
      Text.First d.closing.toList after content rest := by
  simp only [← Text.breakOn_eq_some]
  rw [findTag?]
  simp [Option.bind_eq_some_iff, bind]

theorem eq_of_findTag? (h : findTag? d source = some (before, content, rest)) :
    source = before ++ d.around content ++ rest := by
  obtain ⟨after, hopen, hclose⟩ := findTag?_eq_some.1 h
  rw [hopen.split, hclose.split]
  simp [Delimiters.around]

/-- There is no next tag only when no closing delimiter stands after any opening one. -/
theorem findTag?_eq_none : findTag? d source = none ↔
    ∀ before content rest, source ≠ before ++ d.around content ++ rest := by
  constructor
  · intro h before content rest heq
    have hsource : source = before ++ d.opening.toList ++ (content ++ d.closing.toList ++ rest) := by
      simpa [Delimiters.around] using heq
    cases hopen : Text.breakOn d.opening.toList source with
    | none => exact Text.breakOn_eq_none.1 hopen ⟨before, _, hsource.symm⟩
    | some found =>
      obtain ⟨b, after⟩ := found
      have hfirst := Text.breakOn_eq_some.1 hopen
      -- The first opening delimiter stands no further to the right, so the closing one is after it.
      have hsuffix : content ++ d.closing.toList ++ rest <:+ after := by
        refine List.suffix_of_suffix_length_le ⟨_, hsource.symm⟩ ⟨_, hfirst.split.symm⟩ ?_
        have hleast := hfirst.least _ _ hsource
        have hlength := congrArg List.length (hfirst.split.symm.trans hsource)
        simp only [List.length_append] at hlength ⊢
        omega
      have hclose : d.closing.toList <:+: after :=
        List.IsInfix.trans ⟨content, rest, rfl⟩ hsuffix.isInfix
      cases hbreak : Text.breakOn d.closing.toList after with
      | none => exact Text.breakOn_eq_none.1 hbreak hclose
      | some cut => simp [findTag?, hopen, hbreak, bind] at h
  · intro h
    cases hfound : findTag? d source with
    | none => rfl
    | some found => exact absurd (eq_of_findTag? hfound) (h _ _ _)

theorem length_lt_of_findTag? (hd : d.validate = .ok ())
    (h : findTag? d source = some (before, content, rest)) : rest.length < source.length := by
  have hpos : 0 < d.opening.toList.length := List.length_pos_iff.2 (Delimiters.nonempty hd).1
  have hlength := congrArg List.length (eq_of_findTag? h)
  simp only [Delimiters.around, List.length_append] at hlength
  omega

end Token

/-- What a place in a source is read as. -/
inductive Mark where
  | char (c : Char)
  /-- The exclamation mark in front of a tag that is text. -/
  | escape
  | tag (raw content : List Char)
  deriving DecidableEq, Repr

namespace Mark

/-- The part of the source that a mark stands for. -/
def chars : Mark → List Char
  | char c => [c]
  | escape => ['!']
  | tag raw _ => raw

/-- Reads a tag. It is text if an exclamation mark that is text stands right before it. -/
def addTag (d : Delimiters) (marks : List Mark) (content : List Char) : List Mark :=
  if marks.getLast? = some (char '!') then
    marks.dropLast ++ escape :: (d.around content).map char
  else marks ++ [tag (d.around content) content]

/-- Reads a source, with the marks read so far. The source gets shorter with every tag unless both
delimiters are empty; then it is text. -/
def readFrom (d : Delimiters) (marks : List Mark) (source : List Char) : List Mark :=
  match Token.findTag? d source with
  | none => marks ++ source.map char
  | some (before, content, rest) =>
    if rest.length < source.length then
      readFrom d (addTag d (marks ++ before.map char) content) rest
    else marks ++ source.map char
termination_by source.length

/-- The marks of a source. -/
def read (d : Delimiters) (source : String) : List Mark := readFrom d [] source.toList

variable {d : Delimiters} {marks : List Mark} {source before content rest : List Char}

private theorem readFrom_none (h : Token.findTag? d source = none) :
    readFrom d marks source = marks ++ source.map char := by
  rw [readFrom, h]

private theorem readFrom_some (hd : d.validate = .ok ())
    (h : Token.findTag? d source = some (before, content, rest)) :
    readFrom d marks source = readFrom d (addTag d (marks ++ before.map char) content) rest := by
  rw [readFrom, h]
  exact if_pos (Token.length_lt_of_findTag? hd h)

@[simp] theorem flatMap_chars_map_char (text : List Char) : (text.map char).flatMap chars = text := by
  induction text with
  | nil => rfl
  | cons c text ih =>
    rw [List.map_cons, List.flatMap_cons, ih]
    rfl

theorem flatMap_chars_addTag (marks : List Mark) (content : List Char) :
    (addTag d marks content).flatMap chars = marks.flatMap chars ++ d.around content := by
  rw [addTag]
  split
  · rename_i hlast
    obtain ⟨front, rfl⟩ := List.getLast?_eq_some_iff.1 hlast
    simp [chars]
  · simp [chars]

theorem flatMap_chars_readFrom (marks : List Mark) (source : List Char) :
    (readFrom d marks source).flatMap chars = marks.flatMap chars ++ source := by
  fun_induction readFrom d marks source with
  | case1 marks source h => simp
  | case2 marks source before content rest h hlt ih =>
    rw [ih, flatMap_chars_addTag, Token.eq_of_findTag? h]
    simp
  | case3 marks source => simp

/-- The marks stand for the whole source. -/
theorem flatMap_chars_read (d : Delimiters) (source : String) :
    (read d source).flatMap chars = source.toList :=
  flatMap_chars_readFrom [] source.toList

/-- After every mark of an escape the opening delimiter stands as text, and more after it. -/
def Escaped (d : Delimiters) (marks : List Mark) : Prop :=
  ∀ front back, marks = front ++ escape :: back →
    ∃ mark more, back = d.opening.toList.map char ++ mark :: more

/-- Marks may follow even where nothing but the delimiter stands after an escape. -/
theorem Escaped.concat {more : List Mark} (hne : more ≠ []) (hmore : Escaped d more)
    (h : ∀ front back, marks = front ++ escape :: back → d.opening.toList.map char <+: back) :
    Escaped d (marks ++ more) := by
  intro front back heq
  rcases List.append_eq_append_iff.1 heq with ⟨middle, -, hnew⟩ | ⟨middle, hold, hback⟩
  · exact hmore middle back hnew
  · cases middle with
    | nil => exact hmore [] back hback.symm
    | cons mark middle =>
      rw [List.cons_append, List.cons.injEq] at hback
      obtain ⟨rfl, rfl⟩ := hback
      obtain ⟨tail, rfl⟩ := h front middle hold
      obtain ⟨mark, rest, hrest⟩ := List.exists_cons_of_ne_nil (l := tail ++ more) (by simp [hne])
      exact ⟨mark, rest, by rw [List.append_assoc, hrest]⟩

theorem Escaped.opening (h : Escaped d marks) {front back : List Mark}
    (heq : marks = front ++ escape :: back) : d.opening.toList.map char <+: back := by
  obtain ⟨mark, more, rfl⟩ := h front back heq
  exact List.prefix_append _ _

theorem escaped_of_notMem (h : escape ∉ marks) : Escaped d marks := by
  rintro front back rfl
  simp at h

theorem Escaped.append (h : Escaped d marks) {more : List Mark} (hm : escape ∉ more) :
    Escaped d (marks ++ more) := by
  by_cases hne : more = []
  · rw [hne, List.append_nil]
    exact h
  · exact Escaped.concat hne (escaped_of_notMem hm) fun _ _ => h.opening

/-- A tag that has become text, after the mark of its escape. -/
theorem escaped_around (hd : d.validate = .ok ()) (content : List Char) :
    Escaped d (escape :: (d.around content).map char) := by
  intro front back heq
  cases front with
  | nil =>
    rw [List.nil_append, List.cons.injEq] at heq
    obtain ⟨c, tail, htail⟩ := List.exists_cons_of_ne_nil (l := content ++ d.closing.toList)
      (by simp [(Delimiters.nonempty hd).2])
    refine ⟨char c, tail.map char, ?_⟩
    rw [← heq.2, Delimiters.around, List.append_assoc, htail]
    simp
  | cons mark front =>
    rw [List.cons_append, List.cons.injEq] at heq
    have hmem : escape ∈ (d.around content).map char := by simp [heq.2]
    simp at hmem

theorem Escaped.addTag (hd : d.validate = .ok ()) (h : Escaped d marks) (content : List Char) :
    Escaped d (addTag d marks content) := by
  rw [Mark.addTag]
  split
  · rename_i hlast
    obtain ⟨text, rfl⟩ := List.getLast?_eq_some_iff.1 hlast
    rw [List.dropLast_concat]
    refine Escaped.concat (by simp) (escaped_around hd content) fun front back heq => ?_
    -- Without its last mark the text still has the whole delimiter after an escape.
    obtain ⟨mark, more, hmore⟩ := h front (back ++ [char '!']) (by simp [heq])
    have hopening : d.opening.toList.map char <+: back ++ [char '!'] := by
      rw [hmore]
      exact List.prefix_append _ _
    refine List.prefix_of_prefix_length_le hopening (List.prefix_append _ _) ?_
    · have hlength := congrArg List.length hmore
      simp only [List.length_append, List.length_cons, List.length_nil] at hlength
      omega
  · exact h.append (by simp)

theorem escaped_readFrom (hd : d.validate = .ok ()) (h : Escaped d marks) :
    Escaped d (readFrom d marks source) := by
  fun_induction readFrom d marks source with
  | case1 marks source _ => exact h.append (by simp)
  | case2 marks source before content rest _ _ ih =>
    exact ih ((h.append (by simp)).addTag hd content)
  | case3 marks source => exact h.append (by simp)

end Mark

private theorem Text.dropSuffix?_eq_some {s shown : List Char}
    (h : dropSuffix? ['!'] s = some shown) :
    s = shown ++ ['!'] := by
  rw [dropSuffix?] at h
  split at h
  · rename_i hsuffix
    obtain ⟨front, rfl⟩ := List.isSuffixOf_iff_suffix.1 hsuffix
    simp at h
    rw [h]
  · cases h

private theorem Text.dropSuffix?_eq_none {s : List Char} (h : dropSuffix? ['!'] s = none) :
    s.getLast? ≠ some '!' := by
  rw [dropSuffix?] at h
  split at h
  · cases h
  · rename_i hsuffix
    intro hlast
    obtain ⟨front, rfl⟩ := List.getLast?_eq_some_iff.1 hlast
    exact hsuffix (List.isSuffixOf_iff_suffix.2 (List.suffix_append _ _))

/-- The marks of a token. -/
def Token.marks : Token → List Mark
  | text shown => shown.map .char
  | tag raw content => [.tag raw content]

namespace Mark

variable {d : Delimiters}

/-- The marks without those of the escapes. -/
def visible (marks : List Mark) : List Mark := marks.filter (· ≠ escape)

@[simp] theorem visible_append (marks more : List Mark) :
    visible (marks ++ more) = visible marks ++ visible more := List.filter_append _ _

@[simp] theorem visible_escape : visible [escape] = [] := rfl

@[simp] theorem visible_tag (raw content : List Char) :
    visible [tag raw content] = [tag raw content] := rfl

@[simp] theorem visible_map_char (text : List Char) : visible (text.map char) = text.map char := by
  simp [visible]

/-- The scan keeps apart the text that the next tag may be escaped by; the reading has it last. -/
theorem visible_readFrom (hd : d.validate = .ok ()) {done : List Mark} {pending : List Char}
    (source : List Char) (hdone : ∀ c, done.getLast? ≠ some (char c)) :
    visible (readFrom d (done ++ pending.map char) source) =
      visible done ++ (Token.scanFrom d pending source).flatMap Token.marks := by
  fun_induction Token.scanFrom d pending source generalizing done with
  | case1 pending source h =>
    rw [readFrom_none h]
    simp [Token.marks]
  | case2 pending source before content rest h hlt raw shown hshown =>
    rename_i ih
    have hlast := Text.dropSuffix?_eq_some hshown
    have hadd : addTag d (done ++ pending.map char ++ before.map char) content =
        done ++ shown.map char ++ [escape] ++ (d.around content).map char := by
      have hmarks : done ++ pending.map char ++ before.map char =
          done ++ shown.map char ++ [char '!'] := by
        rw [List.append_assoc, ← List.map_append, hlast]
        simp
      rw [addTag, hmarks, if_pos (by simp), List.dropLast_concat]
      simp
    rw [readFrom_some hd h, hadd, Delimiters.around, ih (by simp)]
    simp [Token.marks]
  | case3 pending source before content rest h hlt raw hshown =>
    rename_i ih
    have hlast := Text.dropSuffix?_eq_none hshown
    have hadd : addTag d (done ++ pending.map char ++ before.map char) content =
        done ++ (pending ++ before).map char ++ [tag raw content] := by
      have hmarks : (done ++ (pending ++ before).map char).getLast? ≠ some (char '!') := by
        rw [List.getLast?_append, List.getLast?_map]
        cases htext : (pending ++ before).getLast? with
        | none => simpa using hdone '!'
        | some c => simpa [htext] using hlast
      rw [addTag, List.append_assoc, ← List.map_append, if_neg hmarks]
      rfl
    have hnext := @ih (done ++ (pending ++ before).map char ++ [tag raw content]) (by simp)
    rw [List.map_nil, List.append_nil] at hnext
    rw [readFrom_some hd h, hadd, hnext]
    simp [Token.marks]
  | case4 pending source before content rest h hlt =>
    exact absurd (Token.length_lt_of_findTag? hd h) hlt

/-- The scan gives the marks of a source, without those of the escapes. -/
theorem visible_read (hd : d.validate = .ok ()) (source : String) :
    visible (read d source) = (Token.scan d source).flatMap Token.marks :=
  @visible_readFrom d hd [] [] source.toList (by simp)

/-- The source text of a tag that is no text, and what stands between its delimiters. -/
def tag? : Mark → Option (List Char × List Char)
  | tag raw content => some (raw, content)
  | _ => none

/-- The tags of a source that are no text, from left to right. -/
def liveTags (d : Delimiters) (source : String) : List (List Char × List Char) :=
  (read d source).filterMap tag?

theorem liveTags_eq (hd : d.validate = .ok ()) (source : String) :
    liveTags d source = ((Token.scan d source).flatMap Token.marks).filterMap tag? := by
  rw [← visible_read hd, visible, List.filterMap_filter, liveTags]
  refine List.filterMap_congr fun mark _ => ?_
  cases mark <;> rfl

end Mark

end TextTemplate
