import TextTemplate.Proofs.Brackets

/-!
What parsing makes of a source. A walk through the tree, which writes every node where it stands and a
closer at each section's end, meets the marks of the source one by one, in their order. Only comments
and the escapes of tags that are text are left out.
-/
namespace TextTemplate

/-- One step of a walk: a character of a text, or a tag. -/
inductive Item where
  | char (c : Char)
  | tag (tag : Tag)
  | inclusion (inclusion : Inclusion)
  | opens (head : Section)
  | closes (key : String)

namespace Node

mutual

/-- The items of a node, from left to right. -/
def walk : Node → List Item
  | text shown => shown.toList.map .char
  | tag t => [.tag t]
  | inclusion i => [.inclusion i]
  | block head body => .opens head :: (walkAll body ++ [.closes head.key.text])

def walkAll : List Node → List Item
  | [] => []
  | node :: nodes => walk node ++ walkAll nodes

end

@[simp] theorem walkAll_append (nodes more : List Node) :
    walkAll (nodes ++ more) = walkAll nodes ++ walkAll more := by
  induction nodes with
  | nil => simp [walkAll]
  | cons node nodes ih => simp [walkAll, ih]

theorem walkAll_reverse_cons (node : Node) (level : List Node) :
    walkAll (node :: level).reverse = walkAll level.reverse ++ walk node := by
  simp [walkAll]

theorem walkAll_pushText (shown : List Char) (level : List Node) :
    walkAll (pushText shown level).reverse = walkAll level.reverse ++ shown.map .char := by
  by_cases hempty : shown = []
  · subst hempty
    have hsame : pushText [] level = level := by
      rw [pushText.eq_def]
      split <;> rfl
    rw [hsame, List.map_nil, List.append_nil]
  · have hshown : shown.isEmpty = false := by simpa using hempty
    rw [pushText.eq_def]
    split
    · simp only [hshown, Bool.false_eq_true, if_false, walkAll_reverse_cons, walk]
      rw [String.toList_append, String.toList_ofList, List.map_append, List.append_assoc]
    · simp only [hshown, Bool.false_eq_true, if_false, walkAll_reverse_cons, walk]
      rw [String.toList_ofList]

end Node

/-- Tags that stand for nothing: comments, and tags with nothing between their delimiters. -/
def Mark.isComment : Mark → Bool
  | tag _ content => (Text.trim content).isEmpty || (Text.trim content).head? = some '!'
  | _ => false

/-- The marks that a tree keeps. -/
def Mark.kept (marks : List Mark) : List Mark :=
  (visible marks).filter fun mark => !mark.isComment

/-- The item that a mark of the source becomes. A tag keeps its source text, without blanks around
it. -/
inductive Mark.Becomes : Mark → Item → Prop where
  | char (c : Char) : Becomes (.char c) (.char c)
  | tag {raw content : List Char} {t : Tag}
      (parsed : Tag.parse (String.ofList raw) (String.ofList content) = .ok t)
      (plain : ∀ d, t.directive = some d →
        d ≠ .comment ∧ d ≠ .inclusion ∧ d ≠ .sectionEnd ∧ d.opensSection = false)
      (text : t.raw = String.ofList (Text.trim raw)) : Becomes (.tag raw content) (.tag t)
  | inclusion {raw content : List Char} {t : Tag} {i : Inclusion}
      (parsed : Tag.parse (String.ofList raw) (String.ofList content) = .ok t)
      (directive : t.directive = some .inclusion) (built : Inclusion.ofTag t = .ok i)
      (text : i.raw = String.ofList (Text.trim raw)) : Becomes (.tag raw content) (.inclusion i)
  | opens {raw content : List Char} {t : Tag} {d : Directive} {head : Section}
      (parsed : Tag.parse (String.ofList raw) (String.ofList content) = .ok t)
      (directive : t.directive = some d) (opener : d.opensSection = true)
      (built : Section.ofTag t = .ok head)
      (text : head.raw = String.ofList (Text.trim raw)) : Becomes (.tag raw content) (.opens head)
  | closes {raw content : List Char} {t : Tag}
      (parsed : Tag.parse (String.ofList raw) (String.ofList content) = .ok t)
      (directive : t.directive = some .sectionEnd) :
      Becomes (.tag raw content) (.closes t.key.text)

theorem Directive.leading?_eq_comment {content : List Char} :
    leading? content = some .comment ↔ content.head? = some '!' := by
  rw [leading?]
  constructor
  · intro h
    split at h
    · cases h
    · split at h
      · cases h
      · obtain ⟨c, hc, hmark⟩ := Option.bind_eq_some_iff.1 h
        have hsymbol : ofSymbol? (String.singleton c) = some .comment :=
          (Option.filter_eq_some_iff.1 hmark).1
        have hspelled := List.find?_some hsymbol
        have hsingle : comment.symbol = String.singleton c := by simpa using hspelled
        have hlist := congrArg String.toList hsingle
        rw [String.toList_singleton] at hlist
        rw [hc, ← (List.singleton_inj.1 hlist : '!' = c)]
  · intro h
    cases content with
    | nil => cases h
    | cons c rest =>
      cases h
      rfl

/-- A tag is a comment when its content says so. -/
theorem Tag.comment_iff {raw content : List Char} {t : Tag}
    (h : Tag.parse (String.ofList raw) (String.ofList content) = .ok t) :
    t.directive = some .comment ↔ (Mark.tag raw content).isComment = true := by
  have hyields : Yields
      (fun t : Tag => t.directive = some .comment ↔ (Mark.tag raw content).isComment = true)
      (Tag.parse (String.ofList raw) (String.ofList content)) := by
    refine Yields.mapError ?_
    rw [Tag.parseContent, String.toList_ofList, Mark.isComment]
    generalize Text.trim content = trimmed
    split
    · rename_i hempty
      exact .ok (by simp [hempty, Tag.comment])
    · rename_i hempty
      have hbang : (trimmed.isEmpty || decide (trimmed.head? = some '!')) = true ↔
          Directive.leading? trimmed = some .comment := by
        rw [Directive.leading?_eq_comment]
        simp [hempty]
      rw [hbang]
      split
      · rename_i hleading
        exact .ok (by simp [hleading, Tag.comment])
      · rename_i d _ hleading
        rw [hleading]
        exact fun t ht => by simp only [(Tag.yields_marks _ _ _ t ht).2]
      · rename_i hleading
        rw [hleading]
        exact fun t ht => by simp only [(Tag.yields_marks _ _ _ t ht).2]
  exact hyields t h

theorem Inclusion.raw_of_ofTag {t : Tag} {i : Inclusion} (h : Inclusion.ofTag t = .ok i) :
    i.raw = t.raw := by
  rw [Inclusion.ofTag] at h
  split at h
  · cases h
    rfl
  · cases h

theorem Section.raw_of_ofTag {t : Tag} {head : Section} (h : Section.ofTag t = .ok head) :
    head.raw = t.raw := by
  rw [Section.ofTag] at h
  split at h
  · cases h
  · split at h
    · cases h
    · cases h
      rfl

/-- What a token does to the open sections and to the nodes of the current level, last first. -/
inductive Node.Takes : List Frame → List Node → Token → List Frame → List Node → Prop where
  | text {frames : List Frame} {level : List Node} (shown : List Char) :
      Takes frames level (.text shown) frames (pushText shown level)
  | comment {frames : List Frame} {level : List Node} {raw content : List Char} {t : Tag}
      (parsed : Tag.parse (String.ofList raw) (String.ofList content) = .ok t)
      (directive : t.directive = some .comment) : Takes frames level (.tag raw content) frames level
  | tag {frames : List Frame} {level : List Node} {raw content : List Char} {t : Tag}
      (parsed : Tag.parse (String.ofList raw) (String.ofList content) = .ok t)
      (plain : ∀ d, t.directive = some d →
        d ≠ .comment ∧ d ≠ .inclusion ∧ d ≠ .sectionEnd ∧ d.opensSection = false) :
      Takes frames level (.tag raw content) frames (.tag t :: level)
  | inclusion {frames : List Frame} {level : List Node} {raw content : List Char} {t : Tag}
      {i : Inclusion} (parsed : Tag.parse (String.ofList raw) (String.ofList content) = .ok t)
      (directive : t.directive = some .inclusion) (built : Inclusion.ofTag t = .ok i) :
      Takes frames level (.tag raw content) frames (.inclusion i :: level)
  | opens {frames : List Frame} {level : List Node} {raw content : List Char} {t : Tag}
      {d : Directive} {head : Section}
      (parsed : Tag.parse (String.ofList raw) (String.ofList content) = .ok t)
      (directive : t.directive = some d) (opener : d.opensSection = true)
      (built : Section.ofTag t = .ok head) :
      Takes frames level (.tag raw content) (⟨head, level⟩ :: frames) []
  | closes {frame : Frame} {frames : List Frame} {level : List Node} {raw content : List Char}
      {t : Tag} (parsed : Tag.parse (String.ofList raw) (String.ofList content) = .ok t)
      (directive : t.directive = some .sectionEnd) (key : frame.head.key.text = t.key.text) :
      Takes (frame :: frames) level (.tag raw content) frames
        (.block frame.head level.reverse :: frame.outer)

namespace Node

variable {frames frames' : List Frame} {level level' nodes : List Node} {token : Token}
  {tokens : List Token}

/-- A tree with one more token in front is built when that token can be taken. -/
theorem takes_of_assemble (h : assemble frames level (token :: tokens) = .ok nodes) :
    ∃ frames' level', Takes frames level token frames' level' ∧
      assemble frames' level' tokens = .ok nodes := by
  cases token with
  | text shown =>
    rw [assemble] at h
    exact ⟨frames, _, .text shown, h⟩
  | tag raw content =>
    rw [assemble] at h
    obtain ⟨t, parsed, h⟩ := bind_eq_ok_iff.1 h
    split at h
    · rename_i directive
      exact ⟨frames, level, .comment parsed directive, h⟩
    · rename_i directive
      obtain ⟨i, built, h⟩ := bind_eq_ok_iff.1 h
      exact ⟨frames, _, .inclusion parsed directive built, h⟩
    · rename_i directive
      cases frames with
      | nil => cases h
      | cons frame frames =>
        simp only at h
        split at h
        · rename_i key
          exact ⟨frames, _, .closes parsed directive key, h⟩
        · cases h
    · rename_i d hcomment hinclusion hend directive
      cases opener : d.opensSection with
      | false =>
        rw [opener] at h
        refine ⟨frames, _, .tag parsed fun d' hd' => ?_, h⟩
        cases directive.symm.trans hd'
        exact ⟨hcomment, hinclusion, hend, opener⟩
      | true =>
        rw [opener, if_pos rfl] at h
        obtain ⟨head, built, h⟩ := bind_eq_ok_iff.1 h
        exact ⟨_, _, .opens parsed directive opener built, h⟩
    · rename_i directive
      refine ⟨frames, _, .tag parsed fun d hd => ?_, h⟩
      rw [directive] at hd
      cases hd

/-- What a walk meets before the current level: the levels around it, and the sections it is in. -/
def before : List Frame → List Item
  | [] => []
  | frame :: frames => before frames ++ walkAll frame.outer.reverse ++ [.opens frame.head]

/-- What a walk meets when the tree is built so far. -/
def written (frames : List Frame) (level : List Node) : List Item :=
  before frames ++ walkAll level.reverse

private theorem written_cons (frames : List Frame) (level : List Node) (node : Node) :
    written frames (node :: level) = written frames level ++ walk node := by
  rw [written, walkAll_reverse_cons, ← List.append_assoc, written]

private theorem written_opens (frames : List Frame) (level : List Node) (head : Section) :
    written (⟨head, level⟩ :: frames) [] = written frames level ++ [.opens head] := by
  rw [written, before, List.reverse_nil, walkAll, List.append_nil, written]

private theorem written_closes (frame : Frame) (frames : List Frame) (level : List Node) :
    written frames (.block frame.head level.reverse :: frame.outer) =
      written (frame :: frames) level ++ [.closes frame.head.key.text] := by
  rw [written_cons, written, written, before, walk]
  simp

theorem becomes_chars (shown : List Char) :
    List.Forall₂ Mark.Becomes (shown.map .char) (shown.map .char) := by
  induction shown with
  | nil => exact .nil
  | cons c shown ih => exact .cons (.char c) ih

/-- A token adds the items that its marks become. -/
theorem Takes.becomes (h : Takes frames level token frames' level') :
    ∃ items, List.Forall₂ Mark.Becomes (token.marks.filter fun mark => !mark.isComment) items ∧
      written frames' level' = written frames level ++ items := by
  have hkept : ∀ {raw content : List Char} {t : Tag},
      Tag.parse (String.ofList raw) (String.ofList content) = .ok t → t.directive ≠ some .comment →
      (Token.tag raw content).marks.filter (fun mark => !mark.isComment) = [.tag raw content] := by
    intro raw content t parsed hne
    have hcomment : (Mark.tag raw content).isComment = false := by
      simpa using fun h => hne ((Tag.comment_iff parsed).2 h)
    simp [Token.marks, hcomment]
  cases h with
  | text shown =>
    have hchars : (shown.map Mark.char).filter (fun mark => !mark.isComment) = shown.map .char := by
      rw [List.filter_eq_self]
      intro mark hm
      obtain ⟨c, -, rfl⟩ := List.mem_map.1 hm
      rfl
    refine ⟨shown.map .char, ?_, ?_⟩
    · rw [Token.marks, hchars]
      exact becomes_chars shown
    · rw [written, walkAll_pushText, ← List.append_assoc, written]
  | comment parsed directive =>
    refine ⟨[], ?_, (List.append_nil _).symm⟩
    simp [Token.marks, (Tag.comment_iff parsed).1 directive]
  | tag parsed plain =>
    rw [hkept parsed fun h => (plain _ h).1 rfl]
    exact ⟨_, .cons (.tag parsed plain (Tag.raw_of_parse parsed)) .nil, written_cons _ _ _⟩
  | inclusion parsed directive built =>
    rw [hkept parsed (by simp [directive])]
    refine ⟨_, .cons (.inclusion parsed directive built ?_) .nil, written_cons _ _ _⟩
    rw [Inclusion.raw_of_ofTag built, Tag.raw_of_parse parsed]
  | @opens _ _ _ _ _ d _ parsed directive opener built =>
    have hne : d ≠ .comment := by
      rintro rfl
      cases opener
    rw [hkept parsed (by simpa [directive] using hne)]
    refine ⟨_, .cons (.opens parsed directive opener built ?_) .nil, written_opens _ _ _⟩
    rw [Section.raw_of_ofTag built, Tag.raw_of_parse parsed]
  | closes parsed directive key =>
    rw [hkept parsed (by simp [directive])]
    refine ⟨_, .cons (.closes parsed directive) .nil, ?_⟩
    rw [written_closes, key]

/-- **The walk meets the marks of the source.** -/
theorem walk_assemble (h : assemble frames level tokens = .ok nodes) :
    ∃ items, List.Forall₂ Mark.Becomes
        ((tokens.flatMap Token.marks).filter fun mark => !mark.isComment) items ∧
      walkAll nodes = written frames level ++ items := by
  induction tokens generalizing frames level with
  | nil =>
    cases frames with
    | nil =>
      cases h
      exact ⟨[], .nil, by simp [written, before]⟩
    | cons frame frames => cases h
  | cons token tokens ih =>
    obtain ⟨frames', level', htakes, hrest⟩ := takes_of_assemble h
    obtain ⟨first, hfirst, hwritten⟩ := htakes.becomes
    obtain ⟨items, hitems, hwalk⟩ := ih hrest
    refine ⟨first ++ items, ?_, ?_⟩
    · rw [List.flatMap_cons, List.filter_append]
      exact List.rel_append hfirst hitems
    · rw [hwalk, hwritten, List.append_assoc]

/-- The levels of a tree: its nodes, and the bodies of its sections at any depth. -/
inductive Level : List Node → List Node → Prop where
  | top {nodes : List Node} : Level nodes nodes
  | inside {nodes body level : List Node} {head : Section} (mem : .block head body ∈ nodes)
      (h : Level body level) : Level nodes level

/-- No text is empty, and no two texts stand side by side. -/
structure Apart (level : List Node) : Prop where
  full : .text "" ∉ level
  apart : ∀ a b, ¬ [.text a, .text b] <:+: level

/-- All the texts of a tree are apart. -/
def Tidy (nodes : List Node) : Prop := ∀ level, Level nodes level → Apart level

theorem Apart.reverse (h : Apart level) : Apart level.reverse := by
  refine ⟨by simpa using h.full, fun a b hpart => h.apart b a ?_⟩
  have hreverse := List.reverse_infix.2 hpart
  simpa using hreverse

theorem Apart.cons {node : Node} (h : Apart level) (hnode : ∀ t, node ≠ .text t) :
    Apart (node :: level) := by
  constructor
  · intro hmem
    rcases List.mem_cons.1 hmem with hempty | hmem
    · exact hnode "" hempty.symm
    · exact h.full hmem
  · intro a b hpart
    rcases List.infix_cons_iff.1 hpart with hstart | hpart
    · obtain ⟨hfirst, -⟩ := List.cons_prefix_cons.1 hstart
      exact hnode a hfirst.symm
    · exact h.apart a b hpart

/-- Text that is added stands alone on top of the level, or in place of the text that was there. -/
theorem pushText_cases (shown : List Char) (level : List Node) :
    pushText shown level = level ∨ ∃ t rest, t ≠ "" ∧ pushText shown level = .text t :: rest ∧
      ((level = rest ∧ ∀ b more, rest ≠ .text b :: more) ∨ ∃ a, level = .text a :: rest) := by
  have hshown : shown ≠ [] → String.ofList shown ≠ "" := fun hne h => hne (by simpa using h)
  rw [pushText.eq_def]
  split
  · rename_i a rest
    split
    · exact .inl rfl
    · rename_i hne
      refine .inr ⟨_, rest, fun h => ?_, rfl, .inr ⟨a, rfl⟩⟩
      exact hshown (by simpa using hne) (String.append_eq_empty_iff.1 h).2
  · rename_i hlevel
    split
    · exact .inl rfl
    · rename_i hne
      exact .inr ⟨_, level, hshown (by simpa using hne), rfl, .inl ⟨rfl, hlevel⟩⟩

/-- Text keeps texts apart: it joins the one before it. -/
theorem Apart.pushText (h : Apart level) (shown : List Char) : Apart (pushText shown level) := by
  rcases pushText_cases shown level with heq | ⟨t, rest, hne, heq, hlevel⟩
  · rw [heq]
    exact h
  · have hsuffix : rest <:+ level := by
      rcases hlevel with ⟨rfl, -⟩ | ⟨a, rfl⟩
      · exact List.suffix_refl _
      · exact List.suffix_cons _ _
    rw [heq]
    constructor
    · intro hmem
      rcases List.mem_cons.1 hmem with hempty | hmem
      · cases hempty
        exact hne rfl
      · exact h.full (hsuffix.mem hmem)
    · intro a b hpart
      rcases List.infix_cons_iff.1 hpart with hstart | hpart
      · obtain ⟨-, hstart⟩ := List.cons_prefix_cons.1 hstart
        obtain ⟨more, rfl⟩ := hstart
        rcases hlevel with ⟨-, hnone⟩ | ⟨c, rfl⟩
        · exact hnone b more rfl
        · exact h.apart c b ⟨[], more, rfl⟩
      · exact h.apart a b (hpart.trans hsuffix.isInfix)

theorem tidy_iff : Tidy nodes ↔
    Apart nodes ∧ ∀ head body, .block head body ∈ nodes → Tidy body := by
  constructor
  · exact fun h => ⟨h nodes .top, fun head body hmem level hlevel => h level (.inside hmem hlevel)⟩
  · rintro ⟨hapart, hbodies⟩ level hlevel
    cases hlevel with
    | top => exact hapart
    | inside mem h => exact hbodies _ _ mem level h

theorem Tidy.reverse (h : Tidy level) : Tidy level.reverse := by
  rw [tidy_iff] at h ⊢
  exact ⟨h.1.reverse, fun head body hmem => h.2 head body (List.mem_reverse.1 hmem)⟩

theorem Tidy.cons {node : Node} (h : Tidy level) (hnode : ∀ t, node ≠ .text t)
    (hbody : ∀ head body, node = .block head body → Tidy body) : Tidy (node :: level) := by
  rw [tidy_iff] at h ⊢
  refine ⟨h.1.cons hnode, fun head body hmem => ?_⟩
  rcases List.mem_cons.1 hmem with heq | hmem
  · exact hbody head body heq.symm
  · exact h.2 head body hmem

theorem Tidy.pushText (h : Tidy level) (shown : List Char) : Tidy (pushText shown level) := by
  rw [tidy_iff] at h ⊢
  refine ⟨h.1.pushText shown, fun head body hmem => h.2 head body ?_⟩
  rcases pushText_cases shown level with heq | ⟨t, rest, -, heq, hlevel⟩
  · rwa [heq] at hmem
  · rw [heq] at hmem
    rcases List.mem_cons.1 hmem with hblock | hmem
    · cases hblock
    · rcases hlevel with ⟨rfl, -⟩ | ⟨a, rfl⟩
      · exact hmem
      · exact List.mem_cons_of_mem _ hmem

/-- A token keeps the texts apart, on the current level and on those around it. -/
theorem Takes.tidy (h : Takes frames level token frames' level')
    (hframes : ∀ frame ∈ frames, Tidy frame.outer) (hlevel : Tidy level) :
    (∀ frame ∈ frames', Tidy frame.outer) ∧ Tidy level' := by
  cases h with
  | text shown => exact ⟨hframes, hlevel.pushText shown⟩
  | comment parsed directive => exact ⟨hframes, hlevel⟩
  | tag parsed plain => exact ⟨hframes, hlevel.cons nofun fun _ _ h => nomatch h⟩
  | inclusion parsed directive built => exact ⟨hframes, hlevel.cons nofun fun _ _ h => nomatch h⟩
  | opens parsed directive opener built =>
    constructor
    · intro frame hmem
      rcases List.mem_cons.1 hmem with rfl | hmem
      · exact hlevel
      · exact hframes frame hmem
    · exact tidy_iff.2 ⟨⟨by simp, by simp⟩, by simp⟩
  | @closes frame frames level _ _ _ parsed directive key =>
    refine ⟨fun other hmem => hframes other (List.mem_cons_of_mem _ hmem), ?_⟩
    refine (hframes frame List.mem_cons_self).cons nofun fun head body heq => ?_
    cases heq
    exact hlevel.reverse

theorem tidy_assemble (h : assemble frames level tokens = .ok nodes)
    (hframes : ∀ frame ∈ frames, Tidy frame.outer) (hlevel : Tidy level) : Tidy nodes := by
  induction tokens generalizing frames level with
  | nil =>
    cases frames with
    | nil =>
      cases h
      exact hlevel.reverse
    | cons frame frames => cases h
  | cons token tokens ih =>
    obtain ⟨frames', level', htakes, hrest⟩ := takes_of_assemble h
    obtain ⟨hframes', hlevel'⟩ := htakes.tidy hframes hlevel
    exact ih hrest hframes' hlevel'

/-- A source without an opening delimiter is text. -/
theorem parse_text {d : Delimiters} {source : String} (h : ¬ d.opening.toList <:+: source.toList) :
    parse source d = .ok (if source = "" then [] else [.text source]) := by
  have hnone : Token.findTag? d source.toList = none := by
    refine Token.findTag?_eq_none.2 fun before content rest heq => h ?_
    exact ⟨before, content ++ d.closing.toList ++ rest, by simp [heq, Delimiters.around]⟩
  have hscan : Token.scan d source = [.text source.toList] := by
    rw [Token.scan, Token.scanFrom, hnone]
    rfl
  have hlevel : pushText source.toList [] = if source = "" then [] else [.text source] := by
    rw [pushText.eq_def]
    simp [String.ofList_toList]
  rw [parse, hscan, assemble, assemble, hlevel]
  split <;> rfl

end Node

/-- **Parsing loses and invents nothing.** A source is the marks it is read as. When it is a template,
the walk through its tree meets these marks in their order, but for comments and escapes, and no text
of it is empty or stands beside another. Without an opening delimiter the source is one text. -/
theorem Node.parse_walk {d : Delimiters} (hd : d.validate = .ok ()) (source : String) :
    (Mark.read d source).flatMap Mark.chars = source.toList ∧
    Mark.Escaped d (Mark.read d source) ∧
    (∀ nodes, Node.parse source d = .ok nodes →
      List.Forall₂ Mark.Becomes (Mark.kept (Mark.read d source)) (Node.walkAll nodes) ∧
      ∀ level, Node.Level nodes level →
        .text "" ∉ level ∧ ∀ a b, ¬ [.text a, .text b] <:+: level) ∧
    (¬ d.opening.toList <:+: source.toList →
      Node.parse source d = .ok (if source = "" then [] else [.text source])) := by
  refine ⟨Mark.flatMap_chars_read d source, ?_, fun nodes h => ⟨?_, fun level hlevel => ?_⟩,
    Node.parse_text⟩
  · exact Mark.escaped_readFrom hd (Mark.escaped_of_notMem (by simp))
  · obtain ⟨items, hitems, hwalk⟩ := Node.walk_assemble h
    rw [Mark.kept, Mark.visible_read hd, hwalk]
    simpa [Node.written, Node.before, Node.walkAll] using hitems
  · have htidy : Node.Tidy nodes := Node.tidy_assemble h (by simp)
      (Node.tidy_iff.2 ⟨⟨by simp, by simp⟩, by simp⟩)
    have hapart := htidy level hlevel
    exact ⟨hapart.full, hapart.apart⟩

/-- A tag that is text, a comment and a section. -/
theorem Node.parse_walk_section :
    Delimiters.default.validate = .ok () ∧
      ∃ nodes, Node.parse "!{{a}}{{!b}}{{#c}}d{{/c}}" Delimiters.default = .ok nodes ∧
        List.Forall₂ Mark.Becomes
          ("{{a}}".toList.map .char ++ [.tag "{{#c}}".toList "#c".toList, .char 'd',
            .tag "{{/c}}".toList "/c".toList])
          (Node.walkAll nodes) := by
  have hd : Delimiters.default.validate = .ok () := by rfl
  have hkept : Mark.kept (Mark.read Delimiters.default "!{{a}}{{!b}}{{#c}}d{{/c}}") =
      "{{a}}".toList.map .char ++ [.tag "{{#c}}".toList "#c".toList, .char 'd',
        .tag "{{/c}}".toList "/c".toList] := by
    decide +kernel
  have hparses : (Node.parse "!{{a}}{{!b}}{{#c}}d{{/c}}" Delimiters.default).isOk = true := by
    decide +kernel
  refine ⟨hd, ?_⟩
  cases hparse : Node.parse "!{{a}}{{!b}}{{#c}}d{{/c}}" Delimiters.default with
  | error e =>
    rw [hparse] at hparses
    cases hparses
  | ok nodes =>
    have hwalk := ((Node.parse_walk hd _).2.2.1 nodes hparse).1
    rw [hkept] at hwalk
    exact ⟨nodes, rfl, hwalk⟩

end TextTemplate
