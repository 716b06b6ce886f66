import TextTemplate.Proofs.Parsing
import TextTemplate.Proofs.Source

/-!
Which sources are templates. Openers and closers among the tags of a source have to form a
well-bracketed word; the first tag that has no place in such a word, or an opener that is left at the
end, is what parsing fails with.
-/
namespace TextTemplate

namespace Tag

theorem yields_marks (raw : String) (directive : Option Directive) (text : List Char) :
    Yields (fun tag : Tag => tag.raw = raw ∧ tag.directive = directive)
      (parseChars raw directive text) := by
  rw [parseChars]
  exact Yields.bind (P := fun _ => True) (fun _ _ => trivial) fun _ _ => .ok ⟨rfl, rfl⟩

/-- A tag keeps its source text, without blanks around it. -/
theorem raw_of_parse {raw content : List Char} {tag : Tag}
    (h : parse (String.ofList raw) (String.ofList content) = .ok tag) :
    tag.raw = String.ofList (Text.trim raw) := by
  have hyields : Yields (fun tag : Tag => tag.raw = String.ofList (Text.trim raw))
      (parse (String.ofList raw) (String.ofList content)) := by
    refine Yields.mapError ?_
    rw [String.toList_ofList, String.toList_ofList, parseContent]
    split
    · exact .ok rfl
    · split
      · exact .ok rfl
      · exact fun tag htag => (yields_marks _ _ _ tag htag).1
      · exact fun tag htag => (yields_marks _ _ _ tag htag).1
  exact hyields tag h

end Tag

/-- What a tag is to the tags around it. -/
inductive Role where
  | plain
  | opens (raw key : String)
  | closes (raw key : String)
  deriving DecidableEq, Repr

/-- The role of a tag, or why it has no place in a template. -/
def Tag.role (tag : Tag) : Except TagFault Role :=
  match tag.directive with
  | some .inclusion => if tag.links = [] then .ok .plain else .error .linkedPartial
  | some .sectionEnd => .ok (.closes tag.raw tag.key.text)
  | some d =>
    if d.opensSection then
      if tag.format ≠ none then .error .formattedSection
      else if tag.escape then .error .escapedSection
      else .ok (.opens tag.raw tag.key.text)
    else .ok .plain
  | none => .ok .plain

namespace Role

/-- The role of a tag by its source text and by what stands between its delimiters. -/
def read (source : List Char × List Char) : Except TemplateError Role := do
  let tag ← Tag.parse (String.ofList source.1) (String.ofList source.2)
  tag.role.mapError (·.inTag tag.raw)

/-- Words in which every opener has a closer with the same key. -/
inductive Balanced : List Role → Prop where
  | nil : Balanced []
  | plain {roles : List Role} (h : Balanced roles) : Balanced (plain :: roles)
  | nest {inner outer : List Role} {raw raw' key : String} (hi : Balanced inner)
      (ho : Balanced outer) : Balanced (opens raw key :: (inner ++ closes raw' key :: outer))

/-- Words that leave openers without a closer: their texts and keys, innermost first. -/
inductive Unclosed : List Role → List (String × String) → Prop where
  | balanced {roles : List Role} (h : Balanced roles) : Unclosed roles []
  | opens {roles inner : List Role} {stack : List (String × String)} {raw key : String}
      (h : Unclosed roles stack) (hi : Balanced inner) :
      Unclosed (roles ++ opens raw key :: inner) ((raw, key) :: stack)

/-- The error of the leftmost tag that cannot follow those before it, or of the innermost opener that
is left at the end. -/
inductive FirstFault (found : List (Except TemplateError Role)) : TemplateError → Prop where
  | tag {roles : List Role} {stack : List (String × String)} {e : TemplateError}
      {rest : List (Except TemplateError Role)} (h : Unclosed roles stack)
      (split : found = roles.map .ok ++ .error e :: rest) : FirstFault found e
  | unpaired {roles : List Role} {raw key : String} {rest : List (Except TemplateError Role)}
      (h : Unclosed roles []) (split : found = roles.map .ok ++ .ok (closes raw key) :: rest) :
      FirstFault found (SectionFault.unpairedClose.inTag raw)
  | conflict {roles : List Role} {stack : List (String × String)} {raw key opener other : String}
      {rest : List (Except TemplateError Role)} (h : Unclosed roles ((opener, other) :: stack))
      (ne : other ≠ key) (split : found = roles.map .ok ++ .ok (closes raw key) :: rest) :
      FirstFault found ((SectionFault.conflict opener).inTag raw)
  | hanging {roles : List Role} {stack : List (String × String)} {raw key : String}
      (h : Unclosed roles ((raw, key) :: stack)) (split : found = roles.map .ok) :
      FirstFault found (SectionFault.hanging.inTag raw)

namespace Balanced

variable {roles more : List Role}

theorem append (h : Balanced roles) (hm : Balanced more) : Balanced (roles ++ more) := by
  induction h with
  | nil => exact hm
  | plain _ ih => exact .plain ih
  | nest hi _ _ iho =>
    rw [List.cons_append, List.append_assoc, List.cons_append]
    exact .nest hi iho

end Balanced

namespace Unclosed

variable {roles more : List Role} {stack : List (String × String)} {raw raw' key : String}

theorem append (h : Unclosed roles stack) (hm : Balanced more) : Unclosed (roles ++ more) stack := by
  cases h with
  | balanced h => exact .balanced (h.append hm)
  | opens h hi =>
    rw [List.append_assoc, List.cons_append]
    exact .opens h (hi.append hm)

private theorem snoc_plain (h : Unclosed roles stack) : Unclosed (roles ++ [.plain]) stack :=
  h.append (.plain .nil)

private theorem snoc_opens (h : Unclosed roles stack) :
    Unclosed (roles ++ [.opens raw key]) ((raw, key) :: stack) :=
  .opens h .nil

/-- A closer takes the innermost opener with it. -/
private theorem snoc_closes (h : Unclosed roles ((raw, key) :: stack)) :
    Unclosed (roles ++ [.closes raw' key]) stack := by
  cases h with
  | opens h hi =>
    rw [List.append_assoc, List.cons_append]
    exact h.append (.nest hi .nil)

theorem balanced_of_nil (h : Unclosed roles []) : Balanced roles := by
  cases h with
  | balanced h => exact h

end Unclosed

/-- Follows the roles found, given the openers that have no closer yet. -/
def settle : List (String × String) → List (Except TemplateError Role) → Except TemplateError Unit
  | [], [] => .ok ()
  | (raw, _) :: _, [] => .error (SectionFault.hanging.inTag raw)
  | _, .error e :: _ => .error e
  | stack, .ok .plain :: found => settle stack found
  | stack, .ok (.opens raw key) :: found => settle ((raw, key) :: stack) found
  | [], .ok (.closes raw _) :: _ => .error (SectionFault.unpairedClose.inTag raw)
  | (opener, other) :: stack, .ok (.closes raw key) :: found =>
    if other = key then settle stack found
    else .error ((SectionFault.conflict opener).inTag raw)

section Settle

variable {roles : List Role} {stack : List (String × String)}
  {found rest : List (Except TemplateError Role)} {e : TemplateError}

/-- A balanced word leaves the openers around it alone. -/
private theorem settle_balanced (h : Balanced roles) :
    settle stack (roles.map .ok ++ rest) = settle stack rest := by
  induction h generalizing stack rest with
  | nil => rfl
  | plain _ ih => rw [List.map_cons, List.cons_append, settle, ih]
  | nest _ _ ihi iho =>
    rw [List.map_cons, List.map_append, List.map_cons, List.cons_append, List.append_assoc, settle, ihi,
      List.cons_append, settle, if_pos rfl, iho]

private theorem settle_unclosed (h : Unclosed roles stack) :
    settle [] (roles.map .ok ++ rest) = settle stack rest := by
  induction h generalizing rest with
  | balanced h => exact settle_balanced h
  | opens _ hi ih =>
    rw [List.map_append, List.append_assoc, ih, List.map_cons, List.cons_append, settle,
      settle_balanced hi]

/-- What follows a word closes it, or goes wrong at its first fault. -/
private theorem settle_spec (h : Unclosed roles stack) :
    (settle stack rest = .ok () → ∃ more, rest = more.map .ok ∧ Balanced (roles ++ more)) ∧
      ∀ e, settle stack rest = .error e → FirstFault (roles.map .ok ++ rest) e := by
  induction rest generalizing roles stack with
  | nil =>
    cases stack with
    | nil =>
      rw [settle]
      exact ⟨fun _ => ⟨[], rfl, by simpa using h.balanced_of_nil⟩, nofun⟩
    | cons opener stack =>
      rw [settle]
      refine ⟨nofun, fun e he => ?_⟩
      cases he
      exact .hanging h (by simp)
  | cons next rest ih =>
    -- The word with the next role, when the tags go on.
    have hstep : ∀ {role : Role} {stack' : List (String × String)},
        settle stack (.ok role :: rest) = settle stack' rest →
        Unclosed (roles ++ [role]) stack' →
        (settle stack (.ok role :: rest) = .ok () →
          ∃ more, .ok role :: rest = more.map .ok ∧ Balanced (roles ++ more)) ∧
        ∀ e, settle stack (.ok role :: rest) = .error e →
          FirstFault (roles.map .ok ++ .ok role :: rest) e := by
      intro role stack' hsettle hword
      obtain ⟨hok, herror⟩ := ih hword
      rw [hsettle]
      constructor
      · intro hs
        obtain ⟨more, hrest, hbalanced⟩ := hok hs
        exact ⟨role :: more, by rw [hrest]; rfl, by simpa using hbalanced⟩
      · intro e he
        simpa using herror e he
    cases next with
    | error e =>
      rw [settle]
      refine ⟨nofun, fun e' he => ?_⟩
      cases he
      exact .tag h rfl
    | ok role =>
      cases role with
      | plain => exact hstep (by rw [settle]) h.snoc_plain
      | opens raw key => exact hstep (by rw [settle]) h.snoc_opens
      | closes raw key =>
        cases stack with
        | nil =>
          rw [settle]
          refine ⟨nofun, fun e he => ?_⟩
          cases he
          exact .unpaired h rfl
        | cons opener stack =>
          by_cases hkey : opener.2 = key
          · subst hkey
            exact hstep (by rw [settle, if_pos rfl]) h.snoc_closes
          · rw [settle, if_neg hkey]
            refine ⟨nofun, fun e he => ?_⟩
            cases he
            exact .conflict h hkey rfl

private theorem settle_ok_iff :
    settle [] found = .ok () ↔ ∃ roles, found = roles.map .ok ∧ Balanced roles := by
  constructor
  · intro h
    obtain ⟨roles, hfound, hbalanced⟩ := (settle_spec (.balanced .nil)).1 h
    exact ⟨roles, hfound, hbalanced⟩
  · rintro ⟨roles, rfl, h⟩
    have hsettle : settle [] (roles.map .ok ++ []) = settle [] [] := settle_balanced h
    rwa [List.append_nil] at hsettle

private theorem settle_error_iff : settle [] found = .error e ↔ FirstFault found e := by
  constructor
  · exact (settle_spec (.balanced .nil)).2 e
  · intro h
    cases h with
    | tag h split => rw [split, settle_unclosed h, settle]
    | unpaired h split => rw [split, settle_unclosed h, settle]
    | conflict h ne split => rw [split, settle_unclosed h, settle, if_neg ne]
    | hanging h split =>
      rw [split, ← List.append_nil (List.map _ _), settle_unclosed h, settle]

end Settle

end Role

private theorem Inclusion.map_ofTag {tag : Tag} (h : tag.directive = some .inclusion) :
    (Inclusion.ofTag tag).map (fun _ => Role.plain) = tag.role.mapError (·.inTag tag.raw) := by
  rw [Inclusion.ofTag, Tag.role, h]
  by_cases hlinks : tag.links = []
  · simp [hlinks, Except.map, Except.mapError]
  · simp [hlinks, Except.map, Except.mapError]

theorem Tag.role_opens {tag : Tag} {d : Directive} (h : tag.directive = some d)
    (hopens : d.opensSection = true) : tag.role =
      if tag.format ≠ none then .error .formattedSection
      else if tag.escape then .error .escapedSection
      else .ok (.opens tag.raw tag.key.text) := by
  rw [Tag.role, h]
  cases d with
  | listSection => rfl
  | passSection => rfl
  | sectionInclude => rfl
  | sectionExclude => rfl
  | _ => cases hopens

private theorem Section.map_ofTag {tag : Tag} {d : Directive} (h : tag.directive = some d)
    (hopens : d.opensSection = true) :
    (Section.ofTag tag).map (fun head => Role.opens head.raw head.key.text) =
      tag.role.mapError (·.inTag tag.raw) := by
  rw [Section.ofTag, Tag.role_opens h hopens]
  cases hformat : tag.format with
  | some format => rfl
  | none =>
    cases hescape : tag.escape with
    | true => rfl
    | false => rfl

/-- The text and the key of an open section's tag. -/
def Frame.opener (frame : Frame) : String × String := (frame.head.raw, frame.head.key.text)

namespace Node

/-- Building the tree goes wrong where following the roles of its tags does. -/
private theorem map_assemble (frames : List Frame) (level : List Node) (tokens : List Token) :
    (assemble frames level tokens).map (fun _ => ()) =
      Role.settle (frames.map Frame.opener)
        (((tokens.flatMap Token.marks).filterMap Mark.tag?).map Role.read) := by
  induction tokens generalizing frames level with
  | nil =>
    cases frames with
    | nil => rfl
    | cons frame frames => rfl
  | cons token tokens ih =>
    cases token with
    | text shown =>
      have hnone : (shown.map Mark.char).filterMap Mark.tag? = [] := by
        simp [List.filterMap_map, Function.comp_def, Mark.tag?]
      rw [assemble, ih, List.flatMap_cons, Token.marks, List.filterMap_append, hnone,
        List.nil_append]
    | tag raw content =>
      have htags : ((Token.tag raw content :: tokens).flatMap Token.marks).filterMap Mark.tag? =
          (raw, content) :: (tokens.flatMap Token.marks).filterMap Mark.tag? := by
        rw [List.flatMap_cons, Token.marks, List.singleton_append, List.filterMap_cons, Mark.tag?]
      rw [htags, List.map_cons, assemble, Role.read]
      cases Tag.parse (String.ofList raw) (String.ofList content) with
      | error e =>
        simp only [bind, Except.bind, Role.settle]
        rfl
      | ok tag =>
        simp only [bind, Except.bind]
        split
        · rename_i hdirective
          have hrole : tag.role = .ok .plain := by rw [Tag.role, hdirective]; rfl
          rw [hrole, Except.mapError, Role.settle]
          exact ih frames level
        · rename_i hdirective
          rw [← Inclusion.map_ofTag hdirective]
          cases Inclusion.ofTag tag with
          | error e =>
            simp only [Except.map, Role.settle]
          | ok i =>
            simp only [Except.map, Role.settle]
            exact ih frames _
        · rename_i hdirective
          have hrole : tag.role = .ok (.closes tag.raw tag.key.text) := by rw [Tag.role, hdirective]
          rw [hrole, Except.mapError]
          cases frames with
          | nil =>
            rw [List.map_nil, Role.settle]
            rfl
          | cons frame frames =>
            rw [List.map_cons, Frame.opener, Role.settle]
            by_cases hkey : frame.head.key.text = tag.key.text
            · simp only [hkey, if_true]
              exact ih frames _
            · simp only [hkey, if_false]
              rfl
        · rename_i d _ hinclusion hend hdirective
          cases hopens : d.opensSection with
          | false =>
            have hrole : tag.role = .ok .plain := by
              rw [Tag.role]
              split <;> simp_all
            simp only [hrole, Bool.false_eq_true, if_false, Except.mapError, Role.settle]
            exact ih frames _
          | true =>
            rw [if_pos rfl, ← Section.map_ofTag hdirective hopens]
            cases Section.ofTag tag with
            | error e =>
              simp only [Except.map, Role.settle]
            | ok head =>
              simp only [Except.map, Role.settle]
              exact ih (⟨head, level⟩ :: frames) []
        · rename_i hdirective
          have hrole : tag.role = .ok .plain := by rw [Tag.role, hdirective]
          rw [hrole, Except.mapError, Role.settle]
          exact ih frames _

end Node

/-- A tag without a role is an invalid tag, and is named by its text. -/
theorem Role.read_error {tag : List Char × List Char} {e : TemplateError}
    (h : Role.read tag = .error e) :
    ∃ fault : TagFault, e = fault.inTag (String.ofList (Text.trim tag.1)) := by
  rw [Role.read] at h
  cases hparse : Tag.parse (String.ofList tag.1) (String.ofList tag.2) with
  | error e' =>
    simp only [hparse, bind, Except.bind] at h
    cases h
    rw [Tag.parse] at hparse
    cases hcontent : Tag.parseContent (String.ofList (Text.trim (String.ofList tag.1).toList))
        (String.ofList tag.2).toList with
    | error fault =>
      rw [hcontent] at hparse
      cases hparse
      exact ⟨fault, by rw [String.toList_ofList]⟩
    | ok parsed =>
      rw [hcontent] at hparse
      cases hparse
  | ok parsed =>
    simp only [hparse, bind, Except.bind] at h
    cases hrole : parsed.role with
    | error fault =>
      rw [hrole] at h
      cases h
      exact ⟨fault, by rw [Tag.raw_of_parse hparse]⟩
    | ok role =>
      rw [hrole] at h
      cases h

/-- **The sources that are templates** are those whose tags form a well-bracketed word. Any other
fails with its first fault, which for a tag without a role is an invalid tag. -/
theorem Node.parse_brackets {d : Delimiters} (hd : d.validate = .ok ()) (source : String) :
    ((∃ nodes, Node.parse source d = .ok nodes) ↔ ∃ roles,
      (Mark.liveTags d source).map Role.read = roles.map .ok ∧ Role.Balanced roles) ∧
    (∀ e, Node.parse source d = .error e ↔
      Role.FirstFault ((Mark.liveTags d source).map Role.read) e) ∧
    ∀ tag ∈ Mark.liveTags d source, ∀ e, Role.read tag = .error e →
      ∃ fault : TagFault, e = fault.inTag (String.ofList (Text.trim tag.1)) := by
  have hsettle : (Node.parse source d).map (fun _ => ()) =
      Role.settle [] ((Mark.liveTags d source).map Role.read) := by
    rw [Node.parse, Node.map_assemble, Mark.liveTags_eq hd]
    rfl
  refine ⟨?_, fun e => ?_, fun tag _ e => Role.read_error⟩
  · rw [← Role.settle_ok_iff, ← hsettle]
    cases Node.parse source d with
    | error e => exact ⟨nofun, nofun⟩
    | ok nodes => exact ⟨fun _ => rfl, fun _ => ⟨nodes, rfl⟩⟩
  · rw [← Role.settle_error_iff, ← hsettle]
    cases Node.parse source d with
    | error e' => simp [Except.map]
    | ok nodes => exact ⟨nofun, nofun⟩

/-- A closer for another key than that of the opener, after a tag that is text. -/
theorem Node.parse_brackets_conflict :
    Delimiters.default.validate = .ok () ∧
      Node.parse "!{{a}}{{#b}}{{/c}}" Delimiters.default =
        .error ((SectionFault.conflict "{{#b}}").inTag "{{/c}}") := by
  have hd : Delimiters.default.validate = .ok () := by rfl
  refine ⟨hd, ?_⟩
  rw [(Node.parse_brackets hd _).2.1]
  have hroles : (Mark.liveTags Delimiters.default "!{{a}}{{#b}}{{/c}}").map Role.read =
      [.ok (.opens "{{#b}}" "b"), .ok (.closes "{{/c}}" "c")] := by
    have htags : Mark.liveTags Delimiters.default "!{{a}}{{#b}}{{/c}}" =
        [("{{#b}}".toList, "#b".toList), ("{{/c}}".toList, "/c".toList)] := by
      decide +kernel
    rw [htags]
    rfl
  rw [hroles]
  exact .conflict (.opens (.balanced .nil) .nil) (by decide) rfl

end TextTemplate
