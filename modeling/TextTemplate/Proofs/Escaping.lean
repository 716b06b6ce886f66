import TextTemplate.Proofs.Errors
import TextTemplate.Proofs.Text.Entities

/-!
Escaping and the text of a tag. When everything is escaped the text of a tag has no markup, whatever
the value, the functions it went through and the number formatter, except for the arrays among the
items of a list: these are written as they are.
-/
namespace TextTemplate
variable {φ : Type}

namespace Text

private theorem harmless_intercalate {sep : List Char} (hsep : Harmless sep)
    {texts : List (List Char)}
    (h : ∀ t ∈ texts, Harmless t) : Harmless (sep.intercalate texts) := by
  induction texts with
  | nil => exact harmless_nil
  | cons t texts ih =>
    obtain ⟨ht, htexts⟩ := List.forall_mem_cons.1 h
    cases texts with
    | nil => simpa using ht
    | cons u texts =>
      rw [List.intercalate_cons_cons]
      exact (ht.append hsep).append (ih htexts)

theorem infix_intercalate {sep t : List Char} {texts : List (List Char)} (h : t ∈ texts) :
    t <:+: sep.intercalate texts := by
  induction texts with
  | nil => cases h
  | cons u texts ih =>
    cases texts with
    | nil =>
      obtain rfl := List.mem_singleton.1 h
      simp
    | cons v texts =>
      rw [List.intercalate_cons_cons]
      rcases List.mem_cons.1 h with rfl | h
      · exact ⟨[], sep ++ sep.intercalate (v :: texts), by simp⟩
      · exact (ih h).trans (List.suffix_append _ _).isInfix

/-- Three items or more: all but the last with commas between them, then the last. -/
theorem toList_joinList_long (a b c : String) (texts : List String) :
    (joinList (a :: b :: c :: texts)).toList =
      ", ".toList.intercalate ((a :: b :: c :: texts).dropLast.map String.toList) ++
        ", and ".toList ++ ((a :: b :: c :: texts).getLast (by simp)).toList := by
  simp only [joinList, String.toList_append, String.toList_intercalate,
    List.getLastD_eq_getLast?, List.getLast?_eq_some_getLast (List.cons_ne_nil a _),
    Option.getD_some]

private theorem harmless_joinList {texts : List String} (h : ∀ t ∈ texts, Harmless t.toList) :
    Harmless (joinList texts).toList := by
  match texts with
  | [] => exact harmless_nil
  | [a] => exact h a (by simp)
  | [a, b] =>
    have hand : Harmless " and ".toList := by decide
    simp only [joinList, String.toList_append]
    exact ((h a (by simp)).append hand).append (h b (by simp))
  | a :: b :: c :: texts =>
    rw [toList_joinList_long]
    refine ((harmless_intercalate (by decide) ?_).append (by decide)).append
      (h _ (List.getLast_mem _))
    intro t ht
    obtain ⟨u, hu, rfl⟩ := List.mem_map.1 ht
    exact h u (List.dropLast_subset _ hu)

theorem infix_joinList {t : String} {texts : List String} (h : t ∈ texts) :
    t.toList <:+: (joinList texts).toList := by
  match texts with
  | [] => cases h
  | [a] =>
    obtain rfl := List.mem_singleton.1 h
    exact List.infix_refl _
  | [a, b] =>
    simp only [joinList, String.toList_append]
    rcases List.mem_cons.1 h with rfl | h
    · exact ⟨[], _, by rw [List.nil_append, List.append_assoc]⟩
    · obtain rfl := List.mem_singleton.1 h
      exact (List.suffix_append _ _).isInfix
  | a :: b :: c :: texts =>
    rw [toList_joinList_long]
    have hsplit := List.dropLast_concat_getLast (List.cons_ne_nil a (b :: c :: texts))
    rw [← hsplit] at h
    rcases List.mem_append.1 h with hinit | hlast
    · have hmem : t.toList ∈ (a :: b :: c :: texts).dropLast.map String.toList :=
        List.mem_map_of_mem hinit
      rw [List.append_assoc]
      exact (infix_intercalate hmem).trans (List.prefix_append _ _).isInfix
    · obtain rfl := List.mem_singleton.1 hlast
      exact (List.suffix_append _ _).isInfix

end Text

open Text

/-- A format that leaves escaping on where it is asked for. -/
def KeepsEscaping (format : Option String) : Prop := format ≠ some "raw" ∧ format ≠ some "html"

/-- A format that escapes by itself. -/
abbrev Encodes (format : Option String) : Prop := format = some "encode"

theorem Format.ofName_eq_raw_iff {name : String} :
    Format.ofName name = .raw ↔ name = "raw" ∨ name = "html" := by
  by_cases h : name = "raw" ∨ name = "html"
  · simp [Format.ofName, h]
  · refine iff_of_false ?_ h
    rw [Format.ofName, if_neg h]
    split
    · nofun
    · split
      · nofun
      · split
        · nofun
        · split <;> nofun

theorem Format.escapes_of_ne_raw {f : Format} (h : f ≠ .raw) : f.escapes true = true := by
  cases f with
  | raw => exact absurd rfl h
  | _ => rfl

private theorem harmless_formatValue (numbers : Number.Formatter) {format : Option String}
    {escape : Bool}
    (hformat : KeepsEscaping format) (hescape : escape = true ∨ Encodes format) (v : Value φ) :
    Harmless (formatValue numbers format escape v).toList := by
  have hescapes : (format.map Format.ofName).elim escape (Format.escapes escape) = true := by
    rcases hescape with rfl | rfl
    · cases format with
      | none => rfl
      | some name =>
        refine Format.escapes_of_ne_raw fun hraw => ?_
        rcases Format.ofName_eq_raw_iff.1 hraw with rfl | rfl
        · exact hformat.1 rfl
        · exact hformat.2 rfl
    · rfl
  rw [formatValue]
  split
  · exact harmless_nil
  · dsimp only
    rw [if_pos hescapes, toList_escapeHtml]
    exact .escapeChars _

theorem keepsEscaping_none : KeepsEscaping none := by simp [KeepsEscaping]

/-- The arrays among the items of an array have harmless texts. -/
def Value.NestedHarmless : Value φ → Prop
  | .array items => ∀ item ∈ items, item.isArray = true → Harmless item.plain.toList
  | _ => True

private theorem Value.toList_bracketed (v : Value φ) :
    v.bracketed.toList = '[' :: (v.plain.toList ++ [']']) := by
  simp [Value.bracketed]

private theorem Value.harmless_bracketed {v : Value φ} (h : Harmless v.plain.toList) :
    Harmless v.bracketed.toList := by
  rw [Value.toList_bracketed]
  exact .append (s := ['[']) (by decide) (h.append (by decide))

/-- The bracket after the text of an array belongs to no entity. -/
private theorem Value.harmless_of_bracketed {v : Value φ} {text : List Char}
    (hin : v.bracketed.toList <:+: text) (h : Harmless text) : Harmless v.plain.toList := by
  obtain ⟨before, after, rfl⟩ := hin
  have hsplit : before ++ v.bracketed.toList ++ after =
      (before ++ ['[']) ++ (v.plain.toList ++ ']' :: after) := by
    simp [Value.toList_bracketed]
  rw [hsplit] at h
  exact .of_append_left (by decide) h.of_append_right

/-- The text of a list item: everything is escaped but an array. -/
private theorem harmless_itemText (numbers : Number.Formatter) {format : Option String}
    (hformat : KeepsEscaping format) {v : Value φ}
    (h : v.isArray = true → Harmless v.plain.toList) :
    Harmless (itemText numbers format true v).toList := by
  rw [itemText]
  split
  · rename_i harray
    exact Value.harmless_bracketed (h harray)
  · exact harmless_formatValue numbers hformat (.inl rfl) v

/-- With escaping, the text of a value has markup in the arrays among the items of a list only. -/
private theorem harmless_valueText_iff (numbers : Number.Formatter) (asList : Bool)
    {format : Option String}
    (hformat : KeepsEscaping format) (v : Value φ) :
    Harmless (valueText numbers asList format true v).toList ↔
      (asList = true → v.NestedHarmless) := by
  have hescaped : ∀ {format} (w : Value φ), KeepsEscaping format →
      Harmless (formatValue numbers format true w).toList :=
    fun w h => harmless_formatValue numbers h (.inl rfl) w
  cases v with
  | null => exact iff_of_true harmless_nil fun _ => trivial
  | bool | number | string =>
    refine iff_of_true ?_ fun _ => trivial
    rw [valueText]
    · exact hescaped _ hformat
    all_goals nofun
  | record | function =>
    refine iff_of_true ?_ fun _ => trivial
    rw [valueText]
    exact hescaped _ keepsEscaping_none
  | array items =>
    cases asList with
    | false =>
      refine iff_of_true ?_ fun hlist => absurd hlist Bool.false_ne_true
      simp only [valueText, Bool.false_eq_true, if_false]
      exact hescaped _ keepsEscaping_none
    | true =>
      simp only [valueText, if_true, true_imp_iff, Value.NestedHarmless]
      constructor
      · intro h item hmem harray
        have hin := infix_joinList (List.mem_map_of_mem (f := itemText numbers format true) hmem)
        rw [itemText, if_pos harray] at hin
        exact Value.harmless_of_bracketed hin h
      · intro h
        refine harmless_joinList fun t ht => ?_
        obtain ⟨item, hmem, rfl⟩ := List.mem_map.1 ht
        exact harmless_itemText numbers hformat (h item hmem)

/-- None of the formats of the tag and of its links switches escaping off. -/
def Tag.KeepsEscaping (tag : Tag) : Prop :=
  TextTemplate.KeepsEscaping tag.format ∧ ∀ link ∈ tag.links, TextTemplate.KeepsEscaping link.format

/-- A value that is a harmless text. -/
def Value.IsHarmless (v : Value φ) : Prop := ∃ text, v = .string text ∧ Harmless text.toList

theorem Link.escapes_of_settlesEscape {link : Link} (h : link.settlesEscape = true)
    (hformat : KeepsEscaping link.format) :
    (link.format.isSome || link.escape) = true ∧ (link.escape = true ∨ Encodes link.format) := by
  simp only [Link.settlesEscape, Bool.or_eq_true, decide_eq_true_eq] at h
  rcases h with ((hescape | hraw) | hhtml) | hencode
  · exact ⟨by simp [hescape], .inl hescape⟩
  · exact absurd hraw hformat.1
  · exact absurd hhtml hformat.2
  · exact ⟨by simp [hencode], .inr hencode⟩

namespace Run

theorem Ends.any {α : Type} (m : Run φ α) : Ends (fun _ => True) (fun _ => True) m := by
  intro s
  cases m s <;> trivial

private theorem ends_findChain_length (host : Host φ) (policy : FailurePolicy) (scope : ScopeId)
    (overlays : List ScopeId) (links : List Link) :
    Ends (fun _ => True) (fun chain => chain.length = links.length)
      (findChain host policy scope overlays links) := by
  induction links with
  | nil => exact .pure rfl
  | cons link links ih =>
    apply (Ends.any (findScope host policy scope overlays link.key)).bind
    intro found _
    cases found with
    | none => exact .throw trivial
    | some id =>
      apply Ends.look
      intro t
      split
      · exact .throw trivial
      · exact ih.bind fun chain hchain => .pure (congrArg (· + 1) hchain)

/-- Behind a last link that settles the escaping stands a harmless text. -/
private theorem ends_passThrough_settled (env : Env φ) (policy : FailurePolicy)
    {steps : List (φ × Link)}
    (hsettled : (steps.map Prod.snd).getLast?.any Link.settlesEscape = true)
    (hformats : ∀ link ∈ steps.map Prod.snd, KeepsEscaping link.format) (v : Value φ) :
    Ends (fun _ => True) Value.IsHarmless (passThrough env policy steps v) := by
  induction steps generalizing v with
  | nil => cases hsettled
  | cons step steps ih =>
    obtain ⟨f, link⟩ := step
    obtain ⟨hformat, hrest⟩ := List.forall_mem_cons.1 hformats
    apply Ends.look
    intro t
    apply (Ends.any _).bind
    intro w _
    cases steps with
    | nil =>
      have hlast : link.settlesEscape = true := hsettled
      obtain ⟨happlies, hescape⟩ := Link.escapes_of_settlesEscape hlast hformat
      dsimp only
      rw [if_pos happlies]
      exact .pure ⟨_, rfl, harmless_formatValue env.numbers hformat hescape w⟩
    | cons next steps => exact ih hsettled hrest _

/-- What a tag resolves to when its last link settles the escaping. -/
private theorem ends_resolve_settled (env : Env φ) {tag : Tag} (hsettled : tag.outputEscaped = true)
    (hformats : tag.KeepsEscaping) (scope : ScopeId) (overlays : List ScopeId) :
    Ends (fun _ => True) (fun r => ∀ r' ∈ r, ∀ v ∈ r'.value, v.IsHarmless)
      (resolve env tag.binding scope overlays) := by
  apply (Ends.any _).bind
  intro found _
  cases found with
  | none => exact .pure nofun
  | some found =>
    dsimp only
    split
    · rename_i hempty
      have hnone : tag.links = [] := List.isEmpty_iff.1 hempty
      rw [Tag.outputEscaped, hnone] at hsettled
      cases hsettled
    · apply (ends_findChain_length _ _ _ _ _).bind
      intro chain hchain
      apply (Ends.any _).bind
      intro v _
      have hlinks : ((chain.map Prod.snd).zip tag.binding.links).map Prod.snd = tag.links :=
        List.map_snd_zip (Nat.le_of_eq (by rw [List.length_map, hchain]))
      refine (ends_passThrough_settled env _ ?_ ?_ _).bind fun w hw => ?_
      · rw [hlinks]
        exact hsettled
      · rw [hlinks]
        exact hformats.2
      · refine .pure fun r' hr' w' hw' => ?_
        cases hr'
        cases hw'
        exact hw

end Run

/-- **Escaping everything.** With all values escaped and no format that switches escaping off, the
text of a tag is harmless, whatever it resolves to and whichever functions it went through, with
the exception of arrays among the items of a list: the text of the tag is harmless exactly if
theirs are. -/
theorem harmless_tagText_iff {env : Env φ} {tag : Tag} {scope : ScopeId} {overlays : List ScopeId}
    {s s' : Session φ} {r : Resolution φ} (escaping : env.settings.escapeAll = true)
    (hformats : tag.KeepsEscaping)
    (h : Run.resolve env tag.binding scope overlays s = .ok (some r) s') :
    Harmless ((r.value.map (tagText env tag)).getD "").toList ↔
      (tag.isList = true → ∀ v ∈ r.value, v.NestedHarmless) := by
  cases hvalue : r.value with
  | none => exact iff_of_true harmless_nil fun _ => nofun
  | some v =>
    simp only [Option.map_some, Option.getD_some, Option.mem_some_iff, forall_eq', tagText,
      escaping, Bool.or_true, Bool.true_and]
    split
    · exact harmless_valueText_iff env.numbers tag.isList hformats.1 v
    · cases hsettled : tag.outputEscaped with
      | false => exact harmless_valueText_iff env.numbers tag.isList keepsEscaping_none v
      | true =>
        have hends := Run.ends_resolve_settled env hsettled hformats scope overlays s
        rw [h] at hends
        obtain ⟨text, rfl, htext⟩ := hends r rfl v hvalue
        refine iff_of_true ?_ fun _ => trivial
        simp only [valueText, formatValue]
        split
        · exact harmless_nil
        · exact htext

namespace NestedItems

def env : Env Unit where
  host := ⟨fun _ _ _ _ => .ok .null⟩
  settings := { Settings.default with escapeAll := true }
  numbers := Number.specFormatter
  templates := []

def tag : Tag := ⟨"{{&xs}}", some .list, .ofPath "xs" false, [], none, false⟩

/-- A list of an array and a text. -/
def data (inner : String) : Value Unit :=
  .record [("xs", .array [.array [.string inner], .string "&"])]

/-- What the tag resolves to, if its text is the given one. -/
theorem resolves (inner text : String)
    (h : (match Run.resolve env tag.binding ScopeTree.root [] (.start (data inner)) with
      | .ok (some r) _ => some ((r.value.map (tagText env tag)).getD "")
      | _ => none) = some text) :
    ∃ (r : Resolution Unit) (s' : Session Unit),
      Run.resolve env tag.binding ScopeTree.root [] (.start (data inner)) = .ok (some r) s' ∧
        (r.value.map (tagText env tag)).getD "" = text := by
  split at h
  · rename_i r s' heq
    exact ⟨r, s', heq, Option.some.inj h⟩
  · cases h

theorem tag_keepsEscaping : tag.KeepsEscaping := ⟨keepsEscaping_none, nofun⟩

end NestedItems

open NestedItems in
/-- An array without markup in a list. -/
theorem harmless_tagText_of_nested : ∃ (r : Resolution Unit) (s' : Session Unit),
    env.settings.escapeAll = true ∧ tag.KeepsEscaping ∧
      Run.resolve env tag.binding ScopeTree.root [] (.start (data "a")) = .ok (some r) s' ∧
      (r.value.map (tagText env tag)).getD "" = "[a] and &amp;" ∧
      (tag.isList = true → ∀ v ∈ r.value, v.NestedHarmless) := by
  obtain ⟨r, s', h, htext⟩ := resolves "a" "[a] and &amp;" (by decide +kernel)
  refine ⟨r, s', rfl, tag_keepsEscaping, h, htext,
    (harmless_tagText_iff rfl tag_keepsEscaping h).1 ?_⟩
  rw [htext]
  decide

open NestedItems in
/-- An array in a list keeps its markup. -/
theorem not_harmless_tagText_of_nested : ∃ (r : Resolution Unit) (s' : Session Unit),
    env.settings.escapeAll = true ∧ tag.KeepsEscaping ∧
      Run.resolve env tag.binding ScopeTree.root [] (.start (data "<b>")) = .ok (some r) s' ∧
      (r.value.map (tagText env tag)).getD "" = "[<b>] and &amp;" ∧
      ¬Harmless ((r.value.map (tagText env tag)).getD "").toList := by
  obtain ⟨r, s', h, htext⟩ :=
    resolves "<b>" "[<b>] and &amp;" (by decide +kernel)
  refine ⟨r, s', rfl, tag_keepsEscaping, h, htext, ?_⟩
  rw [htext]
  decide

end TextTemplate
