import TextTemplate.Proofs.Nodes
import TextTemplate.Proofs.Place.Region
import TextTemplate.Proofs.Resolution

/-!
What parsing promises of the keys in a template: each is cut at its dots, and a key seen from the
whole data is not empty.
-/
namespace TextTemplate

/-- Whenever the computation gives a result, the result has the property. -/
def Yields {ε α : Type} (P : α → Prop) (x : Except ε α) : Prop := ∀ a, x = .ok a → P a

namespace Yields

variable {ε δ α β : Type} {P : α → Prop} {Q : β → Prop}

theorem ok {a : α} (h : P a) : Yields P (.ok a : Except ε α) := by
  rintro _ ⟨⟩
  exact h

theorem error {e : ε} : Yields P (.error e) := fun _ h => nomatch h

theorem bind {x : Except ε α} {f : α → Except ε β} (h : Yields P x)
    (hf : ∀ a, P a → Yields Q (f a)) : Yields Q (x >>= f) := by
  cases x with
  | error e => exact error
  | ok a => exact hf a (h a rfl)

theorem map {x : Except ε α} {f : α → β} (h : Yields P x) (hf : ∀ a, P a → Q (f a)) :
    Yields Q (x.map f) := by
  cases x with
  | error e => exact error
  | ok a => exact ok (hf a (h a rfl))

theorem mapError {x : Except ε α} {f : ε → δ} (h : Yields P x) : Yields P (x.mapError f) := by
  cases x with
  | error e => exact error
  | ok a => exact ok (h a rfl)

theorem mapM {f : β → Except ε α} {bs : List β} (hf : ∀ b ∈ bs, Yields P (f b)) :
    Yields (fun as => ∀ a ∈ as, P a) (bs.mapM f) := by
  induction bs with
  | nil => exact ok (by simp)
  | cons b bs ih =>
    rw [List.mapM_cons]
    have htail := ih fun c hc => hf c (List.mem_cons_of_mem _ hc)
    refine (hf b List.mem_cons_self).bind fun a ha => htail.bind fun as has => ok fun c hc => ?_
    rcases List.mem_cons.1 hc with rfl | hc
    · exact ha
    · exact has c hc

end Yields

theorem Key.formed_ofPath {path : String} {inContext : Bool} (h : inContext = false → path ≠ "") :
    (Key.ofPath path inContext).Formed := ⟨rfl, h⟩

/-- A term whose key may be empty only when it is seen from the enclosing scope. -/
def Term.Keyed (inContext : Bool) (term : Term) : Prop := inContext = false → term.key ≠ []

theorem Term.yields_parseKeyed (inContext : Bool) (text : List Char) :
    Yields (Term.Keyed inContext) (Term.parseKeyed inContext text) := by
  rw [Term.parseKeyed]
  refine Yields.bind (P := fun _ => True) (fun _ _ => trivial) fun term _ => ?_
  split
  · exact .error
  · rename_i hne
    refine .ok fun hin hkey => hne ?_
    simp [hin, hkey]

theorem Term.Keyed.formed {inContext : Bool} {term : Term} (h : term.Keyed inContext) :
    (Key.ofPath (String.ofList term.key) inContext).Formed :=
  Key.formed_ofPath fun hin he => h hin (by simpa using he)

namespace Link

private theorem yields_parseChars (name : List Char) :
    Yields (fun link => link.key.Formed) (parseChars name) := by
  rw [parseChars]
  split
  · exact .error
  · exact (Term.yields_parseKeyed _ _).map fun term h => h.formed

end Link

namespace Tag

private theorem yields_parseTerms (inContext : Bool) (text : List Char) :
    Yields (fun p => p.1.Keyed inContext ∧ ∀ link ∈ p.2, Key.Formed link.key)
      (parseTerms inContext text) := by
  rw [parseTerms]
  split
  · rename_i head name names _
    have hlinks : Yields (fun links => ∀ link ∈ links, Key.Formed link.key)
        ((name :: names).mapM fun name => Link.parseChars (Text.trim name)) :=
      Yields.mapM fun name _ => Link.yields_parseChars (Text.trim name)
    have hrest : Yields (fun p => p.1.Keyed inContext ∧ ∀ link ∈ p.2, Key.Formed link.key)
        (((name :: names).mapM fun name => Link.parseChars (Text.trim name)) >>= fun links =>
          Term.parseKeyed inContext head >>= fun term => pure (term, links)) :=
      hlinks.bind fun links hl => (Term.yields_parseKeyed inContext head).bind fun term ht =>
        .ok ⟨ht, hl⟩
    split
    · exact .error
    · exact hrest
  · exact (Term.yields_parseKeyed inContext text).map fun term h => ⟨h, by simp⟩

private theorem yields_parseChars (raw : String) (directive : Option Directive) (text : List Char) :
    Yields (fun tag => tag.binding.Formed) (parseChars raw directive text) := by
  rw [parseChars]
  refine (yields_parseTerms _ _).bind fun ⟨term, links⟩ ⟨hterm, hlinks⟩ => .ok fun key hkey => ?_
  rcases List.mem_cons.1 hkey with rfl | hkey
  · exact hterm.formed
  · obtain ⟨link, hm, rfl⟩ := List.mem_map.1 hkey
    exact hlinks link hm

/-- A parsed tag is a comment, or its keys are formed. -/
theorem yields_parse (raw content : String) :
    Yields (fun tag => tag.directive = some .comment ∨ tag.binding.Formed) (parse raw content) := by
  refine Yields.mapError ?_
  rw [parseContent]
  have hchars : ∀ raw directive text,
      Yields (fun tag => tag.directive = some .comment ∨ tag.binding.Formed)
        (parseChars raw directive text) :=
    fun raw directive text tag h => .inr (yields_parseChars raw directive text tag h)
  split
  · exact .ok (.inl rfl)
  · split
    · exact .ok (.inl rfl)
    · exact hchars _ _ _
    · exact hchars _ _ _

end Tag

/-- A section as parsing leaves it: with formed keys, and with a function if its text is passed. -/
structure Section.Formed (s : Section) : Prop where
  keys : s.binding.Formed
  passes : s.passesText = true → s.links ≠ []

private theorem Inclusion.yields_ofTag {tag : Tag} (h : tag.binding.Formed) :
    Yields (fun i => i.key.Formed) (Inclusion.ofTag tag) := by
  rw [Inclusion.ofTag]
  split
  · exact .ok (h _ List.mem_cons_self)
  · exact .error

private theorem Section.yields_ofTag {tag : Tag} (h : tag.binding.Formed) :
    Yields Section.Formed (Section.ofTag tag) := by
  rw [Section.ofTag]
  split
  · exact .error
  · split
    · exact .error
    · have hkey : tag.key.Formed := h _ List.mem_cons_self
      by_cases hd : tag.directive = some .passSection
      · simp only [hd, if_true]
        refine .ok ⟨fun key hk => ?_, fun _ => List.cons_ne_nil _ _⟩
        simp only [Binding.keys, Section.binding, List.map_cons, List.mem_cons] at hk
        rcases hk with rfl | rfl | hk
        · exact hkey
        · exact Key.formed_ofPath hkey.text
        · exact h key (List.mem_cons_of_mem _ hk)
      · simp only [hd, if_false]
        exact .ok ⟨h, fun hp => absurd hp (by simp [Section.passesText, hd])⟩

namespace Node

/-- Nodes with their keys as parsing leaves them. -/
abbrev Formed : Node → Prop :=
  Every (fun t => t.binding.Formed) (fun i => i.key.Formed) Section.Formed

abbrev AllFormed : List Node → Prop :=
  EveryOf (fun t => t.binding.Formed) (fun i => i.key.Formed) Section.Formed

/-- Every way a token goes on keeps open sections and finished nodes formed. -/
private theorem yields_assemble {frames : List Frame} {level : List Node} (tokens : List Token)
    (hf : ∀ f ∈ frames, f.head.Formed ∧ AllFormed f.outer) (hl : AllFormed level) :
    Yields AllFormed (assemble frames level tokens) := by
  induction tokens generalizing frames level with
  | nil =>
    cases frames with
    | nil => exact .ok (hl.reverse)
    | cons frame frames => exact .error
  | cons token tokens ih =>
    cases token with
    | text shown =>
      rw [assemble]
      exact ih hf (hl.pushText shown)
    | tag raw content =>
      rw [assemble]
      refine (Tag.yields_parse _ _).bind fun tag htag => ?_
      split
      · exact ih hf hl
      · rename_i hd
        have ht := htag.resolve_left (by simp [hd])
        exact (Inclusion.yields_ofTag ht).bind fun i hi => ih hf ⟨hi, hl⟩
      · split
        · exact .error
        · rename_i frame frames'
          obtain ⟨hhead, houter⟩ := hf frame List.mem_cons_self
          split
          · exact ih (fun f hm => hf f (List.mem_cons_of_mem _ hm))
              ⟨⟨hhead, hl.reverse⟩, houter⟩
          · exact .error
      · rename_i d hcomment _ _ hd
        have ht : tag.binding.Formed := htag.resolve_left fun h => hcomment (by simp_all)
        split
        · refine (Section.yields_ofTag ht).bind fun head hhead => ih (fun f hm => ?_) trivial
          rcases List.mem_cons.1 hm with rfl | hm
          · exact ⟨hhead, hl⟩
          · exact hf f hm
        · exact ih hf ⟨ht, hl⟩
      · rename_i hd
        exact ih hf ⟨htag.resolve_left (by simp [hd]), hl⟩

end Node

/-- A template with its keys as parsing leaves them. -/
def Template.Formed (t : Template) : Prop := Node.AllFormed t.nodes

/-- Parsing keeps its promise. -/
theorem Template.formed_of_compile {source : String} {delimiters : Delimiters} {t : Template}
    (h : Template.compile source delimiters = .ok t) : t.Formed := by
  have hyields : Yields Template.Formed (Template.compile source delimiters) := by
    refine Yields.bind (P := fun _ => True) (fun _ _ => trivial) fun _ _ => ?_
    have hnodes : Yields Node.AllFormed (Node.parse source delimiters) :=
      Node.yields_assemble _ (by simp) (by simp [Node.EveryOf])
    exact hnodes.bind fun nodes hn => .ok hn
  exact hyields t h

namespace RenderOptions

/-- All templates given as parsed are as parsing leaves them. -/
def Formed (options : RenderOptions) : Prop :=
  ∀ name t, (name, Partial.compiled t) ∈ options.partials → t.Formed

theorem formed_of_compilePartials {options : RenderOptions} (ho : options.Formed)
    {templates : List (String × Template)} (h : options.compilePartials = .ok templates) :
    ∀ name t, (name, t) ∈ templates → t.Formed := by
  have hyields : Yields (fun ts : List (String × Template) => ∀ nt ∈ ts, nt.2.Formed)
      options.compilePartials := by
    refine Yields.mapM fun ⟨name, p⟩ hp => Yields.map (P := Template.Formed) ?_ fun t ht => ht
    cases p with
    | compiled t => exact .ok (ho name t hp)
    | source text => exact Yields.mapError fun t ht => Template.formed_of_compile ht
  exact fun name t hm => hyields templates h _ hm

end RenderOptions

end TextTemplate
