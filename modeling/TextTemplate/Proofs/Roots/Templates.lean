import TextTemplate.Proofs.Parsing
import TextTemplate.Proofs.Scope.Rooted

/-!
Templates that spare the top. A section may put something in the place of the whole data: a loop over
it, or the result of functions. The sections that cannot are told by their keys, which lead below the
top, and a copy of such a section with anchored keys is one again.
-/
namespace TextTemplate
variable {φ : Type}

/-- Whether the section stands for a place below the top, or shows the top as it is. `inside` says
that what is in context is below the top. -/
def Section.SparesTop (data : Value φ) (inside : Bool) (head : Section) : Prop :=
  head.key.leadsBelow inside = true ∨ head.links = [] ∧ data.isArray = false

namespace Node

mutual

/-- No section puts anything in the place of the top. `inside` says that the node is read from below
the top; `strict` says that this is not to be relied on any more, as what waits in a section whose
text is passed on is read from around the section in the end. -/
def SparesTop (data : Value φ) (strict inside : Bool) : Node → Prop
  | block head body =>
    if head.passesText then AllSpareTop data true false body
    else head.SparesTop data inside ∧
      AllSpareTop data (strict || !head.key.leadsBelow inside)
        (!strict && head.inclusive && head.key.leadsBelow inside) body
  | _ => True

def AllSpareTop (data : Value φ) (strict inside : Bool) : List Node → Prop
  | [] => True
  | node :: nodes => SparesTop data strict inside node ∧ AllSpareTop data strict inside nodes

end

end Node

theorem Key.leadsBelow_mono {key : Key} {inside inside' : Bool}
    (hi : inside = true → inside' = true) (h : key.leadsBelow inside = true) :
    key.leadsBelow inside' = true := by
  simp only [leadsBelow, Bool.or_eq_true, Bool.and_eq_true] at h ⊢
  exact h.imp_right (And.imp_right hi)

theorem Key.leadsBelow_of_absolute {key : Key} (h : key.inContext = false) (inside : Bool) :
    key.leadsBelow inside = isNamed key.text := by
  rw [leadsBelow, h, Bool.false_and, Bool.or_false]

/-- A key that leads below the top from a scope does so from everywhere when it is anchored. -/
theorem Key.isNamed_anchored {key : Key} {inside : Bool} {path : String}
    (hpath : path = "" ∨ isNamed path = true)
    (hin : key.inContext = true → inside = true → isNamed path = true)
    (h : key.leadsBelow inside = true) : isNamed (key.anchored path).text = true := by
  by_cases hc : key.inContext = true
  · have hjoined : isNamed path = true ∨ path = "" ∧ isNamed key.text = true := by
      simp only [leadsBelow, Bool.or_eq_true, Bool.and_eq_true] at h
      rcases h with hnamed | ⟨-, hinside⟩
      · exact hpath.symm.imp_right fun he => ⟨he, hnamed⟩
      · exact .inl (hin hc hinside)
    have hnamed := isNamed_joinPath hjoined
    rw [anchored, if_pos ⟨hc, ne_empty_of_isNamed hnamed⟩]
    exact hnamed
  · rw [anchored, if_neg fun h => hc h.1]
    rwa [leadsBelow_of_absolute (by simpa using hc)] at h

theorem Section.passesText_anchored (path : String) (head : Section) :
    (head.anchored path).passesText = head.passesText := rfl

namespace Node

variable {data : Value φ}

mutual

theorem SparesTop.mono : (node : Node) → ∀ {strict strict' inside inside' : Bool},
    (strict' = true → strict = true) → (inside = true → inside' = true) →
    SparesTop data strict inside node → SparesTop data strict' inside' node
  | .text _, _, _, _, _, _, _, _ => trivial
  | .tag _, _, _, _, _, _, _, _ => trivial
  | .inclusion _, _, _, _, _, _, _, _ => trivial
  | .block head body, strict, strict', inside, inside', hs, hi, h => by
    rw [SparesTop] at h ⊢
    split at h
    · rename_i hp
      rw [if_pos hp]
      exact h
    · rename_i hp
      obtain ⟨hhead, hbody⟩ := h
      have hleads : head.key.leadsBelow inside = true → head.key.leadsBelow inside' = true :=
        Key.leadsBelow_mono hi
      rw [if_neg hp]
      refine ⟨hhead.imp_left hleads, AllSpareTop.mono body ?_ ?_ hbody⟩
      · intro h
        cases hl : head.key.leadsBelow inside with
        | false => simp
        | true =>
          rw [hleads hl] at h
          simpa using hs (by simpa using h)
      · simp only [Bool.and_eq_true, Bool.not_eq_true']
        rintro ⟨⟨hstrict, hincl⟩, hl⟩
        refine ⟨⟨?_, hincl⟩, hleads hl⟩
        cases hs' : strict' with
        | false => rfl
        | true => cases (hs hs').symm.trans hstrict

theorem AllSpareTop.mono : (nodes : List Node) → ∀ {strict strict' inside inside' : Bool},
    (strict' = true → strict = true) → (inside = true → inside' = true) →
    AllSpareTop data strict inside nodes → AllSpareTop data strict' inside' nodes
  | [], _, _, _, _, _, _, _ => trivial
  | node :: nodes, _, _, _, _, hs, hi, h =>
    ⟨SparesTop.mono node hs hi h.1, AllSpareTop.mono nodes hs hi h.2⟩

end

variable {strict inside inside' : Bool}

theorem allSpareTop_append {a b : List Node} (ha : AllSpareTop data strict inside a)
    (hb : AllSpareTop data strict inside b) : AllSpareTop data strict inside (a ++ b) := by
  induction a with
  | nil => exact hb
  | cons node a ih => exact ⟨ha.1, ih ha.2⟩

/-- Where a section with an absolute key is read from makes no difference. -/
theorem SparesTop.of_absolute {head : Section} {body : List Node}
    (hc : head.key.inContext = false) (h : SparesTop data strict inside (.block head body)) :
    SparesTop data strict inside' (.block head body) := by
  rw [SparesTop, Section.SparesTop, Key.leadsBelow_of_absolute hc] at h ⊢
  exact h

/-- A section whose keys are anchored spares the top, from wherever it is read, as it did. -/
theorem SparesTop.copy {head : Section} {staged : List Node} {later : Bool} {path : String}
    (hpath : path = "" ∨ isNamed path = true)
    (hin : head.key.inContext = true → inside = true → isNamed path = true)
    (hp : head.passesText = false) (hhead : head.SparesTop data inside)
    (hstaged : AllSpareTop data (strict || !head.key.leadsBelow inside)
      (!strict && head.inclusive && head.key.leadsBelow inside) staged) :
    SparesTop data strict later (.block (head.anchored path) staged) := by
  rw [SparesTop, Section.passesText_anchored, if_neg (by rw [hp]; exact Bool.false_ne_true)]
  have hanchored : head.key.leadsBelow inside = true →
      (head.anchored path).key.leadsBelow later = true := fun hl => by
    rw [Key.leadsBelow, show isNamed (head.anchored path).key.text = true from
      Key.isNamed_anchored hpath hin hl, Bool.true_or]
  refine ⟨hhead.imp hanchored (And.imp_left fun hl => ?_), ?_⟩
  · simp [Section.anchored, hl]
  · cases hl : head.key.leadsBelow inside with
    | true =>
      rw [hl] at hstaged
      rw [hanchored hl]
      exact hstaged
    | false =>
      rw [hl] at hstaged
      refine AllSpareTop.mono staged ?_ ?_ hstaged
      · simp
      · simp

end Node

theorem Section.passesText_of_exclusive {head : Section} (h : head.inclusive = false) :
    head.passesText = false := by
  have hd : head.opener.directive = some .sectionExclude := by simpa [inclusive] using h
  simp [passesText, hd]

theorem Section.Formed.anchored {head : Section} (h : head.Formed) (path : String) :
    (head.anchored path).Formed := by
  refine ⟨fun key hk => ?_, fun hp => ?_⟩
  · rw [Section.keys_anchored] at hk
    obtain ⟨key, hm, rfl⟩ := List.mem_map.1 hk
    exact (h.keys key hm).anchored path
  · simpa [Section.anchored] using h.passes hp

end TextTemplate
