import TextTemplate.Proofs.Context

/-!
The first pass from two places. Nodes that look up nothing in context where the pass stands are
staged alike from any two places over the same data, as absolute keys lead to the same from both.
-/
namespace TextTemplate
variable {φ : Type}

/-- Whether nothing is looked up in context where the first pass stands: it is not in scope there,
or the nodes are closed. -/
def Node.Fixed (inScope : Bool) (nodes : List Node) : Prop :=
  inScope = false ∨ Node.allClosed nodes = true

namespace Node.Fixed

variable {inScope : Bool} {node : Node} {nodes body : List Node} {head : Section}

theorem of_cons (h : Fixed inScope (node :: nodes)) :
    Fixed inScope [node] ∧ Fixed inScope nodes := by
  rcases h with h | h
  · exact ⟨.inl h, .inl h⟩
  · simp only [allClosed, Bool.and_eq_true] at h
    exact ⟨.inr (by simp [allClosed, h.1]), .inr h.2⟩

theorem of_mem (h : Fixed inScope nodes) (hm : node ∈ nodes) : Fixed inScope [node] := by
  induction nodes with
  | nil => cases hm
  | cons first nodes ih =>
    rcases List.mem_cons.1 hm with rfl | hm
    · exact h.of_cons.1
    · exact ih h.of_cons.2 hm

theorem tag {tag : Tag} (h : Fixed inScope [.tag tag]) :
    (tag.key.inContext && inScope) = false := by
  rcases h with rfl | h
  · exact Bool.and_false _
  · have hc : tag.key.inContext = false := by simpa [allClosed, closed] using h
    rw [hc, Bool.false_and]

theorem block (h : Fixed inScope [.block head body]) :
    (head.key.inContext && inScope) = false ∧ (head.inclusive = false → Fixed inScope body) := by
  rcases h with rfl | h
  · exact ⟨Bool.and_false _, fun _ => .inl rfl⟩
  · simp only [allClosed, closed, Bool.and_eq_true, Bool.not_eq_true', Bool.or_eq_true] at h
    obtain ⟨⟨hc, hbody⟩, -⟩ := h
    refine ⟨by rw [hc, Bool.false_and], fun hi => .inr (hbody.resolve_left ?_)⟩
    exact Bool.eq_false_iff.1 hi

end Node.Fixed

theorem Section.Plain.anchored_of_absolute {head : Section} (hs : head.Plain)
    (hc : head.key.inContext = false) (path : String) : head.anchored path = head := by
  have hkey : head.key.anchored path = head.key := by simp [Key.anchored, hc]
  rw [Section.anchored, hkey, hs.links, List.map_nil, ← hs.links]

namespace Treeless

variable {env : Env φ} {data : Value φ} {inc : Inclusion → Place φ → Except TemplateError String}
  {p q far : Place φ} {overlays : List (Place φ)} {inScope : Bool} {waiting : List String}

/-- What is looked up without having to wait is over an absolute key, where it is not in context. -/
theorem absolute_of_not_mustWait {b : Binding} (hl : b.links = [])
    (hw : mustWait b inScope waiting = false) (hin : (b.key.inContext && inScope) = false) :
    b.key.inContext = false := by
  rw [mustWait_plain hl] at hw
  cases hc : b.key.inContext with
  | false => rfl
  | true => simp_all

theorem fate_waits {head : Section} (hw : mustWait head.binding inScope waiting = true) :
    fate env data p inScope waiting head = .ok .whole := by
  rw [fate, hw]
  rfl

/-- What becomes of one section, seen from the places `p` and `q`. -/
inductive Fate.Moved (head : Section) (p q : Place φ) (inScope : Bool) :
    Fate φ → Fate φ → Prop where
  | whole : Moved head p q inScope .whole .whole
  | hidden : Moved head p q inScope .hidden .hidden
  | flat (r : Place φ) (b : Bool) : Moved head p q inScope (.flat r b) (.flat r b)
  | around (exclusive : head.inclusive = false) :
    Moved head p q inScope (.flat p inScope) (.flat q inScope)
  | copied (absolute : head.key.inContext = false) (path : String) :
    Moved head p q inScope (.copied false path) (.copied false path)

private theorem fate_moved (waiting : List String) {head : Section} (hs : head.Plain)
    (hin : (head.key.inContext && inScope) = false) (hp : Stance env data p [])
    (hq : Stance env data q []) :
    ∃ f f', fate env data p inScope waiting head = .ok f ∧
      fate env data q inScope waiting head = .ok f' ∧ Fate.Moved head p q inScope f f' := by
  cases hw : mustWait head.binding inScope waiting with
  | true => exact ⟨_, _, fate_waits hw, fate_waits hw, .whole⟩
  | false =>
    have hc : head.key.inContext = false :=
      absolute_of_not_mustWait (b := head.binding) hs.links hw hin
    have hsame : resolve env data head.binding p [] = resolve env data head.binding q [] :=
      resolve_moved hs.links hs.key hc hp hq
    rcases resolve_bare env data (b := head.binding) hs.links hp.clean with
      ⟨-, hr⟩ | ⟨r, -, hclean, hr⟩
    · have hwhole : ∀ place : Place φ, resolve env data head.binding place [] = .ok none →
          fate env data place inScope waiting head = .ok .whole := by
        intro place hr
        rw [fate, hw, hr]
        simp only [hin, Bool.false_eq_true, if_false, bind, Except.bind]
        rfl
      exact ⟨_, _, hwhole p hr, hwhole q (hsame ▸ hr), .whole⟩
    · have hshown : display env data head.inclusive r.bound head.raw = .ok _ :=
        display_clean hclean.bound head.inclusive head.raw
      refine ⟨_, _, fate_plain hs.passes hw hr hshown, fate_plain hs.passes hw (hsame ▸ hr) hshown,
        ?_⟩
      cases r.bound.isArray with
      | false => cases shows env head.inclusive r.bound <;> constructor
      | true =>
        by_cases hsize : r.bound.size = 0
        · cases hi : head.inclusive with
          | true => simpa [hsize] using .hidden
          | false => simpa [hsize] using .around hi
        · cases hi : head.inclusive with
          | true => simpa [hsize] using .copied hc r.path
          | false => simpa [hsize] using .hidden

mutual

private theorem stageNode_moved : (node : Node) → ∀ {p q : Place φ} (inScope : Bool)
    (waiting : List String), Node.Plain node → Node.Fixed inScope [node] → Stance env data p [] →
    Stance env data q [] → stageNode env data inc p inScope waiting node =
      stageNode env data inc q inScope waiting node
  | .text _, _, _, _, _, _, _, _, _ => by rw [stageNode, stageNode]
  | .inclusion _, _, _, _, _, hn, _, _, _ => hn.elim
  | .tag tag, p, q, inScope, waiting, hn, hfixed, hp, hq => by
    rw [stageNode, stageNode]
    cases hw : mustWait tag.binding inScope waiting with
    | true => rfl
    | false =>
      have hc := absolute_of_not_mustWait (b := tag.binding) hn.links hw hfixed.tag
      rw [resolve_moved (b := tag.binding) hn.links hn.key hc hp hq]
  | .block head body, p, q, inScope, waiting, hn, hfixed, hp, hq => by
    obtain ⟨hin, hbody⟩ := hfixed.block
    obtain ⟨f, f', hf, hf', hmoved⟩ := fate_moved waiting hn.1 hin hp hq
    rw [stageNode_block, stageNode_block, hf, hf']
    cases hmoved with
    | whole | hidden | flat => rfl
    | around exclusive => exact stageNodes_moved body inScope waiting hn.2 (hbody exclusive) hp hq
    | copied absolute path =>
      have hhead : head.anchored p.path = head.anchored q.path :=
        (hn.1.anchored_of_absolute absolute _).trans (hn.1.anchored_of_absolute absolute _).symm
      simp only [bind, Except.bind, hhead,
        stageNodes_moved body false (path :: waiting) hn.2 (.inl rfl) hp hq]

private theorem stageNodes_moved : (nodes : List Node) → ∀ {p q : Place φ} (inScope : Bool)
    (waiting : List String), Node.AllPlain nodes → Node.Fixed inScope nodes → Stance env data p [] →
    Stance env data q [] → stageNodes env data inc p inScope waiting nodes =
      stageNodes env data inc q inScope waiting nodes
  | [], _, _, _, _, _, _, _, _ => by rw [stageNodes, stageNodes]
  | node :: nodes, p, q, inScope, waiting, hn, hfixed, hp, hq => by
    rw [stageNodes, stageNodes, stageNode_moved node inScope waiting hn.1 hfixed.of_cons.1 hp hq,
      stageNodes_moved nodes inScope waiting hn.2 hfixed.of_cons.2 hp hq]

end

theorem visitText_moved {nodes : List Node} (hn : Node.AllPlain nodes)
    (hfixed : Node.Fixed inScope nodes) (hp : Stance env data p []) (hq : Stance env data q []) :
    visitText env data inc (.both p inScope waiting far overlays) nodes =
      visitText env data inc (.both q inScope waiting far overlays) nodes := by
  rw [visitText, visitText, stagedText, stagedText,
    stageNodes_moved nodes inScope waiting hn hfixed hp hq]

/-- One visit to nodes, but for where the first pass stands. -/
inductive Visit.Moved (env : Env φ) (data : Value φ) (nodes : List Node) :
    Visit φ → Visit φ → Prop where
  | same (v : Visit φ) : Moved env data nodes v v
  | both {p q far : Place φ} {inScope : Bool} {waiting : List String} {overlays : List (Place φ)}
      (hfixed : Node.Fixed inScope nodes) (hp : Stance env data p []) (hq : Stance env data q []) :
      Moved env data nodes (.both p inScope waiting far overlays)
        (.both q inScope waiting far overlays)

theorem Visit.Moved.of_mem {v w : Visit φ} {node : Node} {nodes : List Node}
    (h : Moved env data nodes v w) (hm : node ∈ nodes) : Moved env data [node] v w := by
  cases h with
  | same => exact .same _
  | both hfixed hp hq => exact .both (hfixed.of_mem hm) hp hq

/-- What a visit goes on to, one from another place goes on to as well. -/
theorem Goes.moved {head : Section} {body : List Node} (hs : head.Plain) {v w v' : Visit φ}
    (hg : Goes env data head v w) (h : Visit.Moved env data [.block head body] v v') :
    ∃ w', Goes env data head v' w' ∧ Visit.Moved env data body w w' := by
  cases h with
  | same => exact ⟨w, hg, .same w⟩
  | @both p q far inScope waiting overlays hfixed hp hq =>
    obtain ⟨hin, hbody⟩ := hfixed.block
    obtain ⟨f, f', hf, hf', hmoved⟩ := fate_moved waiting hs hin hp hq
    cases hg with
    | whole left enters =>
      cases hf.symm.trans left
      cases hmoved
      exact ⟨_, .whole hf' enters, .same _⟩
    | flat flattened =>
      cases hf.symm.trans flattened
      cases hmoved with
      | flat => exact ⟨_, .flat hf', .same _⟩
      | around exclusive => exact ⟨_, .flat hf', .both (hbody exclusive) hp hq⟩
    | copied copied enters =>
      cases hf.symm.trans copied
      cases hmoved with
      | copied absolute path =>
        have hhead : head.anchored p.path = head.anchored q.path :=
          (hs.anchored_of_absolute absolute _).trans (hs.anchored_of_absolute absolute _).symm
        exact ⟨_, .copied hf' (hhead ▸ enters), .both (.inl rfl) hp hq⟩

end Treeless

end TextTemplate
