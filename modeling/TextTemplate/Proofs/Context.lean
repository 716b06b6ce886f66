import TextTemplate.Proofs.Copies

/-!
Templates with one place left open, and how the passes come to that place. Two lists of nodes can
stand for each other in a template if they come to the same text on every visit to their place.
-/
namespace TextTemplate
variable {φ : Type}

/-- A template with one place left open, among the nodes of a level or inside one of its sections. -/
inductive Context where
  | hole (before after : List Node)
  | inside (before : List Node) (head : Section) (body : Context) (after : List Node)

namespace Context

def fill (nodes : List Node) : Context → List Node
  | hole before after => before ++ nodes ++ after
  | inside before head body after => before ++ [.block head (fill nodes body)] ++ after

/-- The nodes around the open place are as parsing leaves them. -/
def Formed : Context → Prop
  | hole before after => Node.AllFormed before ∧ Node.AllFormed after
  | inside before head body after =>
    head.Formed ∧ body.Formed ∧ Node.AllFormed before ∧ Node.AllFormed after

theorem Formed.fill {C : Context} (h : C.Formed) {nodes : List Node} (hn : Node.AllFormed nodes) :
    Node.AllFormed (C.fill nodes) := by
  induction C with
  | hole before after =>
    exact Node.everyOf_append.2 ⟨Node.everyOf_append.2 ⟨h.1, hn⟩, h.2⟩
  | inside before head body after ih =>
    obtain ⟨hhead, hbody, hbefore, hafter⟩ := h
    exact Node.everyOf_append.2
      ⟨Node.everyOf_append.2 ⟨hbefore, ⟨hhead, ih hbody⟩, trivial⟩, hafter⟩

end Context

namespace Treeless

/-- How the passes come to a level of nodes. -/
inductive Visit (φ : Type) where
  /-- The first pass stands at `place`; the second renders from `far` what the first leaves. -/
  | both (place : Place φ) (inScope : Bool) (waiting : List String) (far : Place φ)
      (overlays : List (Place φ))
  /-- A section around was left whole, and only the second pass comes here. -/
  | second (place : Place φ) (overlays : List (Place φ))

namespace Visit

def start (data : Value φ) : Visit φ := .both (.top data) true [] (.top data) []

/-- Where the second pass stands. -/
def far : Visit φ → Place φ
  | both _ _ _ far _ => far
  | second place _ => place

def overlays : Visit φ → List (Place φ)
  | both _ _ _ _ overlays => overlays
  | second _ overlays => overlays

/-- The scope around the nodes: where the first pass stands, if keys in context are seen from there. -/
def around : Visit φ → Place φ
  | both place inScope _ far _ => if inScope then place else far
  | second place _ => place

end Visit

/-- The text that nodes come to on a visit. -/
def visitText (env : Env φ) (data : Value φ)
    (inc : Inclusion → Place φ → Except TemplateError String) : Visit φ → List Node → Option String
  | .both place inScope waiting far overlays, nodes =>
    stagedText env data inc place inScope waiting far overlays nodes
  | .second place overlays, nodes => levelText env data inc place overlays nodes

variable {env : Env φ} {data : Value φ} {inc : Inclusion → Place φ → Except TemplateError String}

theorem visitText_append (v : Visit φ) (a b : List Node) :
    visitText env data inc v (a ++ b) = (visitText env data inc v a).bind fun text =>
      (visitText env data inc v b).map (text ++ ·) := by
  cases v with
  | both => exact stagedText_append a b
  | second => exact levelText_append a b

/-- Visits to the body of a section that is visited itself. -/
inductive Goes (env : Env φ) (data : Value φ) (head : Section) : Visit φ → Visit φ → Prop where
  | whole {place far p : Place φ} {inScope : Bool} {waiting : List String}
      {overlays os : List (Place φ)} (left : fate env data place inScope waiting head = .ok .whole)
      (enters : Enters env data head far overlays p os) :
      Goes env data head (.both place inScope waiting far overlays) (.second p os)
  | flat {place far p : Place φ} {inScope b : Bool} {waiting : List String}
      {overlays : List (Place φ)}
      (flattened : fate env data place inScope waiting head = .ok (.flat p b)) :
      Goes env data head (.both place inScope waiting far overlays) (.both p b waiting far overlays)
  | copied {place far p : Place φ} {inScope b : Bool} {waiting : List String}
      {overlays os : List (Place φ)} {path : String}
      (copied : fate env data place inScope waiting head = .ok (.copied b path))
      (enters : Enters env data (head.anchored place.path) far overlays p os) :
      Goes env data head (.both place inScope waiting far overlays)
        (.both place b (path :: waiting) p os)
  | second {place p : Place φ} {overlays os : List (Place φ)}
      (enters : Enters env data head place overlays p os) :
      Goes env data head (.second place overlays) (.second p os)

/-- Visits to the open place of a template that is visited. -/
inductive Meets (env : Env φ) (data : Value φ) : Context → Visit φ → Visit φ → Prop where
  | hole {before after : List Node} {v : Visit φ} : Meets env data (.hole before after) v v
  | inside {before after : List Node} {head : Section} {body : Context} {v w x : Visit φ}
      (goes : Goes env data head v w) (meets : Meets env data body w x) :
      Meets env data (.inside before head body after) v x

/-- Whether the first pass gets through nodes, seen from a place. -/
def Stages (env : Env φ) (data : Value φ)
    (inc : Inclusion → Place φ → Except TemplateError String) (place : Place φ) (inScope : Bool)
    (waiting : List String) (nodes : List Node) : Bool :=
  (stageNodes env data inc place inScope waiting nodes).toOption.isSome

section Blocks

variable {place : Place φ} {inScope : Bool} {waiting : List String} {head : Section}
  {body body' : List Node}

private theorem stages_cons (node : Node) (nodes : List Node) :
    Stages env data inc place inScope waiting (node :: nodes) =
      ((stageNode env data inc place inScope waiting node).toOption.isSome &&
        Stages env data inc place inScope waiting nodes) := by
  rw [Stages, Stages, stageNodes]
  cases stageNode env data inc place inScope waiting node with
  | error e => rfl
  | ok x => cases stageNodes env data inc place inScope waiting nodes <;> rfl

private theorem stages_append (a b : List Node) :
    Stages env data inc place inScope waiting (a ++ b) =
      (Stages env data inc place inScope waiting a &&
        Stages env data inc place inScope waiting b) := by
  induction a with
  | nil => simp [Stages, stageNodes, pure, Except.pure, Except.toOption]
  | cons node a ih => rw [List.cons_append, stages_cons, stages_cons, ih, Bool.and_assoc]

theorem isSome_copy (x : Except TemplateError (List Node)) :
    (x >>= fun staged => pure [Node.block head staged]).toOption.isSome = x.toOption.isSome := by
  cases x <;> rfl

/-- The first pass gets through a section if it gets through what it makes of the body. -/
private theorem stages_block
    (hflat : ∀ p b, fate env data place inScope waiting head = .ok (.flat p b) →
      Stages env data inc p b waiting body = Stages env data inc p b waiting body')
    (hcopied : ∀ b path, fate env data place inScope waiting head = .ok (.copied b path) →
      Stages env data inc place b (path :: waiting) body =
        Stages env data inc place b (path :: waiting) body') :
    Stages env data inc place inScope waiting [.block head body] =
      Stages env data inc place inScope waiting [.block head body'] := by
  rw [stages_cons, stages_cons]
  refine congrArg (· && _) ?_
  rw [stageNode_block, stageNode_block]
  cases hf : fate env data place inScope waiting head with
  | error e => rfl
  | ok f =>
    cases f with
    | whole => rfl
    | hidden => rfl
    | flat p b => exact hflat p b hf
    | copied b path => exact (isSome_copy _).trans ((hcopied b path hf).trans (isSome_copy _).symm)

private theorem levelText_block {p : Place φ} {os : List (Place φ)}
    (h : ∀ q os', Enters env data head p os q os' →
      levelText env data inc q os' body = levelText env data inc q os' body') :
    levelText env data inc p os [.block head body] =
      levelText env data inc p os [.block head body'] := by
  rw [levelText_singleton, levelText_singleton]
  exact expandSection_congr h

/-- The text of a section depends on its body only where it is visited. -/
private theorem visitText_block {v : Visit φ}
    (hstages : ∀ place far inScope waiting overlays b path,
      v = .both place inScope waiting far overlays →
      fate env data place inScope waiting head = .ok (.copied b path) →
      Stages env data inc place b (path :: waiting) body =
        Stages env data inc place b (path :: waiting) body')
    (h : ∀ w, Goes env data head v w →
      visitText env data inc w body = visitText env data inc w body') :
    visitText env data inc v [.block head body] = visitText env data inc v [.block head body'] := by
  cases v with
  | second place overlays => exact levelText_block fun q os he => h _ (.second he)
  | both place inScope waiting far overlays =>
    rw [visitText, visitText, stagedText_singleton, stagedText_singleton, stagedNodeText,
      stagedNodeText, stageNode_block, stageNode_block]
    cases hf : fate env data place inScope waiting head with
    | error e => rfl
    | ok f =>
      cases f with
      | whole => exact levelText_block fun q os he => h _ (.whole hf he)
      | hidden => rfl
      | flat p b => exact h _ (.flat hf)
      | copied b path =>
        have halike := hstages place far inScope waiting overlays b path rfl hf
        rw [Stages, Stages] at halike
        cases ha : stageNodes env data inc place b (path :: waiting) body with
        | error e =>
          cases hb : stageNodes env data inc place b (path :: waiting) body' with
          | error e' => simp [ha, hb, bind, Except.bind, Except.toOption]
          | ok staged' => simp [ha, hb, Except.toOption] at halike
        | ok staged =>
          cases hb : stageNodes env data inc place b (path :: waiting) body' with
          | error e' => simp [ha, hb, Except.toOption] at halike
          | ok staged' =>
            have hcopy : levelText env data inc far overlays
                [.block (head.anchored place.path) staged] =
                  levelText env data inc far overlays
                    [.block (head.anchored place.path) staged'] := by
              refine levelText_block fun q os he => ?_
              have := h _ (.copied hf he)
              rwa [visitText, visitText, stagedText_of_ok ha, stagedText_of_ok hb] at this
            simp only [ha, hb, bind, Except.bind, pure, Except.pure]
            exact hcopy

end Blocks

section Data

variable {place p : Place φ} {inScope b : Bool} {waiting : List String} {head : Section}
  {path : String}

/-- What a section comes to whose head is seen in the first pass and not left whole. -/
theorem fate_found {q : Place φ} (hq : q.Clean)
    (hr : resolve env data head.binding place [] = .ok (some (.plain q q.bound)))
    (hw : mustWait head.binding inScope waiting = false) (hp : head.passesText = false) :
    fate env data place inScope waiting head = .ok (
      if q.bound.isArray then
        if head.inclusive then if q.bound.size = 0 then .hidden else .copied false q.path
        else if q.bound.size = 0 then .flat place inScope else .hidden
      else if shows env head.inclusive q.bound then .flat q true else .hidden) :=
  fate_plain hp hw hr (display_clean hq.bound head.inclusive head.raw)

/-- A section that is flattened away from where it stands, or copied, is over a value found there. -/
theorem fate_data (hc : place.Clean) (hs : head.Formed) {f : Fate φ}
    (hf : fate env data place inScope waiting head = .ok f) :
    f = .whole ∨ f = .hidden ∨ f = .flat place inScope ∨
      ∃ q : Place φ, q.Clean ∧ head.links = [] ∧ mustWait head.binding inScope waiting = false ∧
        place.search env.host (env.policy head.raw) head.key = .ok (some q) ∧
        (q.bound.isArray = false ∧ f = .flat q true ∨
          q.bound.isArray = true ∧ head.inclusive = true ∧ head.passesText = false ∧
            f = .copied false q.path) := by
  cases hw : mustWait head.binding inScope waiting with
  | true =>
    rw [fate, hw] at hf
    cases hf
    exact .inl rfl
  | false =>
    cases hr : resolve env data head.binding place [] with
    | error e =>
      rw [fate, hw, hr] at hf
      cases hf
    | ok found =>
      cases found with
      | none =>
        simp only [fate, hw, hr, bind, Except.bind, Bool.false_eq_true, if_false] at hf
        split at hf
        · split at hf
          · cases hf
          · cases hf
            split
            · exact .inr (.inl rfl)
            · exact .inr (.inr (.inl rfl))
        · cases hf
          exact .inl rfl
      | some r =>
        obtain ⟨hl, q, hq, rfl, hfind⟩ := resolve_data hc (by simp) hr
        have hl : head.links = [] := hl
        have hp : head.passesText = false := Bool.eq_false_iff.2 fun hp => hs.passes hp hl
        rw [fate_found hq hr hw hp] at hf
        rw [findPlace_nil] at hfind
        cases hf
        cases ha : q.bound.isArray with
        | true =>
          cases hi : head.inclusive with
          | true =>
            by_cases hsize : q.bound.size = 0
            · simp [hsize]
            · simp only [hsize, if_true, if_false]
              exact .inr (.inr (.inr ⟨q, hq, hl, trivial, hfind, .inr ⟨ha, trivial, hp, rfl⟩⟩))
          | false =>
            by_cases hsize : q.bound.size = 0 <;> simp [hsize]
        | false =>
          cases hshow : shows env head.inclusive q.bound with
          | true =>
            simp only [Bool.false_eq_true, if_true, if_false]
            exact .inr (.inr (.inr ⟨q, hq, hl, trivial, hfind, .inl ⟨ha, rfl⟩⟩))
          | false => simp

end Data

namespace Visit

/-- A visit as the passes make them over data without functions. -/
def Stands (env : Env φ) (data : Value φ) : Visit φ → Prop
  | both place inScope waiting far overlays =>
    Standing env data place inScope waiting ∧ Expanding env data waiting far overlays
  | second place overlays => Stance env data place overlays

theorem Stands.start (hd : data.isData = true) : (start data).Stands env data :=
  ⟨.top hd, .start hd⟩

end Visit

/-- A section entered by the second pass is entered from a place it can stand. -/
theorem Stance.enter {place p : Place φ} {overlays os : List (Place φ)} {head : Section}
    (h : Stance env data place overlays) (hs : head.Formed)
    (he : Enters env data head place overlays p os) : Stance env data p os := by
  have hk : head.key.Formed := hs.keys _ List.mem_cons_self
  have hfound : ∀ {r}, resolve env data head.binding place overlays = .ok (some r) →
      ∃ q, Stance env data q overlays ∧ r = .plain q q.bound := fun hr => by
    obtain ⟨-, q, -, rfl, hf⟩ := resolve_data h.clean h.overlaysClean hr
    exact ⟨q, h.found hk hf, rfl⟩
  cases he with
  | missing => exact h
  | passed => exact h
  | empty => exact h
  | item resolved plain repeating inclusive lt reads =>
    obtain ⟨q, hq, rfl⟩ := hfound resolved
    rw [Resolution.plain_inner] at reads ⊢
    rw [hq.clean.read] at reads
    cases reads
    exact hq.item _
  | plain resolved plain single shown =>
    obtain ⟨q, hq, rfl⟩ := hfound resolved
    have hdynamic : (Resolution.plain q q.bound).isDynamic = false := single
    rw [Resolution.plain_inner, hdynamic, if_neg (by simp)]
    exact hq

theorem Goes.stands (hd : data.isData = true) {head : Section} (hs : head.Formed) {v w : Visit φ}
    (hg : Goes env data head v w) (hv : v.Stands env data) : w.Stands env data := by
  have hk : head.key.Formed := hs.keys _ List.mem_cons_self
  cases hg with
  | whole left enters => exact hv.2.stance.enter hs enters
  | flat flattened =>
    rcases fate_data hv.1.clean hs flattened with h | h | h | ⟨q, hq, -, -, hf, h⟩
    · cases h
    · cases h
    · cases h
      exact hv
    · obtain ⟨ha, h⟩ := h.resolve_right (by simp)
      cases h
      exact ⟨hv.1.enter hd hk hf hq ha, hv.2⟩
  | copied copied enters =>
    rcases fate_data hv.1.clean hs copied with h | h | h | ⟨q, hq, hl, hw, hf, h⟩
    · cases h
    · cases h
    · cases h
    · obtain ⟨ha, hi, hp, h⟩ := h.resolve_left (by simp)
      cases h
      exact ⟨hv.1.put q.path, hv.2.enter (hv.1.copies hk hl hp hi hw hf hq ha) enters⟩
  | second enters => exact Stance.enter hv hs enters

theorem Meets.stands (hd : data.isData = true) {C : Context} (hC : C.Formed) {v w : Visit φ}
    (hm : Meets env data C v w) (hv : v.Stands env data) : w.Stands env data := by
  induction hm with
  | hole => exact hv
  | inside hg _ ih => exact ih hC.2.1 (hg.stands hd hC.1 hv)

section Fill

variable {a b : List Node}

/-- The first pass gets through a template whatever stands in its open place. -/
private theorem stages_fill {C : Context} (hC : C.Formed)
    (h : ∀ place inScope waiting, place.Clean →
      Stages env data inc place inScope waiting a = Stages env data inc place inScope waiting b)
    {place : Place φ} (hc : place.Clean) (inScope : Bool) (waiting : List String) :
    Stages env data inc place inScope waiting (C.fill a) =
      Stages env data inc place inScope waiting (C.fill b) := by
  induction C generalizing place inScope waiting with
  | hole before after =>
    simp only [Context.fill, stages_append, h place inScope waiting hc]
  | inside before head body after ih =>
    have hblock : Stages env data inc place inScope waiting [.block head (body.fill a)] =
        Stages env data inc place inScope waiting [.block head (body.fill b)] := by
      refine stages_block (fun p c hf => ?_) fun c path hf => ih hC.2.1 hc c _
      rcases fate_data hc hC.1 hf with h | h | h | ⟨q, hq, -, -, -, h⟩
      · cases h
      · cases h
      · cases h
        exact ih hC.2.1 hc inScope waiting
      · obtain ⟨-, h⟩ := h.resolve_right (by simp)
        cases h
        exact ih hC.2.1 hq true waiting
    simp only [Context.fill, stages_append, hblock]

/-- **Nodes in an open place** may be replaced by others that come to the same wherever the passes
meet them. -/
theorem visitText_fill (hd : data.isData = true) {C : Context} (hC : C.Formed)
    (hstages : ∀ place inScope waiting, place.Clean →
      Stages env data inc place inScope waiting a = Stages env data inc place inScope waiting b)
    {v : Visit φ} (hv : v.Stands env data)
    (h : ∀ w, Meets env data C v w → w.Stands env data →
      visitText env data inc w a = visitText env data inc w b) :
    visitText env data inc v (C.fill a) = visitText env data inc v (C.fill b) := by
  induction C generalizing v with
  | hole before after => simp only [Context.fill, visitText_append, h v .hole hv]
  | inside before head body after ih =>
    have hblock : visitText env data inc v [.block head (body.fill a)] =
        visitText env data inc v [.block head (body.fill b)] := by
      refine visitText_block (fun place far inScope waiting overlays c path hvisit _ => ?_)
        fun w hg => ?_
      · subst hvisit
        exact stages_fill hC.2.1 hstages hv.1.clean c _
      · exact ih hC.2.1 (hg.stands hd hC.1 hv) fun x hm hx => h x (.inside hg hm) hx
    simp only [Context.fill, visitText_append, hblock]

/-- Whether the body of a section may be rendered more than once on a visit. -/
def Repeats (env : Env φ) (data : Value φ) (head : Section) : Visit φ → Prop
  | .both place inScope waiting far overlays =>
    (∃ c path, fate env data place inScope waiting head = .ok (.copied c path)) ∨
      ∃ r, resolve env data head.binding far overlays = .ok (some r) ∧ r.isRepeating = true ∧
        head.inclusive = true
  | .second place overlays =>
    ∃ r, resolve env data head.binding place overlays = .ok (some r) ∧ r.isRepeating = true ∧
      head.inclusive = true

/-- No section around the open place is repeated. -/
def Single (env : Env φ) (data : Value φ) : Context → Visit φ → Prop
  | .hole _ _, _ => True
  | .inside _ head body _, v =>
    ¬ Repeats env data head v ∧ ∀ w, Goes env data head v w → Single env data body w

theorem levelText_entered (hoff : env.settings.errorOnMissingTags = false) {head : Section}
    (hs : head.Formed) {place p : Place φ} {overlays os : List (Place φ)}
    (h : Stance env data place overlays)
    (hrep : ¬ ∃ r, resolve env data head.binding place overlays = .ok (some r) ∧
      r.isRepeating = true ∧ head.inclusive = true)
    (he : Enters env data head place overlays p os) (nodes : List Node) :
    levelText env data inc place overlays [.block head nodes] =
      levelText env data inc p os nodes := by
  have hunpassed : ∀ {r}, resolve env data head.binding place overlays = .ok (some r) →
      head.passesText = false := fun hr => by
    obtain ⟨hl, -⟩ := resolve_data h.clean h.overlaysClean hr
    exact Bool.eq_false_iff.2 fun hp => hs.passes hp hl
  rw [levelText_singleton, nodeText, expandSection]
  cases he with
  | missing resolved exclusive =>
    rw [resolved]
    simp only [bind, Except.bind, missing_off hoff, exclusive]
    rfl
  | passed resolved passes =>
    rw [hunpassed resolved] at passes
    cases passes
  | empty resolved unpassed repeating exclusive size =>
    rw [resolved]
    simp only [bind, Except.bind, unpassed, repeating, exclusive, size]
    rfl
  | item resolved unpassed repeating inclusive => exact absurd ⟨_, resolved, repeating, inclusive⟩ hrep
  | plain resolved unpassed single shown =>
    rw [resolved]
    simp only [bind, Except.bind, unpassed, single, shown]
    rfl

/-- A section that is not repeated is its body. -/
private theorem visitText_entered (hoff : env.settings.errorOnMissingTags = false) {head : Section}
    (hs : head.Formed) {v w : Visit φ} (hv : v.Stands env data) (hrep : ¬ Repeats env data head v)
    (hg : Goes env data head v w) (nodes : List Node) :
    visitText env data inc v [.block head nodes] = visitText env data inc w nodes := by
  cases hg with
  | whole left enters =>
    rw [visitText, stagedText_singleton, stagedNodeText, stageNode_block, left]
    exact levelText_entered hoff hs hv.2.stance (fun h => hrep (.inr h)) enters nodes
  | flat flattened =>
    rw [visitText, stagedText_singleton, stagedNodeText, stageNode_block, flattened]
    rfl
  | copied copied enters => exact absurd (.inl ⟨_, _, copied⟩) hrep
  | second enters => exact levelText_entered hoff hs hv hrep enters nodes

/-- Nodes that come to the same between others come to the same. -/
private theorem visitText_between {v : Visit φ} {before after x y : List Node} {text : String}
    (hx : visitText env data inc v (before ++ x ++ after) = some text)
    (hy : visitText env data inc v (before ++ y ++ after) = some text) :
    ∃ t, visitText env data inc v x = some t ∧ visitText env data inc v y = some t := by
  rw [visitText_append, visitText_append] at hx hy
  cases hb : visitText env data inc v before with
  | none => simp [hb] at hx
  | some s =>
    cases ha : visitText env data inc v after with
    | none => simp [hb, ha] at hx
    | some u =>
      cases hvx : visitText env data inc v x with
      | none => simp [hb, hvx] at hx
      | some t =>
        cases hvy : visitText env data inc v y with
        | none => simp [hb, hvy] at hy
        | some t' =>
          rw [hb, ha, hvx] at hx
          rw [hb, ha, hvy] at hy
          exact ⟨t, rfl, by simpa [String.append_assoc] using hy.trans hx.symm⟩

/-- When nothing around an open place is repeated, the text shows what stands in it. -/
theorem visitText_of_fill (hd : data.isData = true)
    (hoff : env.settings.errorOnMissingTags = false) {C : Context} (hC : C.Formed)
    {v w : Visit φ} (hv : v.Stands env data) (hsingle : Single env data C v) {text : String}
    (ha : visitText env data inc v (C.fill a) = some text)
    (hb : visitText env data inc v (C.fill b) = some text) (hm : Meets env data C v w) :
    visitText env data inc w a = visitText env data inc w b := by
  induction hm generalizing text with
  | hole =>
    obtain ⟨t, hta, htb⟩ := visitText_between ha hb
    rw [hta, htb]
  | inside hg hm ih =>
    obtain ⟨t, hta, htb⟩ := visitText_between ha hb
    rw [visitText_entered hoff hC.1 hv hsingle.1 hg] at hta htb
    exact ih hC.2.1 (hg.stands hd hC.1 hv) (hsingle.2 _ hg) hta htb

end Fill

end Treeless

end TextTemplate
