import TextTemplate.Proofs.Treeless

/-!
The text of a level, node by node. What a level comes to is put together from what its nodes come to,
and a section depends on its body only where it enters it. Which of several errors ends a render does
depend on the order of the nodes and of the passes, so an error only counts as no text here.
-/
namespace TextTemplate
variable {φ : Type}

theorem toOption_bind {ε α β : Type} (x : Except ε α) (f : α → Except ε β) :
    (x >>= f).toOption = x.toOption.bind fun a => (f a).toOption := by
  cases x <;> rfl

/-- Two texts one after the other, when the first is known before the second is begun. -/
theorem toOption_first {ε β : Type} (x : Except ε String) (y : Except ε β)
    (z : β → Except ε String) :
    (x >>= fun s => y >>= fun b => z b >>= fun t => pure (s ++ t)).toOption =
      x.toOption.bind fun s => (y >>= z).toOption.map (s ++ ·) := by
  cases x with
  | error e => rfl
  | ok s =>
    cases y with
    | error e => rfl
    | ok b =>
      simp only [bind, Except.bind, pure, Except.pure, Except.toOption, Option.bind_some]
      cases z b <;> rfl

/-- Two texts one after the other, when the second is begun before the first is known. -/
theorem toOption_second {ε β : Type} (x : Except ε String) (y : Except ε β)
    (z : β → Except ε String) :
    (y >>= fun b => x >>= fun s => z b >>= fun t => pure (s ++ t)).toOption =
      x.toOption.bind fun s => (y >>= z).toOption.map (s ++ ·) := by
  cases y with
  | error e => cases x <;> rfl
  | ok b =>
    cases x with
    | error e => rfl
    | ok s =>
      simp only [bind, Except.bind, pure, Except.pure, Except.toOption, Option.bind_some]
      cases z b <;> rfl

namespace Treeless

variable {env : Env φ} {data : Value φ}
  {inc : Inclusion → Place φ → Except TemplateError String} {place : Place φ}
  {overlays : List (Place φ)}

/-- The text of a level in the second pass. -/
def levelText (env : Env φ) (data : Value φ)
    (inc : Inclusion → Place φ → Except TemplateError String) (place : Place φ)
    (overlays : List (Place φ)) (nodes : List Node) : Option String :=
  (expandLevel env data inc place overlays nodes).toOption

/-- The text of a node in the second pass. -/
def nodeText (env : Env φ) (data : Value φ)
    (inc : Inclusion → Place φ → Except TemplateError String) (place : Place φ)
    (overlays : List (Place φ)) : Node → Option String
  | .block head body =>
    (expandSection env data head (fun p os => expandLevel env data inc p os body) place
      overlays).toOption
  | node => (settleNode env data inc place overlays none node).toOption

@[simp] theorem levelText_nil : levelText env data inc place overlays [] = some "" := by
  simp [levelText, expandLevel, expandNodes, settleLevel, pure, Except.pure, bind, Except.bind,
    Except.toOption]

theorem levelText_cons (node : Node) (nodes : List Node) :
    levelText env data inc place overlays (node :: nodes) =
      (nodeText env data inc place overlays node).bind fun text =>
        (levelText env data inc place overlays nodes).map (text ++ ·) := by
  cases node with
  | block head body =>
    rw [levelText, nodeText, levelText, expandLevel, expandLevel, ← toOption_first, expandNodes,
      expandNode]
    simp only [bind_assoc, pure_bind, List.zip_cons_cons, settleLevel, settleNode,
      Option.getD_some]
    rfl
  | _ =>
    rw [levelText, nodeText, levelText, expandLevel, expandLevel, ← toOption_second, expandNodes,
      expandNode]
    · simp only [bind_assoc, pure_bind, List.zip_cons_cons, settleLevel]
    all_goals simp

theorem levelText_append (a b : List Node) :
    levelText env data inc place overlays (a ++ b) =
      (levelText env data inc place overlays a).bind fun text =>
        (levelText env data inc place overlays b).map (text ++ ·) := by
  induction a with
  | nil => simp
  | cons node a ih =>
    rw [List.cons_append, levelText_cons, levelText_cons, ih]
    cases nodeText env data inc place overlays node with
    | none => rfl
    | some _ =>
      cases levelText env data inc place overlays a with
      | none => rfl
      | some _ => cases levelText env data inc place overlays b <;> simp [String.append_assoc]

theorem levelText_singleton (node : Node) :
    levelText env data inc place overlays [node] = nodeText env data inc place overlays node := by
  rw [levelText_cons]
  cases nodeText env data inc place overlays node <;> simp

@[simp] theorem levelText_text (text : String) :
    levelText env data inc place overlays [.text text] = some text := by
  rw [levelText_singleton]
  rfl

/-- Where the second pass renders the body of a section that it meets at `place` and `overlays`. -/
inductive Enters (env : Env φ) (data : Value φ) (head : Section) (place : Place φ)
    (overlays : List (Place φ)) : Place φ → List (Place φ) → Prop where
  | missing (resolved : resolve env data head.binding place overlays = .ok none)
      (exclusive : head.inclusive = false) : Enters env data head place overlays place overlays
  | passed {r : Resolution φ}
      (resolved : resolve env data head.binding place overlays = .ok (some r))
      (passes : head.passesText = true) : Enters env data head place overlays place overlays
  | empty {r : Resolution φ}
      (resolved : resolve env data head.binding place overlays = .ok (some r))
      (plain : head.passesText = false) (repeating : r.isRepeating = true)
      (exclusive : head.inclusive = false) (size : r.size = 0) :
      Enters env data head place overlays place overlays
  | item {r : Resolution φ} {v w : Value φ} {i : Nat}
      (resolved : resolve env data head.binding place overlays = .ok (some r))
      (plain : head.passesText = false) (repeating : r.isRepeating = true)
      (inclusive : head.inclusive = true) (lt : i < r.size)
      (reads : r.inner.read env.host (env.policy head.raw) = .ok v)
      (holds : (r.inner.item v i).read env.host (env.policy head.raw) = .ok w)
      (shown : display env data true w head.raw = .ok true) :
      Enters env data head place overlays (r.inner.item v i) (r.inner.item v i :: overlays)
  | plain {r : Resolution φ}
      (resolved : resolve env data head.binding place overlays = .ok (some r))
      (plain : head.passesText = false) (single : r.isRepeating = false)
      (shown : display env data head.inclusive (r.value.getD .null) head.raw = .ok true) :
      Enters env data head place overlays r.inner
        (if r.isDynamic then r.inner :: overlays else overlays)

theorem expandItems_congr {raw : String}
    {body body' : Place φ → List (Place φ) → Except TemplateError String} {indices : List Nat}
    (h : ∀ i ∈ indices, ∀ v w, place.read env.host (env.policy raw) = .ok v →
      (place.item v i).read env.host (env.policy raw) = .ok w →
      display env data true w raw = .ok true →
      (body (place.item v i) (place.item v i :: overlays)).toOption =
        (body' (place.item v i) (place.item v i :: overlays)).toOption) :
    (expandItems env data raw body place overlays indices).toOption =
      (expandItems env data raw body' place overlays indices).toOption := by
  induction indices with
  | nil => rfl
  | cons i rest ih =>
    have hrest := ih fun j hj => h j (List.mem_cons_of_mem _ hj)
    rw [expandItems, expandItems]
    cases hv : place.read env.host (env.policy raw) with
    | error e => rfl
    | ok v =>
      simp only [bind, Except.bind]
      cases hw : (place.item v i).read env.host (env.policy raw) with
      | error e => rfl
      | ok w =>
        dsimp only
        cases hd : display env data true w raw with
        | error e => rfl
        | ok shown =>
          cases shown with
          | false => exact hrest
          | true =>
            have hbody := h i List.mem_cons_self v w hv hw hd
            have hseq : ∀ b : Place φ → List (Place φ) → Except TemplateError String,
                (b (place.item v i) (place.item v i :: overlays) >>= fun text =>
                  expandItems env data raw b place overlays rest >>= fun texts =>
                    pure (text :: texts)).toOption =
                (b (place.item v i) (place.item v i :: overlays)).toOption.bind fun text =>
                  (expandItems env data raw b place overlays rest).toOption.map (text :: ·) := by
              intro b
              cases b (place.item v i) (place.item v i :: overlays) with
              | error e => rfl
              | ok text => cases expandItems env data raw b place overlays rest <;> rfl
            have := (hseq body).trans (by rw [hbody, hrest, ← hseq body'])
            exact this

/-- The text of a section depends on its body only where the section enters it. -/
theorem expandSection_congr {head : Section}
    {body body' : Place φ → List (Place φ) → Except TemplateError String}
    (h : ∀ p os, Enters env data head place overlays p os →
      (body p os).toOption = (body' p os).toOption) :
    (expandSection env data head body place overlays).toOption =
      (expandSection env data head body' place overlays).toOption := by
  rw [expandSection, expandSection, toOption_bind, toOption_bind]
  cases hr : resolve env data head.binding place overlays with
  | error e => rfl
  | ok found =>
    change (Except.toOption _) = Except.toOption _
    cases found with
    | none =>
      dsimp only
      rw [toOption_bind, toOption_bind]
      refine congrArg _ (funext fun _ => ?_)
      cases hi : head.inclusive with
      | true => rfl
      | false => exact h _ _ (.missing hr hi)
    | some r =>
      cases hp : head.passesText with
      | true =>
        simp only [if_true]
        rw [toOption_bind, toOption_bind, h _ _ (.passed hr hp)]
      | false =>
        cases hrep : r.isRepeating with
        | true =>
          cases hi : head.inclusive with
          | false =>
            simp only [hrep, Bool.not_false, Bool.false_eq_true, if_true, if_false]
            split
            · exact h _ _ (.empty hr hp hrep hi ‹_›)
            · rfl
          | true =>
            simp only [hrep, Bool.not_true, Bool.false_eq_true, if_true, if_false]
            rw [toOption_bind, toOption_bind]
            refine congrArg (Option.bind · _) (expandItems_congr fun i hm v w hv hw hd => ?_)
            exact h _ _ (.item hr hp hrep hi (List.mem_range.1 hm) hv hw hd)
        | false =>
          simp only [hrep, Bool.false_eq_true, if_false]
          rw [toOption_bind, toOption_bind]
          cases hd : display env data head.inclusive (r.value.getD .null) head.raw with
          | error e => rfl
          | ok shown =>
            cases shown with
            | false => rfl
            | true => exact h _ _ (.plain hr hp hrep hd)

/-- What the first pass makes of a section. -/
inductive Fate (φ : Type) where
  /-- It is left as it stands. -/
  | whole
  | hidden
  /-- Its body takes its place, staged from `place`. -/
  | flat (place : Place φ) (inScope : Bool)
  /-- A copy is left, and sections at `path` are to be waited for in its body. -/
  | copied (inScope : Bool) (path : String)

/-- The fate of a section, with its head seen from `place`. -/
def fate (env : Env φ) (data : Value φ) (place : Place φ) (inScope : Bool) (waiting : List String)
    (head : Section) : Except TemplateError (Fate φ) := do
  if mustWait head.binding inScope waiting then return .whole
  match ← resolve env data head.binding place [] with
  | none =>
    if head.key.inContext && inScope then
      missing env head.raw
      return if head.inclusive then .hidden else .flat place inScope
    else return .whole
  | some r =>
    if head.passesText then return .copied inScope r.place.path
    else if r.isRepeating then
      if !head.inclusive then return if r.size = 0 then .flat place inScope else .hidden
      else return if r.size = 0 then .hidden else .copied false r.inner.path
    else
      let shown ← display env data head.inclusive (r.value.getD .null) head.raw
      return if shown then .flat r.inner true else .hidden

theorem stageNode_block (head : Section) (body : List Node) (inScope : Bool)
    (waiting : List String) : stageNode env data inc place inScope waiting (.block head body) =
      fate env data place inScope waiting head >>= fun
        | .whole => pure [.block head body]
        | .hidden => pure []
        | .flat p b => stageNodes env data inc p b waiting body
        | .copied b path => stageNodes env data inc place b (path :: waiting) body >>= fun staged =>
          pure [.block (head.anchored place.path) staged] := by
  rw [stageNode, fate]
  split
  · rfl
  · rw [bind_assoc]
    refine congrArg _ (funext fun found => ?_)
    cases found with
    | none =>
      dsimp only
      split
      · rw [bind_assoc]
        refine congrArg _ (funext fun _ => ?_)
        split <;> rfl
      · rfl
    | some r =>
      dsimp only
      split
      · rfl
      · split
        · split <;> split <;> rfl
        · rw [bind_assoc]
          refine congrArg _ (funext fun shown => ?_)
          split <;> rfl

variable {far : Place φ} {inScope : Bool} {waiting : List String}

/-- The text that nodes come to when they are staged from `place` and what is left of them is
rendered from `far`. -/
def stagedText (env : Env φ) (data : Value φ)
    (inc : Inclusion → Place φ → Except TemplateError String) (place : Place φ) (inScope : Bool)
    (waiting : List String) (far : Place φ) (overlays : List (Place φ)) (nodes : List Node) :
    Option String :=
  (stageNodes env data inc place inScope waiting nodes >>=
    expandLevel env data inc far overlays).toOption

/-- The text that a node comes to in both passes. -/
def stagedNodeText (env : Env φ) (data : Value φ)
    (inc : Inclusion → Place φ → Except TemplateError String) (place : Place φ) (inScope : Bool)
    (waiting : List String) (far : Place φ) (overlays : List (Place φ)) (node : Node) :
    Option String :=
  (stageNode env data inc place inScope waiting node >>=
    expandLevel env data inc far overlays).toOption

theorem stagedText_nil :
    stagedText env data inc place inScope waiting far overlays [] = some "" := by
  rw [stagedText, stageNodes, pure_bind]
  exact levelText_nil

theorem stagedText_cons (node : Node) (nodes : List Node) :
    stagedText env data inc place inScope waiting far overlays (node :: nodes) =
      (stagedNodeText env data inc place inScope waiting far overlays node).bind fun text =>
        (stagedText env data inc place inScope waiting far overlays nodes).map (text ++ ·) := by
  rw [stagedText, stagedNodeText, stagedText, stageNodes]
  simp only [bind_assoc, pure_bind]
  rw [toOption_bind, toOption_bind, toOption_bind]
  cases stageNode env data inc place inScope waiting node with
  | error e => rfl
  | ok a =>
    simp only [toOption_bind]
    cases stageNodes env data inc place inScope waiting nodes with
    | error e =>
      simp only [Except.toOption, Option.bind_some, Option.bind_none, Option.map_none]
      cases expandLevel env data inc far overlays a <;> rfl
    | ok b => exact levelText_append a b

theorem stagedText_append (a b : List Node) :
    stagedText env data inc place inScope waiting far overlays (a ++ b) =
      (stagedText env data inc place inScope waiting far overlays a).bind fun text =>
        (stagedText env data inc place inScope waiting far overlays b).map (text ++ ·) := by
  induction a with
  | nil => simp [stagedText_nil]
  | cons node a ih =>
    rw [List.cons_append, stagedText_cons, stagedText_cons, ih]
    cases stagedNodeText env data inc place inScope waiting far overlays node with
    | none => rfl
    | some _ =>
      cases stagedText env data inc place inScope waiting far overlays a with
      | none => rfl
      | some _ =>
        cases stagedText env data inc place inScope waiting far overlays b <;>
          simp [String.append_assoc]

theorem stagedText_singleton (node : Node) :
    stagedText env data inc place inScope waiting far overlays [node] =
      stagedNodeText env data inc place inScope waiting far overlays node := by
  rw [stagedText_cons, stagedText_nil]
  cases stagedNodeText env data inc place inScope waiting far overlays node <;> simp

theorem stagedText_of_ok {nodes staged : List Node}
    (h : stageNodes env data inc place inScope waiting nodes = .ok staged) :
    stagedText env data inc place inScope waiting far overlays nodes =
      levelText env data inc far overlays staged := by
  rw [stagedText, h]
  rfl

end Treeless

end TextTemplate
