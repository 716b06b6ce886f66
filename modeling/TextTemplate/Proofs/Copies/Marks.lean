import TextTemplate.Proofs.Parsing
import TextTemplate.Proofs.Steady

/-!
The first pass with marks at the copies it makes. A copy of a repeated section is marked with the
sequence that was found for it; without the marks there is nothing but what the pass leaves. Every
copy keeps the promise that its key leads back to that sequence from outside any section over its path.
-/
namespace TextTemplate
variable {φ : Type}

/-- What the first pass knows of a repeated section when it leaves a copy. -/
structure Copy (φ : Type) where
  path : String
  found : Value φ
  /-- Paths of the sections around that are put off as well. -/
  around : List String

/-- Nodes left by the first pass, with what it knows of the copies among them. -/
inductive Marked (φ : Type) where
  | node (node : Node)
  | passed (head : Section) (body : List (Marked φ))
  | kept (copy : Copy φ) (head : Section) (body : List (Marked φ))

namespace Marked

mutual

def erase : Marked φ → Node
  | node n => n
  | passed head body => .block head (eraseAll body)
  | kept _ head body => .block head (eraseAll body)

def eraseAll : List (Marked φ) → List Node
  | [] => []
  | m :: ms => erase m :: eraseAll ms

end

@[simp] theorem eraseAll_append (a b : List (Marked φ)) :
    eraseAll (a ++ b) = eraseAll a ++ eraseAll b := by
  induction a with
  | nil => rfl
  | cons m a ih => simp [eraseAll, ih]

@[simp] theorem eraseAll_nodes (nodes : List Node) :
    eraseAll (nodes.map (node (φ := φ))) = nodes := by
  induction nodes with
  | nil => rfl
  | cons n nodes ih => simp [eraseAll, erase, ih]

end Marked

namespace Treeless

mutual

/-- The first pass on a node, with marks. -/
def markNode (env : Env φ) (data : Value φ)
    (includeText : Inclusion → Place φ → Except TemplateError String) (place : Place φ)
    (inScope : Bool) (waiting : List String) : Node → Except TemplateError (List (Marked φ))
  | .block head body => do
    if mustWait head.binding inScope waiting then return [.node (.block head body)]
    match ← resolve env data head.binding place [] with
    | none =>
      if head.key.inContext && inScope then
        missing env head.raw
        if head.inclusive then return []
        else markNodes env data includeText place inScope waiting body
      else return [.node (.block head body)]
    | some r =>
      if head.passesText then
        return [.passed (head.anchored place.path)
          (← markNodes env data includeText place inScope (r.place.path :: waiting) body)]
      else if r.isRepeating then
        if !head.inclusive then
          if r.size = 0 then markNodes env data includeText place inScope waiting body
          else return []
        else if r.size = 0 then return []
        else
          return [.kept ⟨r.inner.path, r.value.getD .null, waiting⟩ (head.anchored place.path)
            (← markNodes env data includeText place false (r.inner.path :: waiting) body)]
      else
        if ← display env data head.inclusive (r.value.getD .null) head.raw then
          markNodes env data includeText r.inner true waiting body
        else return []
  | node => return (← stageNode env data includeText place inScope waiting node).map .node

def markNodes (env : Env φ) (data : Value φ)
    (includeText : Inclusion → Place φ → Except TemplateError String) (place : Place φ)
    (inScope : Bool) (waiting : List String) : List Node → Except TemplateError (List (Marked φ))
  | [] => return []
  | node :: nodes => do
    let marked ← markNode env data includeText place inScope waiting node
    return marked ++ (← markNodes env data includeText place inScope waiting nodes)

end

variable {env : Env φ} {data : Value φ} {inc : Inclusion → Place φ → Except TemplateError String}

theorem map_bind {ε α β γ : Type} (x : Except ε α) (f : α → Except ε β) (g : β → γ) :
    (x >>= f).map g = x >>= fun a => (f a).map g := by
  cases x <;> rfl

theorem map_nodes (x : Except TemplateError (List Node)) :
    (x >>= fun nodes => pure (nodes.map (Marked.node (φ := φ)))).map Marked.eraseAll = x := by
  cases x with
  | error e => rfl
  | ok nodes => exact congrArg Except.ok (Marked.eraseAll_nodes nodes)

mutual

/-- Marks change nothing. -/
theorem eraseAll_markNode : (node : Node) → ∀ (place : Place φ) (inScope : Bool)
    (waiting : List String), (markNode env data inc place inScope waiting node).map Marked.eraseAll =
      stageNode env data inc place inScope waiting node
  | .text _, _, _, _ => by rw [markNode] <;> [exact map_nodes _; simp]
  | .inclusion _, _, _, _ => by rw [markNode] <;> [exact map_nodes _; simp]
  | .tag _, _, _, _ => by rw [markNode] <;> [exact map_nodes _; simp]
  | .block head body, place, inScope, waiting => by
    rw [markNode, stageNode]
    split
    · rfl
    · rw [map_bind]
      refine congrArg _ (funext fun found => ?_)
      cases found with
      | none =>
        dsimp only
        split
        · rw [map_bind]
          refine congrArg _ (funext fun _ => ?_)
          split
          · rfl
          · exact eraseAll_markNodes body place inScope waiting
        · rfl
      | some r =>
        have hcopy : ∀ (inScope : Bool) (waiting : List String) (f : List (Marked φ) → Marked φ),
            (∀ ms, (f ms).erase = .block (head.anchored place.path) (Marked.eraseAll ms)) →
            (markNodes env data inc place inScope waiting body >>= fun ms => pure [f ms]).map
                Marked.eraseAll =
              stageNodes env data inc place inScope waiting body >>= fun staged =>
                pure [.block (head.anchored place.path) staged] := by
          intro inScope waiting f hf
          rw [map_bind, ← eraseAll_markNodes body]
          cases markNodes env data inc place inScope waiting body with
          | error e => rfl
          | ok ms => exact congrArg (fun n => Except.ok [n]) (hf ms)
        dsimp only
        split
        · exact hcopy inScope _ _ fun _ => rfl
        · split
          · split
            · split
              · exact eraseAll_markNodes body place inScope waiting
              · rfl
            · split
              · rfl
              · exact hcopy false _ _ fun _ => rfl
          · rw [map_bind]
            refine congrArg _ (funext fun shown => ?_)
            split
            · exact eraseAll_markNodes body r.inner true waiting
            · rfl

theorem eraseAll_markNodes : (nodes : List Node) → ∀ (place : Place φ) (inScope : Bool)
    (waiting : List String), (markNodes env data inc place inScope waiting nodes).map Marked.eraseAll =
      stageNodes env data inc place inScope waiting nodes
  | [], _, _, _ => rfl
  | node :: nodes, place, inScope, waiting => by
    rw [markNodes, stageNodes, ← eraseAll_markNode node, ← eraseAll_markNodes nodes]
    cases markNode env data inc place inScope waiting node with
    | error e => rfl
    | ok a =>
      cases markNodes env data inc place inScope waiting nodes with
      | error e => rfl
      | ok b => exact congrArg Except.ok (Marked.eraseAll_append a b)

end

/-- A copy of a section over a sequence that stands in the data. -/
structure Copies (env : Env φ) (data : Value φ) (waiting : List String) (copy : Copy φ)
    (head : Section) (q : Place φ) : Prop where
  within : Place.Within env.host env.settings.errorOnFuncFailure (.top data) q
  clean : q.Clean
  array : q.bound.isArray = true
  path : copy.path = q.path
  found : copy.found = q.bound
  around : copy.around = waiting
  links : head.links = []
  passes : head.passesText = false
  inclusive : head.inclusive = true
  formed : head.key.Formed
  key : (q.path ≠ "" ∧ head.key = .ofPath q.path false) ∨
    (q.path = "" ∧ head.key.inContext = true ∧ head.key.text = "" ∧ waiting = [])

mutual

/-- Every copy in a node is one of a section over a sequence in the data. -/
def Good (env : Env φ) (data : Value φ) (waiting : List String) : Marked φ → Prop
  | .node _ => True
  | .passed _ _ => False
  | .kept copy head body =>
    (∃ q, Copies env data waiting copy head q) ∧ AllGood env data (copy.path :: waiting) body

def AllGood (env : Env φ) (data : Value φ) (waiting : List String) : List (Marked φ) → Prop
  | [] => True
  | m :: ms => Good env data waiting m ∧ AllGood env data waiting ms

end

theorem allGood_iff {waiting : List String} {ms : List (Marked φ)} :
    AllGood env data waiting ms ↔ ∀ m ∈ ms, Good env data waiting m := by
  induction ms with
  | nil => simp [AllGood]
  | cons m ms ih => simp [AllGood, ih]

/-- Where the first pass stands in data without functions. In the whole data, when that is a sequence,
nothing is put off as long as keys in context are seen. -/
structure Standing (env : Env φ) (data : Value φ) (place : Place φ) (inScope : Bool)
    (waiting : List String) : Prop where
  within : Place.Within env.host env.settings.errorOnFuncFailure (.top data) place
  clean : place.Clean
  root : data.isArray = true → inScope = true → waiting = []

theorem Standing.top (hd : data.isData = true) : Standing env data (.top data) true [] :=
  ⟨.base, .top hd, fun _ _ => rfl⟩

variable {place q : Place φ} {inScope : Bool} {waiting : List String}

/-- Inside a section over a single value. -/
theorem Standing.enter (h : Standing env data place inScope waiting) (hd : data.isData = true)
    {key : Key} (hk : key.Formed) {raw : String}
    (hf : place.search env.host (env.policy raw) key = .ok (some q)) (hq : q.Clean)
    (ha : q.bound.isArray = false) : Standing env data q true waiting := by
  refine ⟨h.within.found hk hf, hq, fun hroot _ => ?_⟩
  have hread : (Place.top data).read env.host (env.policy raw) = .ok data :=
    (Place.Clean.top hd).read
  have htop := Place.Within.eq_of_covers .base (h.within.found hk hf) hread hroot
    (by simp [pathCovers_iff, Place.top, Place.path])
  rw [htop] at ha
  exact absurd (hroot.symm.trans ha) (by simp)

/-- Inside a repeated section that is put off. -/
theorem Standing.put (h : Standing env data place inScope waiting) (path : String) :
    Standing env data place false (path :: waiting) :=
  ⟨h.within, h.clean, by simp⟩

/-- A repeated section that is put off is copied. -/
theorem Standing.copies (h : Standing env data place inScope waiting) {head : Section}
    (hk : head.key.Formed) (hl : head.links = []) (hp : head.passesText = false)
    (hi : head.inclusive = true) (hw : mustWait head.binding inScope waiting = false) {raw : String}
    (hf : place.search env.host (env.policy raw) head.key = .ok (some q)) (hq : q.Clean)
    (ha : q.bound.isArray = true) :
    Copies env data waiting ⟨q.path, q.bound, waiting⟩ (head.anchored place.path) q where
  within := h.within.found hk hf
  clean := hq
  array := ha
  path := rfl
  found := rfl
  around := rfl
  links := by simp [Section.anchored, hl]
  passes := hp
  inclusive := hi
  formed := hk.anchored place.path
  key := by
    have hreads : q.Reads env.host env.settings.errorOnFuncFailure q.bound := fun _ => hq.read
    refine (h.within.anchored hk hf hreads ha).imp_right ?_
    rintro ⟨hroot, hkey, hc, htext⟩
    have htop := (h.within.found hk hf).eq_base hroot
    have hin : inScope = true := by
      have := hw
      simp only [mustWait, Binding.keys, Section.binding, hl, List.map_nil, List.any_cons, hc,
        if_true, List.any_nil, Bool.or_false, Bool.not_eq_false'] at this
      exact this
    have hanchored : (head.anchored place.path).key = head.key := hkey
    rw [hanchored]
    rw [htop] at ha
    exact ⟨hroot, hc, htext, h.root ha hin⟩

theorem allGood_append {waiting : List String} {a b : List (Marked φ)}
    (ha : AllGood env data waiting a) (hb : AllGood env data waiting b) :
    AllGood env data waiting (a ++ b) := by
  rw [allGood_iff] at *
  exact fun m hm => (List.mem_append.1 hm).elim (ha m) (hb m)

theorem good_nodes {waiting : List String} (x : Except TemplateError (List Node)) :
    Yields (AllGood env data waiting) (x >>= fun nodes => pure (nodes.map .node)) := by
  refine Yields.bind (P := fun _ => True) (fun _ _ => trivial) fun nodes _ => .ok ?_
  rw [allGood_iff]
  intro m hm
  obtain ⟨n, -, rfl⟩ := List.mem_map.1 hm
  trivial

mutual

theorem good_markNode (hd : data.isData = true) : (node : Node) → ∀ {place : Place φ}
    {inScope : Bool} {waiting : List String}, Standing env data place inScope waiting →
    node.Formed → Yields (AllGood env data waiting)
      (markNode env data inc place inScope waiting node)
  | .text _, _, _, _, _, _ => by
    rw [markNode] <;> [exact good_nodes _; simp]
  | .inclusion _, _, _, _, _, _ => by
    rw [markNode] <;> [exact good_nodes _; simp]
  | .tag _, _, _, _, _, _ => by
    rw [markNode] <;> [exact good_nodes _; simp]
  | .block head body, place, inScope, waiting, h, hn => by
    rw [markNode]
    cases hw : mustWait head.binding inScope waiting with
    | true => exact .ok ⟨trivial, trivial⟩
    | false =>
      have hmissing : Yields (AllGood env data waiting)
          (if head.key.inContext && inScope then missing env head.raw >>= fun _ =>
            if head.inclusive then pure []
            else markNodes env data inc place inScope waiting body
          else pure [.node (.block head body)]) := by
        split
        · refine Yields.bind (P := fun _ => True) (fun _ _ => trivial) fun _ _ => ?_
          split
          · exact .ok trivial
          · exact good_markNodes hd body h hn.2
        · exact .ok ⟨trivial, trivial⟩
      simp only [Bool.false_eq_true, if_false]
      by_cases hl : head.links = []
      · have hk : head.key.Formed := hn.1.keys _ List.mem_cons_self
        have hp : head.passesText = false := Bool.eq_false_iff.2 fun hp => hn.1.passes hp hl
        rcases resolve_bare env data (b := head.binding) hl h.clean with
          ⟨-, hr⟩ | ⟨q, hf, hq, hr⟩
        · rw [hr]
          exact hmissing
        · rw [findPlace_nil] at hf
          simp only [hr, bind, Except.bind, hp, Resolution.plain_inner, Bool.false_eq_true, if_false]
          simp only [Resolution.plain, Option.getD_some, display_clean hq.bound]
          split
          · rename_i ha
            by_cases hsize : q.bound.size = 0
            · simp only [hsize, if_true]
              split
              · exact good_markNodes hd body h hn.2
              · exact .ok trivial
            · simp only [hsize, if_false]
              split
              · exact .ok trivial
              · rename_i hi
                have hcopies := h.copies hk hl hp (by simpa using hi) hw hf hq ha
                have hbody := good_markNodes hd body (h.put q.path) hn.2
                exact hbody.bind fun ms hms => .ok ⟨⟨⟨q, hcopies⟩, hms⟩, trivial⟩
          · rename_i ha
            split
            · have hin := h.enter hd hk hf hq (Bool.eq_false_iff.2 ha)
              exact good_markNodes hd body hin hn.2
            · exact .ok trivial
      · cases hr : resolve env data head.binding place [] with
        | error e => exact .error
        | ok found =>
          cases found with
          | none => exact hmissing
          | some r => exact absurd hr (resolve_linked hl h.clean (by simp))

theorem good_markNodes (hd : data.isData = true) : (nodes : List Node) → ∀ {place : Place φ}
    {inScope : Bool} {waiting : List String}, Standing env data place inScope waiting →
    Node.AllFormed nodes → Yields (AllGood env data waiting)
      (markNodes env data inc place inScope waiting nodes)
  | [], _, _, _, _, _ => .ok trivial
  | node :: nodes, _, _, _, h, hn => by
    rw [markNodes]
    refine (good_markNode hd node h hn.1).bind fun a ha =>
      (good_markNodes hd nodes h hn.2).bind fun b hb => .ok (allGood_append ha hb)

end

end Treeless

end TextTemplate
