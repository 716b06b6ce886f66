import TextTemplate.Proofs.Paired

/-!
Both passes side by side. What the steps of resolving bindings keep, the passes keep: the first passes
leave the same nodes, and the second passes make the same text of them.
-/
namespace TextTemplate
variable {φ : Type}

namespace Pairing

variable (P : Pairing φ)

/-- What the passes need to go alike over bindings that are `Sound`. Scopes in `extra` wait in the
second render only, which no `Clear` binding notices. -/
structure Passes (env env' : Env φ) (inc inc' : Inclusion → ScopeId → Run φ String)
    (Sound Clear : Binding → Prop) (Allowed : Inclusion → Prop) (extra : List ScopeId)
    (Resolved : P.World → Resolution φ → Resolution φ → Prop) : Prop where
  path : ∀ {w s s' a a'}, P.Holds w s s' → P.Same w a a' → s'.tree.path a' = s.tree.path a
  waits : ∀ {w s s' ws ws' b} (inScope : Bool), P.Holds w s s' → P.SameAll w ws ws' → Clear b →
    mustWait s'.tree b inScope (ws' ++ extra) = mustWait s.tree b inScope ws
  anchored : ∀ {w s s' a a'} {head : Section}, P.Holds w s s' → P.Same w a a' →
    Sound head.binding → Sound (head.anchored (s.tree.path a)).binding
  resolve : ∀ {w a a' os os' b}, Sound b → P.Same w a a' → P.SameAll w os os' →
    Paired P w (fun u => Option.Rel (Resolved u)) (Run.resolve env b a os)
      (Run.resolve env' b a' os')
  later : ∀ {v w r r'}, P.Later v w → Resolved v r r' → Resolved w r r'
  scope : ∀ {w r r'}, Resolved w r r' → P.Same w r.scope r'.scope
  flags : ∀ {w r r'}, Resolved w r r' →
    r'.isRepeating = r.isRepeating ∧ r'.isDynamic = r.isDynamic ∧ r'.size = r.size
  text : ∀ {w r r'} (tag : Tag), Resolved w r r' →
    (r'.value.map (tagText env' tag)).getD "" = (r.value.map (tagText env tag)).getD ""
  innerScope : ∀ {w r r'}, Resolved w r r' →
    Paired P w (fun u a a' => P.Same u a a' ∧ (r.isRepeating = true → P.Read u a a'))
      (Run.innerScope r) (Run.innerScope r')
  display : ∀ {w r r'} (inclusive : Bool) (raw : String), Resolved w r r' →
    Paired P w (fun _ => Eq)
      (Run.display env inclusive (r.value.getD .null) raw)
      (Run.display env' inclusive (r'.value.getD .null) raw)
  passThrough : ∀ {w r r'} (raw : String) (links : List Link) (text : String), Resolved w r r' →
    Paired P w (fun _ => Eq)
      (Run.passThrough env (env.policy raw) ((r.chain.map Prod.snd).zip links) (.string text))
      (Run.passThrough env' (env'.policy raw) ((r'.chain.map Prod.snd).zip links) (.string text))
  item : ∀ {w a a'} (raw : String) (index : Nat), P.Same w a a' → P.Read w a a' →
    Paired P w P.Same (Run.item env.host (env.policy raw) a index)
      (Run.item env'.host (env'.policy raw) a' index)
  shown : ∀ {w a a'} (raw : String), P.Same w a a' →
    Paired P w (fun _ => Eq)
      (Run.value env.host (env.policy raw) a >>= fun v => Run.display env true v raw)
      (Run.value env'.host (env'.policy raw) a' >>= fun v => Run.display env' true v raw)
  missing : ∀ {w} (raw : String),
    Paired P w (fun _ => Eq) (Run.missing env raw) (Run.missing env' raw)
  inclusion : ∀ {w a a' i}, Allowed i → P.Same w a a' →
    Paired P w (fun _ => Eq) (inc i a) (inc' i a')
  numbers : env'.numbers = env.numbers

section Passes

variable {P} {env env' : Env φ} {inc inc' : Inclusion → ScopeId → Run φ String}
  {Sound Clear : Binding → Prop} {Allowed : Inclusion → Prop} {extra : List ScopeId}
  {Resolved : P.World → Resolution φ → Resolution φ → Prop}

/-- Nodes whose bindings are sound. -/
abbrev AllSound (Sound : Binding → Prop) (Allowed : Inclusion → Prop) : List Node → Prop :=
  Node.EveryOf (fun t => Sound t.binding) Allowed fun s => Sound s.binding

/-- Nodes that both first passes leave. -/
abbrev Left (P : Pairing φ) (Sound : Binding → Prop) (Allowed : Inclusion → Prop) (_ : P.World)
    (a b : List Node) : Prop :=
  a = b ∧ AllSound Sound Allowed a

/-- Nodes that the first pass can start from. -/
abbrev AllClear (Sound Clear : Binding → Prop) (Allowed : Inclusion → Prop) : List Node → Prop :=
  Node.EveryOf (fun t => Sound t.binding ∧ Clear t.binding) Allowed
    fun s => Sound s.binding ∧ Clear s.binding

theorem allSound_of_clear {nodes : List Node} (h : AllClear Sound Clear Allowed nodes) :
    AllSound Sound Allowed nodes :=
  Node.EveryOf.imp (fun _ h => h.1) (fun _ h => h) (fun _ h => h.1) nodes h

/-- The first passes leave the same of the nodes. -/
def StagesAlike (P : Pairing φ) (env env' : Env φ) (inc inc' : Inclusion → ScopeId → Run φ String)
    (Sound Clear : Binding → Prop) (Allowed : Inclusion → Prop) (extra : List ScopeId)
    (nodes : List Node) : Prop :=
  ∀ {w : P.World} {a a' : ScopeId} (inScope : Bool) {ws ws' : List ScopeId},
    AllClear Sound Clear Allowed nodes → P.Same w a a' → P.SameAll w ws ws' →
    Paired P w (Left P Sound Allowed) (TextTemplate.stageNodes env inc a inScope ws nodes)
      (TextTemplate.stageNodes env' inc' a' inScope (ws' ++ extra) nodes)

section Block

variable {head : Section} {body : List Node} {w : P.World} {a a' : ScopeId} {ws ws' : List ScopeId}
  (h : P.Passes env env' inc inc' Sound Clear Allowed extra Resolved)
  (hbody : StagesAlike P env env' inc inc' Sound Clear Allowed extra body)
  (hclear : AllClear Sound Clear Allowed body)

include hbody hclear in
/-- What the first pass leaves of a section whose body waits for the second. -/
theorem StagesAlike.copied (inScope : Bool) (hsound : Sound head.binding) (ha : P.Same w a a')
    (hws : P.SameAll w ws ws') :
    Paired P w (Left P Sound Allowed)
      (do return [.block head (← TextTemplate.stageNodes env inc a inScope ws body)])
      (do return [.block head (← TextTemplate.stageNodes env' inc' a' inScope (ws' ++ extra) body)]) :=
  (hbody inScope hclear ha hws).bind fun v c c' _ hc => by
    obtain ⟨rfl, hc⟩ := hc
    exact .pure fun _ _ => ⟨rfl, ⟨hsound, hc⟩, trivial⟩

include h hbody hclear in
theorem Passes.stageBlock (inScope : Bool) (hsound : Sound head.binding) (hhead : Clear head.binding)
    (ha : P.Same w a a') (hws : P.SameAll w ws ws') :
    Paired P w (Left P Sound Allowed) (TextTemplate.stageNode env inc a inScope ws (.block head body))
      (TextTemplate.stageNode env' inc' a' inScope (ws' ++ extra) (.block head body)) := by
  have hkept : ∀ v, Paired P v (Left P Sound Allowed) (pure [.block head body])
      (pure [.block head body]) :=
    fun _ => .pure fun _ _ => ⟨rfl, ⟨hsound, allSound_of_clear hclear⟩, trivial⟩
  have hdropped : ∀ v, Paired P v (Left P Sound Allowed) (pure []) (pure []) :=
    fun _ => .pure fun _ _ => ⟨rfl, trivial⟩
  rw [TextTemplate.stageNode, TextTemplate.stageNode]
  refine .look fun v s s' hv hs => ?_
  replace ha := P.same hv ha
  replace hws := sameAll hv hws
  rw [h.waits inScope hs hws hhead]
  split
  · exact hkept v
  · refine (h.resolve hsound ha .nil).bind fun u r r' hu hr => ?_
    replace ha := P.same hu ha
    replace hws := sameAll hu hws
    cases hr with
    | none =>
      dsimp only
      split
      · refine (h.missing head.raw).andThen fun x _ hx => ?_
        split
        · exact hdropped x
        · exact hbody inScope hclear (P.same hx ha) (sameAll hx hws)
      · exact hkept u
    | @some r r' hr =>
      refine .look fun x t t' hx ht => ?_
      replace ha := P.same hx ha
      replace hws := sameAll hx hws
      obtain ⟨hrepeating, hdynamic, hsize⟩ := h.flags hr
      rw [h.path ht ha, hrepeating, hsize]
      have hanchored := h.anchored ht ha hsound
      dsimp only
      split
      · exact hbody.copied hclear inScope hanchored ha (.cons (P.same hx (h.scope hr)) hws)
      · split
        · split
          · split
            · exact hbody inScope hclear ha hws
            · exact hdropped x
          · split
            · exact hdropped x
            · refine ((h.innerScope hr).mono hx).bind fun y i i' hy hi => ?_
              exact hbody.copied hclear false hanchored (P.same hy ha) (.cons hi.1 (sameAll hy hws))
        · refine ((h.display head.inclusive head.raw hr).mono hx).andThen fun y _ hy => ?_
          split
          · refine ((h.innerScope hr).mono (P.trans hx hy)).bind fun z i i' hz hi => ?_
            exact hbody true hclear hi.1 (sameAll (P.trans hy hz) hws)
          · exact hdropped y

end Block

mutual

theorem Passes.stageNode (h : P.Passes env env' inc inc' Sound Clear Allowed extra Resolved) :
    (node : Node) → ∀ {w : P.World} {a a' : ScopeId} (inScope : Bool)
    {ws ws' : List ScopeId}, AllClear Sound Clear Allowed [node] → P.Same w a a' →
    P.SameAll w ws ws' →
    Paired P w (Left P Sound Allowed) (TextTemplate.stageNode env inc a inScope ws node)
      (TextTemplate.stageNode env' inc' a' inScope (ws' ++ extra) node)
  | .text text, w, a, a', inScope, ws, ws', hn, ha, hws => by
    rw [TextTemplate.stageNode, TextTemplate.stageNode]
    exact .pure fun _ _ => ⟨rfl, trivial, trivial⟩
  | .inclusion i, w, a, a', inScope, ws, ws', hn, ha, hws => by
    rw [TextTemplate.stageNode, TextTemplate.stageNode]
    split
    · exact .pure fun _ _ => ⟨rfl, allSound_of_clear hn⟩
    · exact (h.inclusion hn.1 ha).andThen fun _ _ _ => .pure fun _ _ => ⟨rfl, trivial, trivial⟩
  | .tag tag, w, a, a', inScope, ws, ws', hn, ha, hws => by
    have hkept : ∀ v, Paired P v (Left P Sound Allowed) (pure [.tag tag]) (pure [.tag tag]) :=
      fun _ => .pure fun _ _ => ⟨rfl, allSound_of_clear hn⟩
    rw [TextTemplate.stageNode, TextTemplate.stageNode]
    refine .look fun v s s' hv hs => ?_
    rw [h.waits inScope hs (sameAll hv hws) hn.1.2]
    split
    · exact hkept v
    · refine (h.resolve hn.1.1 (P.same hv ha) .nil).bind fun u r r' hu hr => ?_
      cases hr with
      | none =>
        dsimp only
        split
        · exact (h.missing tag.raw).andThen fun _ _ _ => .pure fun _ _ => ⟨rfl, trivial⟩
        · exact hkept u
      | some hr => exact .pure fun _ _ => ⟨by rw [h.text tag hr], trivial, trivial⟩
  | .block head body, w, a, a', inScope, ws, ws', ⟨⟨hhead, hclear⟩, _⟩, ha, hws =>
    h.stageBlock (fun inScope _ _ hbody ha hws => h.stageNodes body inScope hbody ha hws) hclear
      inScope hhead.1 hhead.2 ha hws

/-- **The first passes leave the same nodes.** -/
theorem Passes.stageNodes
    (h : P.Passes env env' inc inc' Sound Clear Allowed extra Resolved) :
    (nodes : List Node) → ∀ {w : P.World} {a a' : ScopeId} (inScope : Bool)
    {ws ws' : List ScopeId}, AllClear Sound Clear Allowed nodes → P.Same w a a' →
    P.SameAll w ws ws' →
    Paired P w (Left P Sound Allowed) (TextTemplate.stageNodes env inc a inScope ws nodes)
      (TextTemplate.stageNodes env' inc' a' inScope (ws' ++ extra) nodes)
  | [], w, a, a', inScope, ws, ws', hn, ha, hws => by
    rw [TextTemplate.stageNodes, TextTemplate.stageNodes]
    exact .pure fun _ _ => ⟨rfl, trivial⟩
  | node :: nodes, w, a, a', inScope, ws, ws', hn, ha, hws => by
    rw [TextTemplate.stageNodes, TextTemplate.stageNodes]
    refine (h.stageNode node inScope ⟨hn.1, trivial⟩ ha hws).bind fun v x x' hv hx => ?_
    obtain ⟨rfl, hx⟩ := hx
    refine (h.stageNodes nodes inScope hn.2 (P.same hv ha) (sameAll hv hws)).bind
      fun u y y' _ hy => ?_
    obtain ⟨rfl, hy⟩ := hy
    exact .pure fun _ _ => ⟨rfl, Node.everyOf_append.2 ⟨hx, hy⟩⟩

end

variable (h : P.Passes env env' inc inc' Sound Clear Allowed extra Resolved) {w : P.World}

include h in
theorem Passes.settleNode {a a' : ScopeId} {os os' : List ScopeId} (expanded : Option String)
    {node : Node} (hn : AllSound Sound Allowed [node]) (ha : P.Same w a a')
    (ho : P.SameAll w os os') :
    Paired P w (fun _ => Eq) (TextTemplate.settleNode env inc a os expanded node)
      (TextTemplate.settleNode env' inc' a' os' expanded node) := by
  cases node with
  | text text => exact .pure fun _ _ => rfl
  | block head body => exact .pure fun _ _ => rfl
  | inclusion i => exact h.inclusion hn.1 ha
  | tag tag =>
    refine (h.resolve hn.1 ha ho).bind fun v r r' _ hr => ?_
    cases hr with
    | none => exact (h.missing tag.raw).andThen fun _ _ _ => .pure fun _ _ => rfl
    | some hr => exact .pure fun _ _ => by rw [h.text tag hr]

include h in
theorem Passes.settleLevel {a a' : ScopeId} {os os' : List ScopeId} {nodes : List Node}
    (pieces : List (Option String)) (hn : AllSound Sound Allowed nodes) (ha : P.Same w a a')
    (ho : P.SameAll w os os') :
    Paired P w (fun _ => Eq) (TextTemplate.settleLevel env inc a os (nodes.zip pieces))
      (TextTemplate.settleLevel env' inc' a' os' (nodes.zip pieces)) := by
  induction nodes generalizing w pieces with
  | nil => exact .pure fun _ _ => rfl
  | cons node nodes ih =>
    cases pieces with
    | nil => exact .pure fun _ _ => rfl
    | cons piece pieces =>
      rw [List.zip_cons_cons, TextTemplate.settleLevel, TextTemplate.settleLevel]
      refine (h.settleNode piece ⟨hn.1, trivial⟩ ha ho).andThen fun v _ hv => ?_
      exact (ih pieces hn.2 (P.same hv ha) (sameAll hv ho)).andThen fun _ _ _ => .pure fun _ _ => rfl

/-- Bodies of sections that are rendered alike. -/
abbrev Bodies (P : Pairing φ) (body body' : ScopeId → List ScopeId → Run φ String) : Prop :=
  ∀ {w : P.World} {a a' : ScopeId} {os os' : List ScopeId}, P.Same w a a' → P.SameAll w os os' →
    Paired P w (fun _ => Eq) (body a os) (body' a' os')

include h in
theorem Passes.expandItems {body body' : ScopeId → List ScopeId → Run φ String}
    (hbody : Bodies P body body') (raw : String) {a a' : ScopeId} {os os' : List ScopeId}
    (ha : P.Same w a a') (hread : P.Read w a a') (ho : P.SameAll w os os') (indices : List Nat) :
    Paired P w (fun _ => Eq) (TextTemplate.expandItems env raw body a os indices)
      (TextTemplate.expandItems env' raw body' a' os' indices) := by
  induction indices generalizing w with
  | nil => exact .pure fun _ _ => rfl
  | cons index rest ih =>
    rw [TextTemplate.expandItems, TextTemplate.expandItems]
    refine (h.item raw index ha hread).bind fun v i i' hv hi => ?_
    have hshown := h.shown raw hi
    rw [← bind_assoc, ← bind_assoc]
    refine hshown.andThen fun u shown hu => ?_
    have hlater := P.trans hv hu
    split
    · refine (hbody (P.same hu hi) (.cons (P.same hu hi) (sameAll hlater ho))).andThen
        fun x text hx => ?_
      have hlater := P.trans hlater hx
      exact (ih (P.same hlater ha) (P.read hlater hread) (sameAll hlater ho)).andThen
        fun _ _ _ => .pure fun _ _ => rfl
    · exact ih (P.same hlater ha) (P.read hlater hread) (sameAll hlater ho)

include h in
theorem Passes.expandSection {body body' : ScopeId → List ScopeId → Run φ String}
    (hbody : Bodies P body body') {head : Section} (hs : Sound head.binding) {a a' : ScopeId}
    {os os' : List ScopeId} (ha : P.Same w a a') (ho : P.SameAll w os os') :
    Paired P w (fun _ => Eq) (TextTemplate.expandSection env head body a os)
      (TextTemplate.expandSection env' head body' a' os') := by
  refine (h.resolve hs ha ho).bind fun v r r' hv hr => ?_
  replace ha := P.same hv ha
  replace ho := sameAll hv ho
  cases hr with
  | none =>
    refine (h.missing head.raw).andThen fun u _ hu => ?_
    split
    · exact .pure fun _ _ => rfl
    · exact hbody (P.same hu ha) (sameAll hu ho)
  | @some r r' hr =>
    obtain ⟨hrepeating, hdynamic, hsize⟩ := h.flags hr
    dsimp only
    rw [hrepeating, hdynamic, hsize, h.numbers]
    split
    · refine (hbody ha ho).andThen fun u text hu => ?_
      exact ((h.passThrough head.raw head.links text hr).mono hu).andThen
        fun _ _ _ => .pure fun _ _ => rfl
    · split
      · rename_i hrep
        split
        · split
          · exact hbody ha ho
          · exact .pure fun _ _ => rfl
        · refine (h.innerScope hr).bind fun u i i' hu hi => ?_
          exact (h.expandItems hbody head.raw hi.1 (hi.2 hrep) (sameAll hu ho) _).andThen
            fun _ _ _ => .pure fun _ _ => rfl
      · refine (h.display head.inclusive head.raw hr).andThen fun u _ hu => ?_
        split
        · refine ((h.innerScope hr).mono hu).bind fun x i i' hx hi => hbody hi.1 ?_
          split
          · exact .cons hi.1 (sameAll (P.trans hu hx) ho)
          · exact sameAll (P.trans hu hx) ho
        · exact .pure fun _ _ => rfl

mutual

theorem Passes.expandNode
    (h : P.Passes env env' inc inc' Sound Clear Allowed extra Resolved) :
    (node : Node) → ∀ {w : P.World} {a a' : ScopeId}
    {os os' : List ScopeId}, AllSound Sound Allowed [node] → P.Same w a a' → P.SameAll w os os' →
    Paired P w (fun _ => Eq) (TextTemplate.expandNode env inc a os node)
      (TextTemplate.expandNode env' inc' a' os' node)
  | .text _, _, _, _, _, _, _, _, _
  | .inclusion _, _, _, _, _, _, _, _, _
  | .tag _, _, _, _, _, _, _, _, _ => by
    rw [TextTemplate.expandNode, TextTemplate.expandNode]
    · exact .pure fun _ _ => rfl
    all_goals simp
  | .block head body, w, a, a', os, os', hn, ha, ho => by
    rw [TextTemplate.expandNode, TextTemplate.expandNode]
    refine (h.expandSection (fun hx hos => ?_) hn.1.1 ha ho).andThen
      fun _ _ _ => .pure fun _ _ => rfl
    exact (h.expandNodes body hn.1.2 hx hos).andThen fun v pieces hv =>
      h.settleLevel pieces hn.1.2 (P.same hv hx) (sameAll hv hos)

theorem Passes.expandNodes
    (h : P.Passes env env' inc inc' Sound Clear Allowed extra Resolved) :
    (nodes : List Node) → ∀ {w : P.World} {a a' : ScopeId}
    {os os' : List ScopeId}, AllSound Sound Allowed nodes → P.Same w a a' → P.SameAll w os os' →
    Paired P w (fun _ => Eq) (TextTemplate.expandNodes env inc a os nodes)
      (TextTemplate.expandNodes env' inc' a' os' nodes)
  | [], _, _, _, _, _, _, _, _ => by
    rw [TextTemplate.expandNodes, TextTemplate.expandNodes]
    exact .pure fun _ _ => rfl
  | node :: nodes, w, a, a', os, os', hn, ha, ho => by
    rw [TextTemplate.expandNodes, TextTemplate.expandNodes]
    refine (h.expandNode node ⟨hn.1, trivial⟩ ha ho).andThen fun v _ hv => ?_
    exact (h.expandNodes nodes hn.2 (P.same hv ha) (sameAll hv ho)).andThen
      fun _ _ _ => .pure fun _ _ => rfl

end

include h in
/-- **The second passes make the same text.** -/
theorem Passes.expandLevel {nodes : List Node} (hn : AllSound Sound Allowed nodes)
    {a a' : ScopeId} {os os' : List ScopeId} (ha : P.Same w a a') (ho : P.SameAll w os os') :
    Paired P w (fun _ => Eq) (TextTemplate.expandLevel env inc a os nodes)
      (TextTemplate.expandLevel env' inc' a' os' nodes) :=
  (h.expandNodes nodes hn ha ho).andThen fun _ pieces hv =>
    h.settleLevel pieces hn (P.same hv ha) (sameAll hv ho)

/-- **Renders side by side.** -/
theorem Passes.renderNodes (h : P.Passes env env' inc inc' Sound Clear Allowed [] Resolved)
    {nodes : List Node} (hn : AllClear Sound Clear Allowed nodes) {a a' : ScopeId}
    (ha : P.Same w a a') :
    Paired P w (fun _ => Eq) (Run.renderNodes env inc a nodes)
      (Run.renderNodes env' inc' a' nodes) :=
  (h.stageNodes nodes true hn ha .nil).bind fun v staged staged' hv hst => by
    obtain ⟨rfl, hst⟩ := hst
    exact h.expandLevel hst (P.same hv ha) .nil

/-- Where scopes are read and searched alike, the passes go alike as soon as overlays are made and
included templates are rendered alike. -/
theorem Reads.passes {Known : Key → Prop} (h : P.Reads env env' Known)
    (hclear : ∀ {w s s' b}, P.Holds w s s' → Clear b → ∀ key ∈ b.keys, key.inContext = false →
      ∀ e ∈ extra, s'.tree.covers e key.text = false)
    (hanchored : ∀ path key, Known key → Known (key.anchored path))
    (hinner : ∀ {w r r'}, Resolves P w r r' →
      Paired P w (fun u a a' => P.Same u a a' ∧ (r.isRepeating = true → P.Read u a a'))
        (Run.innerScope r) (Run.innerScope r'))
    (hitem : ∀ {w a a'} (raw : String) (index : Nat), P.Same w a a' → P.Read w a a' →
      Paired P w P.Same (Run.item env.host (env.policy raw) a index)
        (Run.item env'.host (env'.policy raw) a' index))
    (hmissing : ∀ {w} (raw : String),
      Paired P w (fun _ => Eq) (Run.missing env raw) (Run.missing env' raw))
    (hinclusion : ∀ {w a a' i}, Allowed i → P.Same w a a' →
      Paired P w (fun _ => Eq) (inc i a) (inc' i a')) :
    P.Passes env env' inc inc' (fun b => ∀ key ∈ b.keys, Known key) Clear Allowed extra
      (Resolves P) where
  path := h.path
  waits inScope hs hws hb := h.mustWait hs hws (hclear hs hb) inScope
  anchored {w s s' a a' head} _ _ hb key hk := by
    rw [Section.keys_anchored] at hk
    obtain ⟨key, hm, rfl⟩ := List.mem_map.1 hk
    exact hanchored _ _ (hb key hm)
  resolve hb ha ho := h.resolve hb ha ho
  later hv hr := hr.later hv
  scope hr := hr.scope
  flags hr := ⟨hr.isRepeating, hr.isDynamic, hr.size⟩
  text tag hr := by
    have htext : tagText env' tag = tagText env tag := by
      funext v
      rw [tagText, tagText, h.numbers, h.escapeAll]
    rw [hr.value, htext]
  innerScope := hinner
  display inclusive raw hr := by
    rw [hr.value]
    exact h.display inclusive _ raw
  passThrough raw links text hr := by
    rw [sameChain_functions hr.chain]
    exact (h.passThrough raw _ (P.string text)).weaken fun _ _ _ _ hxy => hxy.1
  item := hitem
  shown raw ha := (h.value raw ha).bind fun _ v v' _ hv => by
    obtain ⟨rfl, -⟩ := hv
    exact h.display true v raw
  missing := hmissing
  inclusion := hinclusion
  numbers := h.numbers

end Passes

end Pairing

end TextTemplate
