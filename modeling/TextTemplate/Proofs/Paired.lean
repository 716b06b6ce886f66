import TextTemplate.Proofs.Inclusions
import TextTemplate.Proofs.Nodes
import Mathlib.Data.List.Forall2
import Mathlib.Data.Option.Basic

/-!
Two renders side by side. Their sessions have something in common that every step keeps, and scopes of
one correspond to scopes of the other. What the steps of reading and resolving keep, both passes keep:
as long as the first render does not fail the second goes the same way and comes to the same text.
-/
namespace TextTemplate
variable {φ α β γ δ : Type}

/-- What two sessions have in common as two runs go on side by side. -/
structure Pairing (φ : Type) where
  /-- What is known of both sessions at a time. -/
  World : Type
  Later : World → World → Prop
  Holds : World → Session φ → Session φ → Prop
  /-- Scopes that correspond to each other. -/
  Same : World → ScopeId → ScopeId → Prop
  /-- Scopes whose data has been read. -/
  Read : World → ScopeId → ScopeId → Prop
  /-- What is known of every value that is read. -/
  Good : Value φ → Prop
  /-- Whether the second run fails with the error of the first. -/
  Faults : Prop
  refl : ∀ w, Later w w
  trans : ∀ {u v w}, Later u v → Later v w → Later u w
  same : ∀ {v w a a'}, Later v w → Same v a a' → Same w a a'
  read : ∀ {v w a a'}, Later v w → Read v a a' → Read w a a'
  string : ∀ s, Good (.string s)

/-- From sessions that hold together at `w` or later, the second run does what the first does, unless
that fails; what they give is related by `R`. -/
def Paired (P : Pairing φ) (w : P.World) (R : P.World → α → β → Prop) (m : Run φ α)
    (m' : Run φ β) : Prop :=
  ∀ v s s', P.Later w v → P.Holds v s s' →
    match m s with
    | .ok a t => ∃ b t' u, m' s' = .ok b t' ∧ P.Later v u ∧ P.Holds u t t' ∧ R u a b
    | .error e _ => P.Faults → ∃ t', m' s' = .error e t'

namespace Paired

variable {P : Pairing φ} {w : P.World} {R : P.World → α → β → Prop} {Q : P.World → γ → δ → Prop}

theorem pure {a : α} {b : β} (h : ∀ v, P.Later w v → R v a b) :
    Paired P w R (Pure.pure a) (Pure.pure b) :=
  fun v _ s' hv hs => ⟨b, s', v, rfl, P.refl v, hs, h v hv⟩

theorem throw (e : TemplateError) :
    Paired P w R (MonadExcept.throw e) (MonadExcept.throw e) :=
  fun _ _ s' _ _ _ => ⟨s', rfl⟩

theorem mono {v : P.World} {m : Run φ α} {m' : Run φ β} (h : Paired P w R m m')
    (hv : P.Later w v) : Paired P v R m m' :=
  fun u s s' hu hs => h u s s' (P.trans hv hu) hs

theorem bind {m : Run φ α} {m' : Run φ β} {f : α → Run φ γ} {f' : β → Run φ δ}
    (h : Paired P w R m m')
    (hf : ∀ v a b, P.Later w v → R v a b → Paired P v Q (f a) (f' b)) :
    Paired P w Q (m >>= f) (m' >>= f') := by
  intro v s s' hv hs
  have hm := h v s s' hv hs
  simp only [Bind.bind, EStateM.bind]
  cases hr : m s with
  | error e t =>
    rw [hr] at hm
    intro hfaults
    obtain ⟨t', hm'⟩ := hm hfaults
    exact ⟨t', by rw [hm']⟩
  | ok a t =>
    rw [hr] at hm
    obtain ⟨b, t', u, hm', hu, ht, hab⟩ := hm
    have hrest := hf u a b (P.trans hv hu) hab u t t' (P.refl u) ht
    rw [hm']
    dsimp only
    cases hfa : f a t with
    | error e t₁ =>
      rw [hfa] at hrest
      exact hrest
    | ok c t₁ =>
      rw [hfa] at hrest
      obtain ⟨d, t₁', x, hfb, hx, ht₁, hcd⟩ := hrest
      exact ⟨d, t₁', x, hfb, P.trans hu hx, ht₁, hcd⟩

/-- Both runs go on with what the first step gives. -/
theorem andThen {m m' : Run φ α} {f : α → Run φ γ} {f' : α → Run φ δ}
    (h : Paired P w (fun _ => Eq) m m')
    (hf : ∀ v a, P.Later w v → Paired P v Q (f a) (f' a)) :
    Paired P w Q (m >>= f) (m' >>= f') :=
  h.bind fun v a b hv hab => by
    subst hab
    exact hf v a hv

/-- Runs that look at their trees first. -/
theorem look {f : ScopeTree φ → Run φ α} {f' : ScopeTree φ → Run φ β}
    (h : ∀ v s s', P.Later w v → P.Holds v s s' → Paired P v R (f s.tree) (f' s'.tree)) :
    Paired P w R (Run.tree >>= f) (Run.tree >>= f') :=
  fun v s s' hv hs => h v s s' hv hs v s s' (P.refl v) hs

/-- Steps of the trees. -/
theorem onTree {g : ScopeTree φ → α × ScopeTree φ} {g' : ScopeTree φ → β × ScopeTree φ}
    (h : ∀ v s s', P.Later w v → P.Holds v s s' → ∃ u, P.Later v u ∧
      P.Holds u { s with tree := (g s.tree).2 } { s' with tree := (g' s'.tree).2 } ∧
      R u (g s.tree).1 (g' s'.tree).1) :
    Paired P w R (Run.onTree g) (Run.onTree g') := by
  intro v s s' hv hs
  obtain ⟨u, hu, hholds, hR⟩ := h v s s' hv hs
  exact ⟨_, _, u, rfl, hu, hholds, hR⟩

theorem weaken {R' : P.World → α → β → Prop} {m : Run φ α} {m' : Run φ β} (h : Paired P w R m m')
    (hR : ∀ v a b, P.Later w v → R v a b → R' v a b) : Paired P w R' m m' := by
  intro v s s' hv hs
  have hm := h v s s' hv hs
  cases hr : m s with
  | error e t =>
    rw [hr] at hm
    exact hm
  | ok a t =>
    rw [hr] at hm
    obtain ⟨b, t', u, hm', hu, ht, hab⟩ := hm
    exact ⟨b, t', u, hm', hu, ht, hR u a b (P.trans hv hu) hab⟩

end Paired

namespace Pairing

variable (P : Pairing φ)

/-- Lists of scopes that correspond one by one. -/
abbrev SameAll (w : P.World) : List ScopeId → List ScopeId → Prop := List.Forall₂ (P.Same w)

theorem sameAll {P : Pairing φ} {v w : P.World} (h : P.Later v w) {as as' : List ScopeId}
    (hs : P.SameAll v as as') : P.SameAll w as as' :=
  hs.imp fun _ _ => P.same h

/-- Searching for keys alike. -/
structure Searches (env env' : Env φ) (Known : Key → Prop) : Prop where
  path : ∀ {w s s' a a'}, P.Holds w s s' → P.Same w a a' → s'.tree.path a' = s.tree.path a
  search : ∀ {w a a' key} (raw : String), Known key → P.Same w a a' →
    Paired P w (fun u => Option.Rel (P.Same u)) (Run.search env.host (env.policy raw) a key)
      (Run.search env'.host (env'.policy raw) a' key)

/-- Reading scopes step by step alike. -/
structure Reads (env env' : Env φ) (Known : Key → Prop) : Prop extends
    Searches P env env' Known where
  function : ∀ {w s s' a a'}, P.Holds w s s' → P.Same w a a' →
    s'.tree.function? a' = s.tree.function? a
  top : ∀ {w s s'}, P.Holds w s s' →
    s'.tree.data ScopeTree.root = s.tree.data ScopeTree.root
  value : ∀ {w a a'} (raw : String), P.Same w a a' →
    Paired P w (fun u v v' => v = v' ∧ P.Good v ∧ P.Read u a a')
      (Run.value env.host (env.policy raw) a) (Run.value env'.host (env'.policy raw) a')
  evaluate : ∀ {w} (raw : String) (f : φ) (context root : Value φ),
    Paired P w (fun _ v v' => v = v' ∧ P.Good v)
      (Run.evaluate env.host (env.policy raw) f context root)
      (Run.evaluate env'.host (env'.policy raw) f context root)
  numbers : env'.numbers = env.numbers
  evalZeroAsTrue : env'.settings.evalZeroAsTrue = env.settings.evalZeroAsTrue
  escapeAll : env'.settings.escapeAll = env.settings.escapeAll

section Searches

variable {P} {env env' : Env φ} {Known : Key → Prop} (h : P.Searches env env' Known) {w : P.World}
  {a a' : ScopeId} {os os' : List ScopeId}
include h

theorem Searches.covering {s s' : Session φ} (hs : P.Holds w s s') (ho : P.SameAll w os os')
    (key : String) :
    Option.Rel (P.Same w) (os.find? fun o => s.tree.covers o key)
      (os'.find? fun o => s'.tree.covers o key) := by
  induction ho with
  | nil => exact .none
  | @cons o o' os os' hoo ho ih =>
    have hcov : s'.tree.covers o' key = s.tree.covers o key := by
      rw [ScopeTree.covers, ScopeTree.covers, h.path hs hoo]
    rw [List.find?_cons, List.find?_cons, hcov]
    cases s.tree.covers o key with
    | true => exact .some hoo
    | false => exact ih

/-- Scopes that wait in one of the runs only make no difference to keys outside them. -/
theorem Searches.mustWait {s s' : Session φ} (hs : P.Holds w s s') {ws ws' : List ScopeId}
    (hws : P.SameAll w ws ws') {b : Binding} {extra : List ScopeId}
    (hclear : ∀ key ∈ b.keys, key.inContext = false → ∀ e ∈ extra,
      s'.tree.covers e key.text = false) (inScope : Bool) :
    TextTemplate.mustWait s'.tree b inScope (ws' ++ extra) =
      TextTemplate.mustWait s.tree b inScope ws := by
  have hany : ∀ key, (ws'.any fun o => s'.tree.covers o key) = ws.any fun o => s.tree.covers o key := by
    intro key
    induction hws with
    | nil => rfl
    | cons hoo _ ih =>
      rw [List.any_cons, List.any_cons, ih, ScopeTree.covers, ScopeTree.covers, h.path hs hoo]
  rw [TextTemplate.mustWait, TextTemplate.mustWait, Bool.eq_iff_iff, List.any_eq_true,
    List.any_eq_true]
  refine exists_congr fun key => and_congr_right fun hk => ?_
  split
  · rfl
  · rename_i hc
    have hextra : (extra.any fun o => s'.tree.covers o key.text) = false :=
      List.any_eq_false.2 fun e he => by
        rw [hclear key hk (Bool.eq_false_iff.2 hc) e he]
        exact Bool.false_ne_true
    rw [List.any_append, hany, hextra, Bool.or_false]

theorem Searches.findScope {key : Key} (hk : Known key) (raw : String) (ha : P.Same w a a')
    (ho : P.SameAll w os os') :
    Paired P w (fun u => Option.Rel (P.Same u)) (Run.findScope env.host (env.policy raw) a os key)
      (Run.findScope env'.host (env'.policy raw) a' os' key) := by
  refine .look fun v s s' hv hs => ?_
  have hhere := h.search raw hk (P.same hv ha)
  cases key.inContext with
  | true => exact hhere
  | false =>
    simp only [Bool.false_eq_true, if_false]
    have hcov := h.covering hs (sameAll hv ho) key.text
    generalize (os.find? fun o => s.tree.covers o key.text) = o at hcov ⊢
    generalize (os'.find? fun o => s'.tree.covers o key.text) = o' at hcov ⊢
    cases hcov with
    | none => exact hhere
    | some hoo => exact h.search raw hk hoo

end Searches

section Bindings

variable {P} {env env' : Env φ} {Known : Key → Prop} (h : P.Reads env env' Known) {w : P.World}
  {a a' : ScopeId} {os os' : List ScopeId}
include h

/-- Functions of links that correspond, with the scopes they are bound at. -/
abbrev SameChain (P : Pairing φ) (w : P.World) :
    List (ScopeId × φ) → List (ScopeId × φ) → Prop :=
  List.Forall₂ fun x y => P.Same w x.1 y.1 ∧ x.2 = y.2

omit h in
theorem sameChain_functions {chain chain' : List (ScopeId × φ)} (hc : SameChain P w chain chain') :
    chain'.map Prod.snd = chain.map Prod.snd := by
  induction hc with
  | nil => rfl
  | cons hxy _ ih => rw [List.map_cons, List.map_cons, ih, hxy.2]

theorem Reads.findChain (raw : String) (ha : P.Same w a a') (ho : P.SameAll w os os')
    {links : List Link} (hl : ∀ link ∈ links, Known link.key) :
    Paired P w (SameChain P) (Run.findChain env.host (env.policy raw) a os links)
      (Run.findChain env'.host (env'.policy raw) a' os' links) := by
  induction links generalizing w with
  | nil => exact .pure fun _ _ => .nil
  | cons link links ih =>
    obtain ⟨hk, hks⟩ := List.forall_mem_cons.1 hl
    refine (h.findScope hk raw ha ho).bind fun v r r' hv hr => ?_
    cases hr with
    | none => exact .throw _
    | @some id id' hid =>
      refine .look fun u s s' hu hs => ?_
      rw [h.function hs (P.same hu hid)]
      have hlater := P.trans hv hu
      cases s.tree.function? id with
      | none => exact .throw _
      | some f =>
        refine (ih (P.same hlater ha) (sameAll hlater ho) hks).bind fun x chain chain' hx hc => ?_
        exact .pure fun y hy => .cons ⟨P.same (P.trans hu (P.trans hx hy)) hid, rfl⟩
          (hc.imp fun _ _ hxy => ⟨P.same hy hxy.1, hxy.2⟩)

theorem Reads.passThrough (raw : String) (steps : List (φ × Link)) {v : Value φ}
    (hv : P.Good v) :
    Paired P w (fun _ x y => x = y ∧ P.Good x)
      (Run.passThrough env (env.policy raw) steps v)
      (Run.passThrough env' (env'.policy raw) steps v) := by
  induction steps generalizing w v with
  | nil => exact .pure fun _ _ => ⟨rfl, hv⟩
  | cons step steps ih =>
    refine .look fun u s s' _ hs => ?_
    rw [h.top hs]
    refine (h.evaluate raw step.1 v _).bind fun x y y' _ ⟨hy, hgood⟩ => ?_
    subst hy
    rw [h.numbers]
    refine ih ?_
    split
    · exact P.string _
    · exact hgood

theorem Reads.display (inclusive : Bool) (v : Value φ) (raw : String) :
    Paired P w (fun _ => Eq) (Run.display env inclusive v raw)
      (Run.display env' inclusive v raw) := by
  rw [Run.display, Run.display, h.evalZeroAsTrue]
  cases v.get? displayKey with
  | none => exact .pure fun _ _ => rfl
  | some flag =>
    cases flag with
    | function f =>
      refine .look fun u s s' _ hs => ?_
      rw [h.top hs]
      refine (h.evaluate raw f v _).bind fun x y y' _ ⟨hy, _⟩ => ?_
      subst hy
      exact .pure fun _ _ => rfl
    | _ => exact .pure fun _ _ => rfl

/-- Resolved bindings that correspond. -/
structure Resolves (P : Pairing φ) (w : P.World) (r r' : Resolution φ) : Prop where
  scope : P.Same w r.scope r'.scope
  chain : SameChain P w r.chain r'.chain
  value : r'.value = r.value
  isRepeating : r'.isRepeating = r.isRepeating
  isDynamic : r'.isDynamic = r.isDynamic
  size : r'.size = r.size
  dynamic : r.isRepeating = true → r.isDynamic = true
  good : ∀ v ∈ r.value, P.Good v
  read : r.chain = [] → r.isRepeating = true → P.Read w r.scope r'.scope

omit h in
theorem Resolves.later {r r' : Resolution φ} {v : P.World} (hr : Resolves P w r r')
    (hv : P.Later w v) : Resolves P v r r' :=
  { hr with
    scope := P.same hv hr.scope
    chain := hr.chain.imp fun _ _ hxy => ⟨P.same hv hxy.1, hxy.2⟩
    read := fun hc hrep => P.read hv (hr.read hc hrep) }

omit h in
/-- What bindings without functions resolve to. -/
theorem Resolves.bare {id id' : ScopeId} (hid : P.Same w id id') {v : Value φ} (hgood : P.Good v)
    (hread : P.Read w id id') : Resolves P w ⟨id, [], some v, v.isArray, v.isArray, v.size⟩
      ⟨id', [], some v, v.isArray, v.isArray, v.size⟩ where
  scope := hid
  chain := .nil
  value := rfl
  isRepeating := rfl
  isDynamic := rfl
  size := rfl
  dynamic hrep := hrep
  good := by
    rintro _ ⟨⟩
    exact hgood
  read _ _ := hread

omit h in
/-- What bindings with functions resolve to. -/
theorem Resolves.linked {id id' : ScopeId} (hid : P.Same w id id') {chain chain' : List (ScopeId × φ)}
    (hchain : SameChain P w chain chain') {value : Option (Value φ)} (repeating : Bool) (size : Nat)
    (hgood : ∀ v ∈ value, P.Good v) (hread : repeating = true → P.Read w id id') :
    Resolves P w ⟨id, chain, value, repeating, true, size⟩
      ⟨id', chain', value, repeating, true, size⟩ where
  scope := hid
  chain := hchain
  value := rfl
  isRepeating := rfl
  isDynamic := rfl
  size := rfl
  dynamic _ := rfl
  good := hgood
  read _ := hread

/-- Bindings whose keys are known resolve alike. -/
theorem Reads.resolve {b : Binding} (hb : ∀ key ∈ b.keys, Known key) (ha : P.Same w a a')
    (ho : P.SameAll w os os') :
    Paired P w (fun u => Option.Rel (Resolves P u)) (Run.resolve env b a os)
      (Run.resolve env' b a' os') := by
  obtain ⟨hkey, hlinks⟩ := List.forall_mem_cons.1 hb
  have hlinks' : ∀ link ∈ b.links, Known link.key := fun link hm =>
    hlinks _ (List.mem_map_of_mem hm)
  refine (h.findScope hkey b.raw ha ho).bind fun v r r' hv hr => ?_
  cases hr with
  | none => exact .pure fun _ _ => .none
  | @some id id' hid =>
    dsimp only
    split
    · refine (h.value b.raw hid).bind fun u x x' hu ⟨hx, hgood, hread⟩ => ?_
      subst hx
      exact .pure fun y hy => .some (.bare (P.same (P.trans hu hy) hid) hgood (P.read hy hread))
    · have hlater := P.same hv ha
      refine (h.findChain b.raw hlater (sameAll hv ho) hlinks').bind fun u chain chain' hu hc => ?_
      have hchain : ∀ {y}, P.Later u y → SameChain P y chain chain' := fun hy =>
        hc.imp fun _ _ hxy => ⟨P.same hy hxy.1, hxy.2⟩
      split
      · exact .pure fun y hy => .some
          (.linked (P.same (P.trans hu hy) hid) (hchain hy) _ _ nofun nofun)
      · refine (h.value b.raw (P.same hu hid)).bind fun x z z' hx ⟨hz, hgood, hread⟩ => ?_
        subst hz
        rw [sameChain_functions hc, h.numbers]
        have hgood' : P.Good (if (b.format.isSome || b.escape) = true then
            .string (formatValue env.numbers b.format b.escape z) else z) := by
          split
          · exact P.string _
          · exact hgood
        refine (h.passThrough b.raw _ hgood').bind fun y t t' hy ⟨ht, hgood''⟩ => ?_
        subst ht
        refine .pure fun q hq => .some (.linked (P.same (P.trans hu (P.trans hx (P.trans hy hq))) hid)
          (hchain (P.trans hx (P.trans hy hq))) _ _ ?_ fun _ => P.read (P.trans hy hq) hread)
        rintro _ ⟨⟩
        exact hgood''

end Bindings

end Pairing

end TextTemplate
