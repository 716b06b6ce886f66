import TextTemplate.Proofs.Failure
import TextTemplate.Proofs.Placeless

/-!
Rendering in one pass. A template of text, tags and sections whose keys are all absolute, or all in
context, means what a recursive evaluator says that knows nothing of passes, scopes or caches: it
carries the current value and the values bound to the paths of the sections around.
-/
namespace TextTemplate
variable {φ : Type}

/-- Goes down by the segments of a path. The fewest of them that name a field are joined, and no
step is ever taken back. -/
def Value.find? : (joined : String) → (segments : List String) → Value φ → Option (Value φ)
  | joined, [], v => if joined.isEmpty then some v else none
  | joined, segment :: segments, v =>
    match v.get? (joined ++ segment) with
    | some w => find? "" segments w
    | none => find? (joined ++ segment ++ ".") segments v

namespace OnePass

open Treeless (missing shows Stance)

/-- What keys are looked up in: the current value, and values bound to paths, innermost first. -/
structure View (φ : Type) where
  current : Value φ
  bindings : List (String × Value φ)

namespace View

def start (data : Value φ) : View φ := ⟨data, [("", data)]⟩

/-- A key in context is looked up in the current value, any other in the innermost binding whose
path covers it. -/
def lookup (view : View φ) (key : Key) : Option (Value φ) :=
  if key.inContext then view.current.find? "" key.segments
  else
    match view.bindings.find? fun b => pathCovers b.1 key.text with
    | some (path, v) => v.find? "" (key.segments.drop (pathDepth path))
    | none => none

def enter (view : View φ) (v : Value φ) : View φ := { view with current := v }

def bind (view : View φ) (key : Key) (item : Value φ) : View φ :=
  ⟨item, (key.text, item) :: view.bindings⟩

end View

mutual

def evalNode (env : Env φ) (view : View φ) : Node → Except TemplateError String
  | .text text => return text
  | .inclusion _ => return ""
  | .tag tag => do
    match view.lookup tag.key with
    | some v => return tagText env tag v
    | none =>
      missing env tag.raw
      return ""
  | .block head body => do
    match view.lookup head.key with
    | none =>
      missing env head.raw
      if head.inclusive then return "" else evalNodes env view body
    | some (.array items) =>
      if head.inclusive then
        let texts ← (items.filter (shows env true)).mapM fun item =>
          evalNodes env (view.bind head.key item) body
        return if head.list then Text.joinList texts else String.join texts
      else if items.isEmpty then evalNodes env view body
      else return ""
    | some v =>
      if shows env head.inclusive v then evalNodes env (view.enter v) body
      else return ""

def evalNodes (env : Env φ) (view : View φ) : List Node → Except TemplateError String
  | [] => return ""
  | node :: nodes => do
    let text ← evalNode env view node
    return text ++ (← evalNodes env view nodes)

end

/-- The text of nodes over data, or a key that is missing. -/
def render (env : Env φ) (data : Value φ) (nodes : List Node) : Except TemplateError String :=
  evalNodes env (.start data) nodes

/-- Without empty segments, walking over places is looking a path up in a value. -/
theorem walk_find (host : Host φ) (policy : FailurePolicy) {p : Place φ} (h : p.Clean)
    {segments : List String} (hgaps : ∀ s ∈ segments, s ≠ "") (hdot : Dotless segments)
    (joined : String) :
    ∃ r, p.walk host policy joined segments = .ok r ∧
      r.map (fun x => x.1.bound) = p.bound.find? joined segments := by
  induction segments generalizing p joined with
  | nil =>
    refine ⟨_, rfl, ?_⟩
    rw [Value.find?]
    split <;> rfl
  | cons s segments ih =>
    have hself := Place.isSelfKey_append joined (hgaps s List.mem_cons_self)
      (hdot s List.mem_cons_self)
    have hgaps' : ∀ x ∈ segments, x ≠ "" := fun x hx => hgaps x (List.mem_cons_of_mem _ hx)
    have hdot' : Dotless segments := fun x hx => hdot x (List.mem_cons_of_mem _ hx)
    simp only [Place.walk, h.read, bind, Except.bind, Value.find?, hself]
    cases hw : p.bound.get? (joined ++ s) with
    | none =>
      dsimp only
      simpa using ih h hgaps' hdot' _
    | some w =>
      have ha : p.bound.isArray = false := by
        cases hb : p.bound <;> first | rfl | (rw [hb] at hw; cases hw)
      simp only [ha, Bool.false_eq_true, if_false]
      exact ih (h.child hw) hgaps' hdot' ""

theorem search_find (host : Host φ) (policy : FailurePolicy) {p : Place φ} (h : p.Clean) {key : Key}
    (hk : key.Formed) (hgaps : key.NoGaps)
    (hcov : key.inContext = true ∨ pathCovers p.path key.text = true) :
    ∃ r, p.search host policy key = .ok r ∧ r.map Place.bound =
      p.bound.find? "" (if key.inContext then key.segments
        else key.segments.drop (pathDepth p.path)) := by
  have hdot : Dotless key.segments := hk.segments ▸ dotless_splitPath key.text
  cases hc : key.inContext with
  | true =>
    obtain ⟨r, hr, hfind⟩ := walk_find host policy h hgaps hdot ""
    refine ⟨r.map Prod.fst, ?_, ?_⟩
    · simp only [Place.search, hc, if_true, hr]
      rfl
    · rw [Option.map_map]
      exact hfind
  | false =>
    have hcov' : pathCovers p.path key.text = true := by simpa [hc] using hcov
    have hgaps' : ∀ s ∈ key.segments.drop (pathDepth p.path), s ≠ "" := fun s hs =>
      hgaps s (List.mem_of_mem_drop hs)
    have hdot' : Dotless (key.segments.drop (pathDepth p.path)) := fun s hs =>
      hdot s (List.mem_of_mem_drop hs)
    obtain ⟨r, hr, hfind⟩ := walk_find host policy h hgaps' hdot' ""
    refine ⟨r.map Prod.fst, ?_, ?_⟩
    · simp only [Place.search, hc, Bool.false_eq_true, if_false, Place.nearest_of_covers hcov', hr]
      rfl
    · rw [Option.map_map]
      exact hfind

section Lookup

variable {env : Env φ} {data : Value φ} {place : Place φ} {overlays : List (Place φ)}
  {view : View φ}

/-- A view and a place show the same to absolute keys, or to keys in context. -/
structure Sees (env : Env φ) (data : Value φ) (inContext : Bool) (view : View φ) (place : Place φ)
    (overlays : List (Place φ)) : Prop where
  clean : data.isData = true
  stance : Stance env data place overlays
  current : inContext = true → place.bound = view.current
  bindings : inContext = false →
    view.bindings = overlays.map (fun o => (o.path, o.bound)) ++ [("", data)]

theorem Sees.findPlace {inContext : Bool} (h : Sees env data inContext view place overlays)
    {key : Key} (hk : key.Formed) (hgaps : key.NoGaps) (hc : key.inContext = inContext)
    (raw : String) :
    ∃ r, Treeless.findPlace env.host (env.policy raw) place overlays key = .ok r ∧
      r.map Place.bound = view.lookup key := by
  rw [Treeless.findPlace, View.lookup]
  cases hin : key.inContext with
  | true =>
    obtain ⟨r, hr, hfind⟩ := search_find env.host (env.policy raw) h.stance.clean hk hgaps (.inl hin)
    refine ⟨r, by simpa using hr, ?_⟩
    rw [hfind, h.current (hc.symm.trans hin)]
    simp [hin]
  | false =>
    simp only [Bool.false_eq_true, if_false]
    have hcovers : (overlays.map fun o => (o.path, o.bound)).find? (fun b => pathCovers b.1 key.text) =
        (overlays.find? fun o => pathCovers o.path key.text).map fun o => (o.path, o.bound) :=
      List.find?_map ..
    rw [h.bindings (hc.symm.trans hin), List.find?_append, hcovers]
    cases hf : overlays.find? fun o => pathCovers o.path key.text with
    | some o =>
      have hcov := List.find?_some hf
      obtain ⟨r, hr, hfind⟩ := search_find env.host (env.policy raw)
        (h.stance.overlaysClean o (List.mem_of_find?_eq_some hf)) hk hgaps (.inr hcov)
      refine ⟨r, hr, ?_⟩
      rw [hfind]
      simp [hin]
    | none =>
      have hcov : Place.covered overlays key.text = false := by simpa [Place.covered] using hf
      have htop : pathCovers (Place.top data).path key.text = true := by
        simp [pathCovers_iff, Place.top, Place.path]
      have hdata := Place.Clean.top h.clean
      obtain ⟨r, hr, hfind⟩ := search_find env.host (env.policy raw) hdata hk hgaps (.inr htop)
      have hsearch : place.search env.host (env.policy raw) key =
          (Place.top data).search env.host (env.policy raw) key :=
        h.stance.footing.place.search key hk hin hcov raw
      refine ⟨r, by rw [hsearch, hr], ?_⟩
      rw [hfind]
      have hroot : pathCovers "" key.text = true := by simp [pathCovers_iff]
      have hpath : (Place.top data).path = "" := rfl
      have hbound : (Place.top data).bound = data := rfl
      simp [hin, hroot, hpath, hbound]

/-- A binding without functions resolves to what the view shows. -/
theorem Sees.resolve {inContext : Bool} (h : Sees env data inContext view place overlays)
    {b : Binding} (hl : b.links = []) (hk : b.key.Formed) (hgaps : b.key.NoGaps)
    (hc : b.key.inContext = inContext) :
    (view.lookup b.key = none ∧ Treeless.resolve env data b place overlays = .ok none) ∨
      ∃ q, q.Clean ∧ view.lookup b.key = some q.bound ∧
        Treeless.findPlace env.host (env.policy b.raw) place overlays b.key = .ok (some q) ∧
        Treeless.resolve env data b place overlays = .ok (some (.plain q q.bound)) := by
  obtain ⟨r, hr, hlook⟩ := h.findPlace hk hgaps hc b.raw
  rcases Treeless.resolve_clean env data hl h.stance.clean h.stance.overlaysClean with
    ⟨hf, hres⟩ | ⟨q, hf, hq, hres⟩
  · obtain rfl : none = r := Except.ok.inj (hf.symm.trans hr)
    exact .inl ⟨hlook.symm, hres⟩
  · obtain rfl : some q = r := Except.ok.inj (hf.symm.trans hr)
    exact .inr ⟨q, hq, hlook.symm, hf, hres⟩

/-- Inside a section over a value that is no sequence. -/
theorem Sees.enter {inContext : Bool} (h : Sees env data inContext view place overlays)
    {q : Place φ} (hq : Stance env data q overlays) {v : Value φ} (hv : q.bound = v) :
    Sees env data inContext (view.enter v) q overlays :=
  ⟨h.clean, hq, fun _ => hv, h.bindings⟩

/-- Inside an item of a repeated section. -/
theorem Sees.item {inContext : Bool} (h : Sees env data inContext view place overlays) {key : Key}
    (hk : key.Formed) (hc : key.inContext = inContext) {q : Place φ}
    (hq : Stance env data q overlays) {raw : String}
    (hf : Treeless.findPlace env.host (env.policy raw) place overlays key = .ok (some q))
    {items : List (Value φ)} (hitems : q.bound = .array items) (i : Nat) :
    Sees env data inContext (view.bind key (items.getD i .null)) (q.item q.bound i)
      (q.item q.bound i :: overlays) := by
  have hbound : (q.item q.bound i).bound = items.getD i .null := by
    rw [hitems]
    rfl
  refine ⟨h.clean, hq.item i, fun _ => hbound, fun hin => ?_⟩
  have hpath : q.path = key.text := by
    refine (h.stance.footing.found_path hk (hc.trans hin) hf).resolve_right ?_
    rintro ⟨v, hreads, hv⟩
    have := (hreads "").symm.trans hq.clean.read
    cases this
    rw [hitems] at hv
    cases hv
  have hp : (q.item q.bound i).path = key.text := hpath
  simp [View.bind, h.bindings hin, hp, hbound]

end Lookup

section Level

variable {env : Env φ} {data : Value φ} {inc : Inclusion → Place φ → Except TemplateError String}

theorem item_bound {q : Place φ} {items : List (Value φ)} (hq : q.bound = .array items) (i : Nat) :
    (q.item q.bound i).bound = items.getD i .null := by
  rw [hq]
  rfl

/-- The items that are shown, in order. -/
theorem expandItems_eval {q : Place φ} (hq : q.Clean) {items : List (Value φ)}
    (hitems : q.bound = .array items) (raw : String) {overlays : List (Place φ)}
    {render : Place φ → List (Place φ) → Except TemplateError String}
    (f : Value φ → Except TemplateError String) (indices : List Nat)
    (h : ∀ i ∈ indices, (render (q.item q.bound i) (q.item q.bound i :: overlays)).toOption =
      (f (items.getD i .null)).toOption) :
    (Treeless.expandItems env data raw render q overlays indices).toOption =
      (((indices.map fun i => items.getD i .null).filter (shows env true)).mapM f).toOption := by
  induction indices with
  | nil => rfl
  | cons i rest ih =>
    have hrest := ih fun j hj => h j (List.mem_cons_of_mem _ hj)
    have hitem := hq.item i
    have hbound := item_bound hitems i
    rw [Treeless.expandItems]
    simp only [hq.read, hitem.read, Treeless.display_clean hitem.bound, bind, Except.bind]
    rw [List.map_cons, List.filter_cons, ← hbound]
    cases hs : shows env true (q.item q.bound i).bound with
    | false =>
      simp only [Bool.false_eq_true, if_false]
      exact hrest
    | true =>
      simp only [if_true]
      have hhead := h i List.mem_cons_self
      rw [← hbound] at hhead
      rw [List.mapM_cons]
      have hl := toOption_bind (render (q.item q.bound i) (q.item q.bound i :: overlays)) fun text =>
        Treeless.expandItems env data raw render q overlays rest >>= fun texts => pure (text :: texts)
      refine hl.trans ?_
      rw [toOption_bind, hhead]
      refine congrArg _ (funext fun text => ?_)
      rw [toOption_bind, toOption_bind, hrest]

theorem range_items (items : List (Value φ)) :
    ((List.range items.length).map fun i => items.getD i .null) = items := by
  refine List.ext_getElem (by simp) fun i h₁ h₂ => ?_
  simp [List.getElem?_eq_getElem h₂]

/-- Keys without empty segments, all absolute or all in context. -/
abbrev Uniform (inContext : Bool) : List Node → Prop :=
  Node.EveryOf (fun t => t.key.NoGaps ∧ t.key.inContext = inContext) (fun _ => True)
    fun s => s.key.NoGaps ∧ s.key.inContext = inContext

/-- A level comes to the same in every view that sees what its place and overlays see. -/
def Evaluates (env : Env φ) (data : Value φ) (inc : Inclusion → Place φ → Except TemplateError String)
    (inContext : Bool) (nodes : List Node) : Prop :=
  ∀ {view : View φ} {place : Place φ} {overlays : List (Place φ)},
    Sees env data inContext view place overlays →
    Treeless.levelText env data inc place overlays nodes = (evalNodes env view nodes).toOption

section Node

variable {inContext : Bool} {view : View φ} {place : Place φ} {overlays : List (Place φ)}
  (h : Sees env data inContext view place overlays)

include h in
private theorem Sees.tagText_eval {tag : Tag} (ht : tag.Plain) (hgaps : tag.key.NoGaps)
    (hc : tag.key.inContext = inContext) :
    Treeless.nodeText env data inc place overlays (.tag tag) =
      (evalNode env view (.tag tag)).toOption := by
  rw [evalNode, Treeless.nodeText, Treeless.settleNode] <;> [skip; simp]
  rcases h.resolve (b := tag.binding) ht.links ht.key hgaps hc with
    ⟨hlook, hres⟩ | ⟨q, -, hlook, -, hres⟩
  all_goals
    rw [hres, show view.lookup tag.key = _ from hlook]
    rfl

variable {head : Section} {body : List Node} (hbody : Evaluates env data inc inContext body)

include h hbody in
/-- A repeated section comes to the texts of the items that are shown, each in a view of its own. -/
private theorem Sees.itemsText_eval (hk : head.key.Formed) (hc : head.key.inContext = inContext)
    {q : Place φ} (hq : q.Clean)
    (hf : Treeless.findPlace env.host (env.policy head.raw) place overlays head.key = .ok (some q))
    {items : List (Value φ)} (hitems : q.bound = .array items) :
    (Treeless.expandItems env data head.raw (fun p os => Treeless.expandLevel env data inc p os body)
        q overlays (List.range items.length)).toOption =
      ((items.filter (shows env true)).mapM fun item =>
        evalNodes env (view.bind head.key item) body).toOption := by
  refine Eq.trans (expandItems_eval hq hitems head.raw
    (fun item => evalNodes env (view.bind head.key item) body) _ fun i _ => ?_) ?_
  · exact hbody (h.item hk hc (h.stance.found hk hf) hf hitems i)
  · rw [range_items]

include h hbody in
private theorem Sees.blockText_eval (hhead : head.Plain) (hgaps : head.key.NoGaps)
    (hc : head.key.inContext = inContext) :
    Treeless.nodeText env data inc place overlays (.block head body) =
      (evalNode env view (.block head body)).toOption := by
  rw [evalNode, Treeless.nodeText]
  rcases h.resolve (b := head.binding) hhead.links hhead.key hgaps hc with
    ⟨hlook, hres⟩ | ⟨q, hq, hlook, hf, hres⟩
  · rw [show view.lookup head.key = none from hlook, Treeless.expand_missing hres, toOption_bind]
    simp only [toOption_bind]
    refine congrArg _ (funext fun _ => ?_)
    split
    · rfl
    · exact hbody h
  · rw [show view.lookup head.key = some q.bound from hlook,
      Treeless.expand_found hhead.passes hq.bound hres]
    cases hb : q.bound with
    | array items =>
      have ha : (Value.array items).isArray = true := rfl
      have hsize : (Value.array items).size = items.length := rfl
      simp only [ha, if_true, hsize]
      cases hi : head.inclusive with
      | false =>
        simp only [Bool.false_eq_true, if_false, List.length_eq_zero_iff, List.isEmpty_iff]
        split
        · exact hbody h
        · rfl
      | true =>
        simp only [if_true]
        rw [toOption_bind, toOption_bind, h.itemsText_eval hbody hhead.key hc hq hf hb]
        rfl
    | _ =>
      simp only [Value.isArray, Bool.false_eq_true, if_false]
      split
      · exact hbody (h.enter (h.stance.found hhead.key hf) hb)
      · rfl

end Node

mutual

private theorem nodeText_eval {inContext : Bool} : (node : Node) → ∀ {view : View φ}
    {place : Place φ}
    {overlays : List (Place φ)}, Sees env data inContext view place overlays → Node.Plain node →
    Uniform inContext [node] →
    Treeless.nodeText env data inc place overlays node = (evalNode env view node).toOption
  | .text text, _, _, _, _, _, _ => by rw [evalNode]; rfl
  | .inclusion _, _, _, _, _, hn, _ => hn.elim
  | .tag _, _, _, _, h, hn, ⟨⟨hgaps, hc⟩, _⟩ => h.tagText_eval hn hgaps hc
  | .block _ body, _, _, _, h, hn, ⟨⟨⟨hgaps, hc⟩, hbody⟩, _⟩ =>
    h.blockText_eval (fun hs => levelText_eval body hs hn.2 hbody) hn.1 hgaps hc

private theorem levelText_eval {inContext : Bool} : (nodes : List Node) → ∀ {view : View φ}
    {place : Place φ} {overlays : List (Place φ)}, Sees env data inContext view place overlays →
    Node.AllPlain nodes → Uniform inContext nodes →
    Treeless.levelText env data inc place overlays nodes = (evalNodes env view nodes).toOption
  | [], _, _, _, _, _, _ => by rw [Treeless.levelText_nil, evalNodes]; rfl
  | node :: nodes, _, _, _, h, hn, hu => by
    rw [Treeless.levelText_cons, evalNodes, nodeText_eval node h hn.1 ⟨hu.1, trivial⟩,
      levelText_eval nodes h hn.2 hu.2, toOption_bind]
    refine congrArg _ (funext fun text => ?_)
    cases evalNodes env _ nodes <;> rfl

end

end Level

section Passes

variable {env : Env φ} {data : Value φ}

/-- From the base of its region, the copy of a repeated section leads back to where the section was
found. -/
theorem copy_found {base place q : Place φ}
    (hp : Place.Within env.host env.settings.errorOnFuncFailure base place) {key : Key}
    (hk : key.Formed) (hc : key.inContext = true) {raw : String} (hq : q.Clean)
    (hf : place.search env.host (env.policy raw) key = .ok (some q)) (ha : q.bound.isArray = true) :
    base.search env.host (env.policy raw) (key.anchored place.path) = .ok (some q) := by
  have hin := hp.trans (Place.search_within hk (.inl hc) hf).1
  have hreads : q.Reads env.host env.settings.errorOnFuncFailure q.bound := fun _ => hq.read
  rcases Place.anchored_inContext hk hc hf hreads ha with ⟨hne, hkey⟩ | ⟨hroot, hkey, htext⟩
  · rw [hkey]
    exact Place.Within.search_path .base hin ⟨rfl, fun _ => hne⟩ rfl rfl raw
  · -- The empty path has no key of its own; only the base can stand there.
    have hnil : key.segments = [] := by rw [hk.segments, htext, splitPath_empty]
    have hself : ∀ p : Place φ, p.search env.host (env.policy raw) key = .ok (some p) := fun p => by
      simp [Place.search, hc, hnil, bind, Except.bind, pure, Except.pure]
    rw [hself place] at hf
    cases hf
    rw [hkey, hself, hp.eq_base hroot]

mutual

theorem steady_inContext : (node : Node) → ∀ {place far : Place φ}
    (inScope : Bool) {overlays : List (Place φ)}, Node.Plain node → Uniform true [node] →
    Place.Within env.host env.settings.errorOnFuncFailure (.top data) place → place.Clean →
    (inScope = true → far = .top data ∧ overlays = []) →
    Treeless.Steady env place inScope far overlays node
  | .text _, _, _, _, _, _, _, _, _, _ => by rw [Treeless.Steady]; trivial
  | .tag _, _, _, _, _, _, _, _, _, _ => by rw [Treeless.Steady]; trivial
  | .inclusion _, _, _, _, _, hn, _, _, _, _ => hn.elim
  | .block head body, place, far, inScope, overlays, hn, hu, hp, hclean, htop => by
    obtain ⟨⟨⟨-, hc⟩, hbody⟩, -⟩ := hu
    rw [Treeless.Steady]
    cases hin : inScope with
    | false => simp [hc]
    | true =>
      obtain ⟨rfl, rfl⟩ := htop hin
      obtain ⟨r, hr, hrc⟩ : ∃ r, place.search env.host (env.policy head.raw) head.key = .ok r ∧
        ∀ q, r = some q → q.Clean := hclean.search head.key
      simp only [hc, Bool.not_true, Bool.and_false, Bool.false_eq_true, if_false, Bool.false_and,
        Treeless.findPlace_nil, hr, if_true]
      cases r with
      | none => exact fun _ => allSteady_inContext body true hn.2 hbody hp hclean fun _ => ⟨rfl, rfl⟩
      | some q =>
        have hq := hrc q rfl
        have hqin := hp.trans (Place.search_within hn.1.key (.inl hc) hr).1
        dsimp only
        split
        · split
          · refine fun _ => ⟨copy_found hp hn.1.key hc hq hr ‹_›, fun i _ _ => ?_⟩
            exact allSteady_inContext body false hn.2 hbody hp hclean (by simp)
          · exact fun _ => allSteady_inContext body true hn.2 hbody hp hclean fun _ => ⟨rfl, rfl⟩
        · exact fun _ => allSteady_inContext body true hn.2 hbody hqin hq fun _ => ⟨rfl, rfl⟩

theorem allSteady_inContext : (nodes : List Node) →
    ∀ {place far : Place φ} (inScope : Bool) {overlays : List (Place φ)}, Node.AllPlain nodes →
    Uniform true nodes →
    Place.Within env.host env.settings.errorOnFuncFailure (.top data) place → place.Clean →
    (inScope = true → far = .top data ∧ overlays = []) →
    Treeless.AllSteady env place inScope far overlays nodes
  | [], _, _, _, _, _, _, _, _, _ => by rw [Treeless.AllSteady]; trivial
  | node :: nodes, _, _, inScope, _, hn, hu, hp, hclean, htop => by
    rw [Treeless.AllSteady]
    exact ⟨steady_inContext node inScope hn.1 ⟨hu.1, trivial⟩ hp hclean htop,
      allSteady_inContext nodes inScope hn.2 hu.2 hp hclean htop⟩

end

/-- Both passes come to what the evaluator says. -/
private theorem staged_eval (hd : data.isData = true) {inContext : Bool} {nodes : List Node}
    (hn : Node.AllPlain nodes) (hu : Uniform inContext nodes)
    (inc : Inclusion → Place φ → Except TemplateError String) :
    (Treeless.renderNodes env data inc (.top data) nodes).toOption =
      (render env data nodes).toOption := by
  have htop : Stance env data (.top data) [] := .top hd
  have hstaging : Treeless.Staging env data (.top data) [] (.top data) [] :=
    ⟨htop, htop, fun _ => rfl⟩
  have hkeys : Treeless.Calm env false nodes ∧
      Treeless.AllSteady env (.top data) true (.top data) [] nodes := by
    cases inContext with
    | true =>
      exact ⟨.inr (.inr ⟨rfl, Node.EveryOf.imp (fun _ h => h.2) (fun _ h => h) (fun _ h => h.2) nodes hu⟩),
        allSteady_inContext nodes true hn hu .base (.top hd) fun _ => ⟨rfl, rfl⟩⟩
    | false =>
      have habsolute : Node.AllAbsolute nodes :=
        Node.EveryOf.imp (fun _ h => h.2) (fun _ h => h) (fun _ h => h.2) nodes hu
      exact ⟨.inr (.inl habsolute), Treeless.allSteady_placeless nodes true false hn
        (Node.allPlaceless_of_absolute nodes false hn habsolute) htop htop⟩
  have hstart : Sees env data inContext (.start data) (.top data) [] :=
    ⟨hd, htop, fun _ => rfl, fun _ => rfl⟩
  exact (Treeless.stagedText_eq nodes true hstaging hn hkeys.1 hkeys.2).trans
    (levelText_eval nodes hstart hn hu)

end Passes

end OnePass

/-- **One pass is enough.** A render gives the text the evaluator gives. What cannot be rendered has a
template to include that does not parse, or lacks a key where that is an error. -/
theorem Template.render_onePass (host : Host φ) {template : Template} {data : Value φ}
    (hd : data.isData = true) {inContext : Bool} (hn : Node.AllPlain template.nodes)
    (hu : OnePass.Uniform inContext template.nodes) (options : RenderOptions) :
    match options.compilePartials with
    | .error e => (template.render host data options).result = .error e
    | .ok templates =>
      let env : Env φ := ⟨host, options.toSettings, options.numbers, templates⟩
      (template.render host data options).result.toOption =
          (OnePass.render env data template.nodes).toOption ∧
        ∀ e, (template.render host data options).result = .error e →
          options.errorOnMissingTags = true ∧ ∃ raw, e = .missingBinding raw := by
  rw [template.render_result host data options]
  cases options.compilePartials with
  | error e => rfl
  | ok templates =>
    simp only [bind, Except.bind, Run.outcome_plain hd hn]
    exact ⟨OnePass.staged_eval hd hn hu _, fun e he => Treeless.error_of_render hd hn he⟩

/-- Letters in a list, each with a mark after it. -/
theorem Template.render_onePass_letters :
    let tag : Tag := ⟨"{{.}}", none, .ofPath "" true, [], none, false⟩
    let head : Section := ⟨⟨"{{#.xs}}", some .sectionInclude, .ofPath "xs" true, [], none, false⟩,
      .ofPath "xs" true, []⟩
    let data : Value Empty := .record [("xs", .array [.string "a", .string "b"])]
    (Template.render ⟨fun _ f _ _ => nomatch f⟩ ⟨[.block head [.tag tag, .text ";"]], .default⟩ data
      .default).result.toOption = some "a;b;" := by
  intro tag head data
  have hformed : ∀ path, (Key.ofPath path true).Formed := fun _ => ⟨rfl, by simp [Key.ofPath]⟩
  have hn : Node.AllPlain [.block head [.tag tag, .text ";"]] :=
    ⟨⟨⟨hformed _, rfl, rfl⟩, ⟨hformed _, rfl⟩, trivial, trivial⟩, trivial⟩
  have hu : OnePass.Uniform true [.block head [.tag tag, .text ";"]] :=
    ⟨⟨⟨by decide, rfl⟩, ⟨by decide, rfl⟩, trivial, trivial⟩, trivial⟩
  have h := @Template.render_onePass _ ⟨fun _ f _ _ => nomatch f⟩
    ⟨[.block head [.tag tag, .text ";"]], .default⟩ data rfl true hn hu .default
  refine h.1.trans ?_
  rfl

end TextTemplate
