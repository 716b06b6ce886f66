import TextTemplate.Proofs.Results

/-!
What a render does to a tree, step by step, with a log of the sections it goes through. Looking up,
showing and going through a section keep a run that is traced so, and the results that are kept are
those of the first passages.
-/
namespace TextTemplate
variable {φ : Type}

/-- The trees a render starts from. -/
inductive Starts : ScopeTree φ → Prop where
  | new (data : Value φ) : Starts (ScopeTree.new data)
  | newAt {data : Value φ} (path : String) (v : Value φ) (h : data.isFunction = false) :
      Starts (ScopeTree.newAt data path v).2

/-- The steps of renders from `start`, with the sections with functions whose inner scopes were asked
for, in order. -/
inductive Trace (env : Env φ) (start : Session φ) : List (Passage φ) → Session φ → Prop where
  | start : Trace env start [] start
  | calls {log : List (Passage φ)} {s : Session φ} (earlier : Trace env start log s)
      (calls : List (Call φ)) : Trace env start log { s with calls }
  | value {log : List (Passage φ)} {s : Session φ} {id : ScopeId} (earlier : Trace env start log s)
      (inRange : id < s.tree.scopes.size) (policy : FailurePolicy) :
      Trace env start log ((Run.value env.host policy id).left s)
  | item {log : List (Passage φ)} {s : Session φ} {id : ScopeId} (earlier : Trace env start log s)
      (inRange : id < s.tree.scopes.size) (policy : FailurePolicy) (index : Nat) :
      Trace env start log ((Run.item env.host policy id index).left s)
  | resolve {log : List (Passage φ)} {s : Session φ} {scope : ScopeId} {overlays : List ScopeId}
      (earlier : Trace env start log s) (inRange : scope < s.tree.scopes.size)
      (overlaysInRange : ∀ o ∈ overlays, o < s.tree.scopes.size) (b : Binding) :
      Trace env start log ((Run.resolve env b scope overlays).left s)
  /-- Functions may be called between, but nothing is done to the tree. -/
  | enter {log : List (Passage φ)} {s s₁ s₂ : Session φ} {scope : ScopeId} {overlays : List ScopeId}
      {e : Passage φ} (earlier : Trace env start log s) (inRange : scope < s.tree.scopes.size)
      (overlaysInRange : ∀ o ∈ overlays, o < s.tree.scopes.size) (linked : e.head.links ≠ [])
      (whole : e.head.passesText = false)
      (resolves : Run.resolve env e.head.binding scope overlays s = .ok (some e.result) s₁)
      (same : s₂.tree = s₁.tree) :
      Trace env start (log ++ [e]) ((Run.innerScope e.result).left s₂)

theorem Starts.kept {t : ScopeTree φ} (h : Starts t) (env : Env φ) : Kept env [] t := by
  have hnew : ∀ data : Value φ, (ScopeTree.new data).scope ScopeTree.root =
      ScopeTree.fresh data "" none ScopeTree.root 0 := fun data =>
    ScopeTree.scope_insert_self ScopeTree.empty data "" none none 0
  have hstart : ∀ data : Value φ, Kept env [] (ScopeTree.new data) := fun data => by
    refine ⟨ScopeTree.wellFormed_new data, .inr rfl, by simp, fun i hi chain _ => ?_⟩
    obtain rfl : i = ScopeTree.root := Nat.lt_one_iff.1 hi
    rw [hnew]
    exact .none
  cases h with
  | new data => exact hstart data
  | @newAt data path v hd =>
    by_cases hpath : path = ""
    · rw [hpath, ScopeTree.newAt_root]
      exact hstart v
    · obtain ⟨-, -, hg, hroot, -⟩ := ScopeTree.newAt_grows data v hpath
      refine ⟨ScopeTree.wellFormed_newAt data path v, .inl ⟨data, ?_⟩, by simp, fun i hi chain _ => ?_⟩
      · rw [hroot]
        exact ScopeTree.content_of_fresh (hnew data) hd
      · rcases hg.older hi with hi | rfl
        · obtain rfl : i = ScopeTree.root := Nat.lt_one_iff.1 hi
          rw [hroot, hnew]
          exact .none
        · rw [hg.made]
          exact .none

namespace Trace

variable {env : Env φ} {start s : Session φ} {log : List (Passage φ)}

/-- What is resolved on a kept tree. -/
theorem kept_resolve {scope : ScopeId} {overlays : List ScopeId} {b : Binding} {r : Resolution φ}
    {s' : Session φ} (hk : Kept env log s.tree) (hscope : scope < s.tree.scopes.size)
    (hover : ∀ o ∈ overlays, o < s.tree.scopes.size)
    (hr : Run.resolve env b scope overlays s = .ok (some r) s') :
    Kept env log s'.tree ∧ Resolved env b s'.tree r := by
  obtain ⟨-, hkept, hresolved⟩ :=
    (Run.leads_resolve (upheld_kept env log) hk hscope hover b).of_ok hr
  exact ⟨hkept, hresolved r rfl⟩

/-- Along every trace the overlays of results hold what the first passages came to. -/
theorem kept (hstart : Starts start.tree) (h : Trace env start log s) : Kept env log s.tree := by
  induction h with
  | start => exact hstart.kept env
  | calls _ _ ih => exact ih
  | value _ inRange policy ih => exact (Run.leads_value (upheld_kept env _) ih inRange).left
  | item _ inRange policy index ih => exact (Run.leads_item (upheld_kept env _) ih inRange index).left
  | resolve _ inRange overlaysInRange b ih =>
    exact (Run.leads_resolve (upheld_kept env _) ih inRange overlaysInRange b).left
  | enter _ inRange overlaysInRange linked whole resolves same ih =>
    obtain ⟨hk, hr⟩ := kept_resolve ih inRange overlaysInRange resolves
    rw [hr.innerScope_linked linked, Run.left]
    dsimp only [Run.onTree]
    rw [← same] at hk hr
    exact (hk.enter hr linked whole rfl).2.1

end Trace

/-- A session some steps further on. -/
def Traced (env : Env φ) (start : Session φ) (log : List (Passage φ)) (s : Session φ) : Prop :=
  ∃ more, Trace env start (log ++ more) s

namespace Run

variable {env : Env φ} {start s : Session φ} {log : List (Passage φ)} {scope : ScopeId}
  {overlays : List ScopeId}

theorem traced_calls (h : Traced env start log s) (calls : List (Call φ)) :
    Traced env start log { s with calls } := by
  obtain ⟨more, h⟩ := h
  exact ⟨more, h.calls calls⟩

theorem traced_missing (h : Traced env start log s) (raw : String) :
    Leads (Traced env start log) s (missing env raw) fun _ _ => True := by
  rw [missing]
  split
  · exact .throw h
  · exact .pure h trivial

theorem traced_display (h : Traced env start log s) (inclusive : Bool) (v : Value φ) (raw : String) :
    Leads (Traced env start log) s (display env inclusive v raw) fun _ s' => s'.tree = s.tree := by
  rw [display]
  split
  · refine .look ((Leads.evaluate (R := fun _ s' => s'.tree = s.tree) (traced_calls h)
      fun _ _ _ => rfl).bind fun _ _ _ h' ht => .pure h' ht)
  · exact .pure h rfl
  · exact .pure h rfl

theorem traced_value (hstart : Starts start.tree) (h : Traced env start log s)
    (hid : scope < s.tree.scopes.size) (policy : FailurePolicy) :
    Leads (Traced env start log) s (value env.host policy scope) fun _ _ => True := by
  obtain ⟨more, h⟩ := h
  exact ((leads_value (upheld_kept env _) (h.kept hstart) hid).weaken fun _ _ _ _ _ => trivial).also
    ⟨more, h.value hid policy⟩

theorem traced_item (hstart : Starts start.tree) (h : Traced env start log s)
    (hid : scope < s.tree.scopes.size) (policy : FailurePolicy) (index : Nat) :
    Leads (Traced env start log) s (item env.host policy scope index) fun o s' =>
      o < s'.tree.scopes.size := by
  obtain ⟨more, h⟩ := h
  exact (leads_item (upheld_kept env _) (h.kept hstart) hid index).also
    ⟨more, h.item hid policy index⟩

theorem traced_resolve (hstart : Starts start.tree) (h : Traced env start log s)
    (hscope : scope < s.tree.scopes.size) (hover : ∀ o ∈ overlays, o < s.tree.scopes.size) (b : Binding) :
    Leads (Traced env start log) s (resolve env b scope overlays) fun _ _ => True := by
  obtain ⟨more, h⟩ := h
  exact ((leads_resolve (upheld_kept env _) (h.kept hstart) hscope hover b).weaken
    fun _ _ _ _ _ => trivial).also ⟨more, h.resolve hscope hover b⟩

/-- The section has just been resolved to `r`, and the tree is `t` now. -/
def Poised (env : Env φ) (start : Session φ) (log : List (Passage φ)) (head : Section)
    (r : Resolution φ) (t : ScopeTree φ) : Prop :=
  ∃ more s scope overlays s', Trace env start (log ++ more) s ∧ scope < s.tree.scopes.size ∧
    (∀ o ∈ overlays, o < s.tree.scopes.size) ∧
    resolve env head.binding scope overlays s = .ok (some r) s' ∧ s'.tree = t

theorem Poised.resolved (hstart : Starts start.tree) {head : Section} {r : Resolution φ}
    {t : ScopeTree φ} (h : Poised env start log head r t) : Resolved env head.binding t r := by
  obtain ⟨more, s, scope, overlays, s', h, hscope, hover, hr, rfl⟩ := h
  exact (Trace.kept_resolve (h.kept hstart) hscope hover hr).2

theorem traced_section (hstart : Starts start.tree) (h : Traced env start log s)
    (hscope : scope < s.tree.scopes.size) (hover : ∀ o ∈ overlays, o < s.tree.scopes.size)
    (head : Section) :
    Leads (Traced env start log) s (resolve env head.binding scope overlays) fun x s' =>
      ∀ r ∈ x, Poised env start log head r s'.tree := by
  refine (traced_resolve hstart h hscope hover head.binding).exact.weaken ?_
  rintro _ s' - - ⟨-, hr⟩ r ⟨⟩
  obtain ⟨more, h⟩ := h
  exact ⟨more, s, scope, overlays, s', h, hscope, hover, hr, rfl⟩

theorem traced_innerScope (hstart : Starts start.tree) (h : Traced env start log s)
    {head : Section} {r : Resolution φ} (hr : Poised env start log head r s.tree)
    (hwhole : head.passesText = false) :
    Leads (Traced env start log) s (innerScope r) fun id s' => id < s'.tree.scopes.size := by
  have hresolved := hr.resolved hstart
  by_cases hlinks : head.links = []
  · rw [hresolved.innerScope_plain hlinks]
    exact .pure h hresolved.scope
  · obtain ⟨more, s₀, scope, overlays, s₁, h₀, hscope, hover, hres, hsame⟩ := hr
    obtain ⟨hk, -⟩ := Trace.kept_resolve (h₀.kept hstart) hscope hover hres
    rw [hsame] at hk
    obtain ⟨hext, -, hheld⟩ := hk.enter (e := ⟨head, r⟩) hresolved hlinks hwhole rfl
    have hentered : Traced env start log ((innerScope r).left s) :=
      ⟨more ++ [⟨head, r⟩], by
        rw [← List.append_assoc]
        exact h₀.enter (e := ⟨head, r⟩) hscope hover hlinks hwhole hres hsame.symm⟩
    refine Leads.also (I := fun _ => True) ?_ hentered
    rw [hresolved.innerScope_linked hlinks]
    exact .step hext trivial hheld.lt

end Run

end TextTemplate
