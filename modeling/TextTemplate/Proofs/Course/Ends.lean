import Mathlib.Logic.Relation
import TextTemplate.Proofs.Course.Render
import TextTemplate.Proofs.Evaluation

/-!
Reading as it recurses, with steps enough. Parents are older than what is below them, so a climb takes
no more steps than there are scopes; and a function is called until there were too many calls, if what
comes back does not end it. With that many steps all that is read comes to what it comes to when both
limits are built in.
-/
namespace TextTemplate
variable {φ α β : Type}

namespace ScopeTree

variable {t : ScopeTree φ}

/-- No scope is above itself. -/
def Acyclic (t : ScopeTree φ) : Prop :=
  ∀ id, ¬ Relation.TransGen (fun id above => t.parent? id = some above) id id

theorem lt_of_parent (hw : t.WellFormed) {id above : ScopeId} (h : t.parent? id = some above) :
    above < id := by
  by_cases hid : id < t.scopes.size
  · exact hw.parent id hid above h
  · rw [parent?, scope, Array.getD_eq_getD_getElem?, Array.getElem?_eq_none (Nat.not_lt.1 hid)] at h
    cases h

theorem WellFormed.acyclic (hw : t.WellFormed) : t.Acyclic := by
  have hlt : ∀ {id above}, Relation.TransGen (fun id above => t.parent? id = some above) id above →
      above < id := by
    intro id above h
    induction h with
    | single h => exact lt_of_parent hw h
    | tail _ h ih => exact Nat.lt_trans (lt_of_parent hw h) ih
  exact fun id h => Nat.lt_irrefl id (hlt h)

/-- A climb from a scope ends in a step for each scope that is older, and one more. -/
theorem climbOn_eq (hw : t.WellFormed) (target : String) (segments : List String) {steps : Nat}
    {id : ScopeId} (h : id < steps) (useCache : Bool) :
    t.climbOn target segments steps id useCache = some (t.climb target segments id useCache) := by
  induction steps generalizing id useCache with
  | zero => cases h
  | succ steps ih =>
    rw [climbOn, climb]
    cases if useCache then t.known? id target else none with
    | some hit => rfl
    | none =>
      dsimp only
      by_cases hhere : (segments.isEmpty || t.path id = target) = true
      · simp only [if_pos hhere]
      · simp only [if_neg hhere]
        cases habove : t.parent? id with
        | none => rfl
        | some above =>
          have hlt := lt_of_parent hw habove
          simp only [if_pos hlt, ih (Nat.lt_of_lt_of_le hlt (Nat.le_of_lt_succ h))]
          split
          · split <;> rfl
          · rfl

end ScopeTree

/-- Calling what comes back ends when too many calls were made, if not before. -/
theorem Host.followOn_eq (host : Host φ) (context root : Value φ) {fuel made steps : Nat}
    (hmade : made + fuel = maxReturned + 1) (hsteps : fuel < steps) (v : Value φ)
    (calls : List (Call φ)) :
    host.followOn context root steps made v calls = some (host.follow context root fuel v calls) := by
  induction fuel generalizing made steps v calls with
  | zero =>
    obtain ⟨steps, rfl⟩ := Nat.exists_eq_succ_of_ne_zero (Nat.ne_zero_of_lt hsteps)
    have htoo : maxReturned < made := by omega
    cases v <;> simp [followOn, follow, htoo]
  | succ fuel ih =>
    obtain ⟨steps, rfl⟩ := Nat.exists_eq_succ_of_ne_zero (Nat.ne_zero_of_lt hsteps)
    cases v with
    | function f =>
      have hfew : ¬ maxReturned < made := by omega
      simp only [followOn, follow, if_neg hfew]
      cases host.call calls f context root with
      | error message => rfl
      | ok w => exact ih (by omega) (Nat.lt_of_succ_lt_succ hsteps) w _
    | _ => simp [followOn, follow]

theorem Host.length_follow_le (host : Host φ) (context root : Value φ) (fuel : Nat) (v : Value φ)
    (calls : List (Call φ)) :
    (host.follow context root fuel v calls).2.length ≤ calls.length + fuel := by
  obtain ⟨made, heq, hlength, -⟩ := host.calls_follow context root fuel v calls
  rw [heq, List.length_append]
  omega

namespace Course

/-- What is noted stays within the limits. -/
def Event.Bounded : Event φ → Prop
  | climbed tree => tree.Acyclic
  | evaluated calls => calls ≤ maxReturned + 1
  | entered depth => depth ≤ maxPartialDepth

/-- With enough steps the walk ends as the run does, whatever was noted before. -/
def Ends (s : Session φ) (w : Walk φ α) (m : Run φ α) : Prop :=
  ∃ enough log, (∀ e ∈ log, e.Bounded) ∧ ∀ steps ≥ enough, ∀ earlier,
    w.ends steps ⟨s, earlier⟩ = some (m.ending s, ⟨m.left s, log ++ earlier⟩)

/-- Besides, the run keeps trees well-formed and gives what `R` says. -/
structure Comes (s : Session φ) (w : Walk φ α) (m : Run φ α) (R : α → Session φ → Prop) : Prop where
  leads : Leads (fun s => s.tree.WellFormed) s m R
  ends : Ends s w m

section Rules

variable {s : Session φ} {w : Walk φ α} {m : Run φ α} {R : α → Session φ → Prop}

private theorem ends_bind (w : Walk φ α) (g : α → Walk φ β) (steps : Nat) (s : State φ) :
    (w >>= g).ends steps s = (w.ends steps s).bind fun r =>
      match r.1 with
      | .ok a => (g a).ends steps r.2
      | .error e => some (.error e, r.2) := by
  simp only [Walk.ends, bind, ReaderT.bind, ExceptT.bind, ExceptT.mk, StateT.bind, Option.bind]
  cases w steps s with
  | none => rfl
  | some r => cases r with
    | mk r s' => cases r <;> rfl

namespace Ends

theorem ofRun (m : Run φ α) : Ends s (Course.ofRun m) m := ⟨0, [], by simp, fun _ _ _ => rfl⟩

theorem pure (a : α) : Ends s (Pure.pure a) (Pure.pure a) := ⟨0, [], by simp, fun _ _ _ => rfl⟩

theorem throw (e : TemplateError) :
    Ends s (MonadExcept.throw e : Walk φ α) (MonadExcept.throw e) :=
  ⟨0, [], by simp, fun _ _ _ => rfl⟩

theorem bind {g : α → Walk φ β} {f : α → Run φ β} {I : Session φ → Prop} (h : Ends s w m)
    (hl : Leads I s m R)
    (hf : ∀ a s', s.tree.Extends s'.tree → I s' → R a s' → Ends s' (g a) (f a)) :
    Ends s (w >>= g) (m >>= f) := by
  obtain ⟨enough, log, hlog, h⟩ := h
  simp only [Leads] at hl
  cases hm : m s with
  | error e s' =>
    refine ⟨enough, log, hlog, fun steps hsteps earlier => ?_⟩
    rw [ends_bind, h steps hsteps, (Run.ending_of_error hm).1, (Run.ending_of_error hm).2,
      (Run.ending_of_error (Run.bind_of_error hm f)).1,
      (Run.ending_of_error (Run.bind_of_error hm f)).2]
    rfl
  | ok a s' =>
    rw [hm] at hl
    obtain ⟨enough', log', hlog', h'⟩ := hf a s' hl.1 hl.2.1 hl.2.2
    refine ⟨max enough enough', log' ++ log, fun e he => ?_, fun steps hsteps earlier => ?_⟩
    · exact (List.mem_append.1 he).elim (hlog' e) (hlog e)
    · have hending : (m >>= f).ending s = (f a).ending s' := Run.ending_bind_of_ok hm f
      have hleft : (m >>= f).left s = (f a).left s' := by
        rw [Run.left, Run.left, Run.bind_of_ok hm]
      rw [ends_bind, h steps (Nat.le_trans (Nat.le_max_left _ _) hsteps), (Run.ending_of_ok hm).1,
        (Run.ending_of_ok hm).2, hending, hleft, List.append_assoc]
      exact h' steps (Nat.le_trans (Nat.le_max_right _ _) hsteps) _

/-- A walk that looks at the tree first. -/
theorem look {g : ScopeTree φ → Walk φ α} {f : ScopeTree φ → Run φ α}
    (h : Ends s (g s.tree) (f s.tree)) : Ends s (Course.ofRun Run.tree >>= g) (Run.tree >>= f) := h

end Ends

namespace Comes

theorem pure {a : α} (hw : s.tree.WellFormed) (h : R a s) : Comes s (Pure.pure a) (Pure.pure a) R :=
  ⟨.pure hw h, .pure a⟩

theorem ofRun (h : Leads (fun s => s.tree.WellFormed) s m R) : Comes s (Course.ofRun m) m R :=
  ⟨h, .ofRun m⟩

theorem bind {g : α → Walk φ β} {f : α → Run φ β} {R' : β → Session φ → Prop} (h : Comes s w m R)
    (hf : ∀ a s', s.tree.Extends s'.tree → s'.tree.WellFormed → R a s' → Comes s' (g a) (f a) R') :
    Comes s (w >>= g) (m >>= f) R' :=
  ⟨h.leads.bind fun a s' he hw hr => (hf a s' he hw hr).leads,
    h.ends.bind h.leads fun a s' he hw hr => (hf a s' he hw hr).ends⟩

/-- A walk that looks at the tree first. -/
theorem look {g : ScopeTree φ → Walk φ α} {f : ScopeTree φ → Run φ α}
    (h : Comes s (g s.tree) (f s.tree) R) :
    Comes s (Course.ofRun Run.tree >>= g) (Run.tree >>= f) R := ⟨.look h.leads, .look h.ends⟩

end Comes

end Rules

section Reading

variable {host : Host φ} {policy : FailurePolicy} {env : Env φ} {s : Session φ} {id : ScopeId}

private theorem ends_evaluate (f : φ) (context root : Value φ) :
    Ends s (evaluate host policy f context root) (Run.evaluate host policy f context root) := by
  have hcalls := host.length_follow_le context root (maxReturned + 1) (.function f) s.calls
  refine ⟨maxReturned + 2, [.evaluated ((host.follow context root (maxReturned + 1) (.function f)
    s.calls).2.length - s.calls.length)], ?_, fun steps hsteps earlier => ?_⟩
  · simpa [Event.Bounded, Nat.add_comm] using hcalls
  · rw [Walk.ends, evaluate, host.followOn_eq context root (Nat.zero_add _) hsteps]
    simp only [Run.ending, Run.left, Run.evaluate, Host.evaluate]
    rcases host.follow context root (maxReturned + 1) (.function f) s.calls with ⟨fault | v, calls⟩
    · dsimp only
      cases policy.settle (φ := φ) fault <;> rfl
    · rfl

/-- A call has no hold on the tree. -/
theorem leads_evaluate (f : φ) (context root : Value φ) :
    Leads (fun s' => s'.tree = s.tree) s (Run.evaluate host policy f context root) fun _ _ => True :=
  .evaluate (fun _ => rfl) fun _ _ _ => trivial

/-- A climb ends, and only looks. -/
theorem Ends.climb {g : ScopeTree.Landing → Walk φ α} {m : Run φ α} (hw : s.tree.WellFormed)
    {target : String} {segments : List String}
    (h : Ends s (g (s.tree.climb target segments id true)) m) :
    Ends s (Course.climb target segments id >>= g) m := by
  obtain ⟨enough, log, hlog, h⟩ := h
  refine ⟨max enough (id + 1), log ++ [.climbed s.tree], fun e he => ?_,
    fun steps hsteps earlier => ?_⟩
  · rcases List.mem_append.1 he with he | he
    · exact hlog e he
    · rw [List.mem_singleton.1 he]
      exact hw.acyclic
  · have hclimb : (Course.climb target segments id).ends steps ⟨s, earlier⟩ =
        some (.ok (s.tree.climb target segments id true), ⟨s, .climbed s.tree :: earlier⟩) := by
      rw [Walk.ends, Course.climb,
        ScopeTree.climbOn_eq hw target segments (Nat.le_trans (Nat.le_max_right _ _) hsteps)]
      rfl
    rw [ends_bind, hclimb, List.append_assoc]
    exact h steps (Nat.le_trans (Nat.le_max_left _ _) hsteps) _

section Scopes

private theorem ends_force : Ends s (force host policy id) (Run.force host policy id) := by
  refine .look ?_
  cases (s.tree.scope id).content with
  | ready v => exact .pure ()
  | pending f =>
    exact (ends_evaluate f _ _).bind (leads_evaluate f _ _) fun _ _ _ _ _ => .ofRun _

variable (hw : s.tree.WellFormed) (hid : id < s.tree.scopes.size)
include hw hid

theorem ends_value : Ends s (value host policy id) (Run.value host policy id) :=
  ends_force.bind (Run.leads_force upheld_wellFormed hw hid) fun _ _ _ _ _ => .look (.pure _)

private theorem ends_field (name : String) (skipCache : Bool) :
    Ends s (field host policy id name skipCache) (Run.field host policy id name skipCache) :=
  ends_force.bind (Run.leads_force upheld_wellFormed hw hid) fun _ _ _ _ _ => .ofRun _

theorem ends_item (index : Nat) :
    Ends s (item host policy id index) (Run.item host policy id index) := by
  refine .look ?_
  cases (s.tree.scope id).overlays.lookup (.item index) with
  | some o => exact .pure o
  | none =>
    have hread : Ends s (do
          let v ← value host policy id
          Course.ofRun (Run.onTree fun t => t.overlay id (.item index) v))
        (do
          let v ← Run.value host policy id
          Run.onTree fun t => t.overlay id (.item index) v) :=
      (ends_value hw hid).bind (Run.leads_value upheld_wellFormed hw hid) fun _ _ _ _ _ => .ofRun _
    dsimp only
    cases s.tree.data id with
    | array items => exact .ofRun _
    | _ => exact hread

private theorem ends_descend (target joined : String) (segments : List String) :
    Ends s (descend host policy target joined segments id)
      (Run.descend host policy target joined segments id) := by
  induction segments generalizing s id joined with
  | nil => exact .pure none
  | cons segment segments ih =>
    rw [descend, Run.descend]
    refine (ends_field hw hid _ true).bind (Run.leads_field upheld_wellFormed hw hid _ true)
      fun r s' he hw' hr => ?_
    cases r with
    | none => exact ih hw' (he.lt hid) _
    | some c =>
      have hc : c < s'.tree.scopes.size := (hr c rfl).1
      dsimp only
      split
      · exact .pure _
      · refine .look ?_
        split
        · exact .pure _
        · exact ih hw' hc _

private theorem ends_search (key : Key) :
    Ends s (search host policy id key) (Run.search host policy id key) := by
  refine .look ?_
  split
  · dsimp only
    split
    · exact .pure _
    · cases s.tree.known? id (pathStem (s.tree.path id) ++ key.text) with
      | some hit => exact .pure _
      | none =>
        dsimp only
        split
        · exact .pure _
        · exact ends_descend hw hid _ _ _
  · refine .climb hw ?_
    have hland := ScopeTree.climb_shared hw key.text key.segments hid true
    cases hclimb : s.tree.climb key.text key.segments id true with
    | found hit => exact .pure _
    | descend start segments =>
      rw [hclimb] at hland
      cases hland with
      | descend hlt _ => exact ends_descend hw hlt _ _ _

end Scopes

section Bindings

variable {scope : ScopeId} {overlays : List ScopeId}

theorem ends_passThrough (steps : List (φ × Link)) (v : Value φ) :
    Ends s (passThrough env policy steps v) (Run.passThrough env policy steps v) := by
  induction steps generalizing s v with
  | nil => exact .pure v
  | cons step steps ih =>
    refine .look ?_
    exact (ends_evaluate _ _ _).bind (leads_evaluate _ _ _) fun w s' _ _ _ => ih _

theorem ends_display (inclusive : Bool) (v : Value φ) (raw : String) :
    Ends s (display env inclusive v raw) (Run.display env inclusive v raw) := by
  rw [display, Run.display]
  cases v.get? displayKey with
  | none => exact .pure _
  | some flag =>
    cases flag with
    | function f =>
      refine .look ?_
      exact (ends_evaluate _ _ _).bind (leads_evaluate _ _ _) fun _ _ _ _ _ => .pure _
    | _ => exact .pure _

variable (hw : s.tree.WellFormed) (hscope : scope < s.tree.scopes.size)
  (hover : ∀ o ∈ overlays, o < s.tree.scopes.size)
include hw hscope hover

private theorem ends_findScope (key : Key) : Ends s (findScope host policy scope overlays key)
    (Run.findScope host policy scope overlays key) := by
  refine .look ?_
  cases ho : if key.inContext then none else overlays.find? fun o => s.tree.covers o key.text with
  | none => exact ends_search hw hscope key
  | some o =>
    split at ho
    · cases ho
    · exact ends_search hw (hover o (List.mem_of_find?_eq_some ho)) key

private theorem ends_findChain (links : List Link) : Ends s
    (findChain host policy scope overlays links)
    (Run.findChain host policy scope overlays links) := by
  induction links generalizing s with
  | nil => exact .pure []
  | cons link links ih =>
    refine (ends_findScope hw hscope hover link.key).bind
      (Run.leads_findScope upheld_wellFormed hw hscope hover link.key) fun found s' he hw' _ => ?_
    cases found with
    | none => exact .throw _
    | some id =>
      refine .look ?_
      cases s'.tree.function? id with
      | none => exact .throw _
      | some f =>
        have hscope' := he.lt hscope
        have hover' := fun o ho => he.lt (hover o ho)
        exact (ih hw' hscope' hover').bind
          (Run.leads_findChain upheld_wellFormed hw' hscope' hover' links) fun _ _ _ _ _ => .pure _

theorem ends_resolve (b : Binding) :
    Ends s (resolve env b scope overlays) (Run.resolve env b scope overlays) := by
  refine (ends_findScope hw hscope hover b.key).bind
    (Run.leads_findScope upheld_wellFormed hw hscope hover b.key) fun found s₁ he₁ hw₁ hfound => ?_
  cases found with
  | none => exact .pure none
  | some id =>
    have hid := hfound id rfl
    dsimp only
    split
    · exact (ends_value hw₁ hid).bind (Run.leads_value upheld_wellFormed hw₁ hid)
        fun _ _ _ _ _ => .pure _
    · have hscope₁ := he₁.lt hscope
      have hover₁ := fun o ho => he₁.lt (hover o ho)
      refine (ends_findChain hw₁ hscope₁ hover₁ b.links).bind
        (Run.leads_findChain upheld_wellFormed hw₁ hscope₁ hover₁ b.links) fun chain s₂ he₂ hw₂ _ => ?_
      split
      · exact .pure _
      · exact (ends_value hw₂ (he₂.lt hid)).bind (Run.leads_value upheld_wellFormed hw₂ (he₂.lt hid))
          fun v s₃ _ hw₃ _ => (ends_passThrough _ _).bind
            (Run.leads_passThrough (I := fun s => s.tree.WellFormed) (fun _ => hw₃) _ _ _)
              fun _ _ _ _ _ => .pure _

end Bindings

end Reading

end Course

end TextTemplate
