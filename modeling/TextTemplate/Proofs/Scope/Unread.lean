import TextTemplate.Proofs.Scope.Frozen

/-!
Items of a scope that nobody has read. Whether a scope is a sequence is looked at before the
function bound there is called, so a function that gives a sequence is taken for one item when its
items are asked for first, and the overlay made then is there for good. This is the only way in
which an item depends on whether its scope was read before.
-/
namespace TextTemplate
variable {φ : Type}

/-- What stands at an index of a value: an item of a sequence, or null past its end. Any other value
is its own only item. -/
def Value.item (v : Value φ) (index : Nat) : Value φ :=
  match v with
  | .array items => items.getD index .null
  | v => v

/-- A sequence is no item of itself. -/
private theorem Value.item_eq_self_iff {v : Value φ} {index : Nat} :
    v.item index = v ↔ v.isArray = false := by
  cases v with
  | array items =>
    refine iff_of_false (fun hself => ?_) (by simp [isArray])
    replace hself : items.getD index .null = .array items := hself
    rw [List.getD_eq_getElem?_getD] at hself
    cases hitem : items[index]? with
    | none => simp [hitem] at hself
    | some w =>
      rw [hitem, Option.getD_some] at hself
      have hlt := List.sizeOf_lt_of_mem (List.mem_of_getElem? hitem)
      rw [hself, Value.array.sizeOf_spec] at hlt
      omega
  | _ => exact iff_of_true rfl rfl

/-- An overlay that is not there yet is made over the value given. -/
theorem ScopeTree.overlay_unmade {t : ScopeTree φ} {id : ScopeId} {key : OverlayKey}
    (hid : id < t.scopes.size) (hnone : (t.scope id).overlays.lookup key = none) (v : Value φ) :
    ∃ t', t.overlay id key v = (t.scopes.size, t') ∧ t'.bound t.scopes.size = v := by
  have hcase := overlay_cases hid key v
  generalize hr : t.overlay id key v = r at hcase
  cases hcase with
  | there there =>
    rw [hnone] at there
    cases there
  | made _ adds => exact ⟨_, rfl, bound_of_fresh adds.grows.made⟩

namespace Run

variable {host : Host φ} {policy : FailurePolicy} {id : ScopeId} {index : Nat} {s s₁ : Session φ}
  {v : Value φ}

/-- Reading a function for its value does nothing but freeze that value. -/
theorem settles_of_value {f : φ} (hid : id < s.tree.scopes.size)
    (hc : (s.tree.scope id).content = .pending f) (h : value host policy id s = .ok v s₁) :
    s.tree.Settles s₁.tree id v := by
  cases hcall : host.evaluate policy f (s.tree.surroundings id).1 (s.tree.surroundings id).2
    s.calls with
  | mk outcome calls =>
    cases outcome with
    | error e =>
      rw [value, bind_of_error (force_error hc hcall)] at h
      cases h
    | ok w =>
      have hset := ScopeTree.settles hid w
      have hdata : (s.tree.settle id w).data id = w := by
        rw [ScopeTree.data, hset.self]
        rfl
      rw [value, bind_of_ok (force_ok hc hcall), tree_bind, hdata] at h
      cases h
      exact hset

variable (hnone : (s.tree.scope id).overlays.lookup (.item index) = none)
include hnone

/-- The items of a scope that can be read without a call. -/
private theorem item_of_ready (h : (s.tree.scope id).content = .ready v) :
    item host policy id index s =
      onTree (fun t => t.overlay id (.item index) (v.item index)) s := by
  have hdata : s.tree.data id = v := by
    rw [ScopeTree.data, h]
    rfl
  simp only [item, tree_bind, hnone, hdata]
  cases v with
  | array items => rfl
  | _ => exact bind_of_ok (value_ready h) _

/-- A function that was not called yet is its own only item, whatever it gives. -/
private theorem item_of_pending {f : φ} (hc : (s.tree.scope id).content = .pending f)
    (h : value host policy id s = .ok v s₁) :
    item host policy id index s = onTree (fun t => t.overlay id (.item index) v) s₁ := by
  have hdata : s.tree.data id = .null := by
    rw [ScopeTree.data, hc]
    rfl
  simp only [item, tree_bind, hnone, hdata]
  exact bind_of_ok h _

/-- An item that was not asked for before is a new scope. What it holds hangs on whether its scope
was read before. -/
private theorem item_unmade (hid : id < s.tree.scopes.size)
    (h : value host policy id s = .ok v s₁) :
    ∃ s₂ s₂', item host policy id index s = .ok s₁.tree.scopes.size s₂ ∧
      item host policy id index s₁ = .ok s₁.tree.scopes.size s₂' ∧
      s₂'.tree.bound s₁.tree.scopes.size = v.item index ∧
      (s₂.tree.bound s₁.tree.scopes.size = v.item index ↔ s.tree.Ready id ∨ v.isArray = false) := by
  cases hc : (s.tree.scope id).content with
  | ready w =>
    obtain ⟨rfl, rfl⟩ : w = v ∧ s = s₁ := by
      rw [value_ready hc] at h
      cases h
      exact ⟨rfl, rfl⟩
    obtain ⟨t, hmade, hbound⟩ := ScopeTree.overlay_unmade hid hnone (w.item index)
    have hitem : item host policy id index s = .ok s.tree.scopes.size { s with tree := t } := by
      rw [item_of_ready hnone hc]
      exact onTree_ok hmade
    exact ⟨_, _, hitem, hitem, hbound, iff_of_true hbound (.inl ⟨w, hc⟩)⟩
  | pending f =>
    have hset := settles_of_value hid hc h
    have hid₁ : id < s₁.tree.scopes.size := by rwa [hset.size]
    have hnone₁ : (s₁.tree.scope id).overlays.lookup (.item index) = none := by rwa [hset.self]
    have hready₁ : (s₁.tree.scope id).content = .ready v := by rw [hset.self]
    have hunready : ¬ s.tree.Ready id := by
      rintro ⟨w, hw⟩
      rw [hc] at hw
      cases hw
    obtain ⟨t, hmade, hbound⟩ := ScopeTree.overlay_unmade hid₁ hnone₁ v
    obtain ⟨t', hmade', hbound'⟩ := ScopeTree.overlay_unmade hid₁ hnone₁ (v.item index)
    refine ⟨{ s₁ with tree := t }, { s₁ with tree := t' }, ?_, ?_, hbound', ?_⟩
    · rw [item_of_pending hnone hc h]
      exact onTree_ok hmade
    · rw [item_of_ready hnone₁ hready₁]
      exact onTree_ok hmade'
    · rw [hbound, eq_comm, Value.item_eq_self_iff]
      exact (or_iff_right hunready).symm

end Run

/-- **Items depend on what was read before only for functions that give sequences.** An item is the
same scope whether its scope is read first or not. It holds the same in both cases unless it is
asked for the first time, of a function that was not called yet and gives a sequence. And what the
item holds from then on is what stands at the index, except in that case. -/
theorem Reachable.item_unread {host : Host φ} {s : Session φ}
    (h : Reachable host (fun _ => True) (fun _ => True) s) {id : ScopeId}
    (hid : id < s.tree.scopes.size) {policy : FailurePolicy} {v : Value φ} {s₁ : Session φ}
    (hv : Run.value host policy id s = .ok v s₁) (index : Nat) :
    (∃ o s₂ s₂', Run.item host policy id index s = .ok o s₂ ∧
      Run.item host policy id index s₁ = .ok o s₂' ∧
      (s₂.tree.bound o = s₂'.tree.bound o ↔
        (s.tree.scope id).overlays.lookup (.item index) ≠ none ∨ s.tree.Ready id ∨
          v.isArray = false)) ∧
    ((s.tree.scope id).overlays.lookup (.item index) = none →
      ∀ o s₂, Run.item host policy id index s = .ok o s₂ → ∀ s', Later host s₂ s' →
        (∀ policy', Run.item host policy' id index s' = .ok o s') ∧
        (s'.tree.bound o = v.item index ↔ s.tree.Ready id ∨ v.isArray = false)) := by
  have hw := h.wellFormed
  constructor
  · cases hlookup : (s.tree.scope id).overlays.lookup (.item index) with
    | some o =>
      have hlater : Later host s s₁ := by
        rw [← (Run.ending_of_ok hv).2]
        exact .after (r := .value id) policy .refl hid
      have hkeeps := hlater.keeps hw
      have ho := hw.overlays id hid _ o (ScopeTree.mem_of_lookup hlookup)
      exact ⟨o, s, s₁, Run.item_there hlookup, Run.item_there (hkeeps.overlays id hid _ o hlookup),
        iff_of_true (hkeeps.bound o ho.lt).symm (.inl (by simp))⟩
    | none =>
      obtain ⟨s₂, s₂', hitem, hitem', hbound', hbound⟩ := Run.item_unmade hlookup hid hv
      refine ⟨_, s₂, s₂', hitem, hitem', ?_⟩
      rw [hbound', hbound]
      simp
  · intro hnone o s₂ hitem s' hlater
    obtain ⟨s₂', -, hitem', -, -, hbound⟩ := Run.item_unmade hnone hid hv
    cases hitem.symm.trans hitem'
    obtain ⟨-, hw₂, ho⟩ := (Run.leads_item upheld_wellFormed hw hid index).of_ok hitem
    have hkeeps := hlater.keeps hw₂
    refine ⟨fun policy' => Run.item_again hw hid hitem hkeeps, ?_⟩
    rw [hkeeps.bound _ ho, hbound]

namespace LazyList

/-- A function that gives two texts. -/
def host : Host Unit := ⟨fun _ _ _ _ => .ok (.array [.string "a", .string "b"])⟩

def policy : FailurePolicy := ⟨"\x7b\x7blist\x7d\x7d", true⟩

/-- The session after the function was looked up; its scope is the second one. -/
def found : Session Unit :=
  (Request.search ScopeTree.root (.ofPath "list" true)).after host policy
    ⟨.new (.record [("list", .function ())]), []⟩

theorem reachable_found : Reachable host (fun _ => True) (fun _ => True) found :=
  .after policy (.new [] trivial) Nat.zero_lt_one trivial

/-- The text of the scope for the second item. -/
def second (s : Session Unit) : Option String :=
  match Run.item host policy 1 1 s with
  | .ok o s' => some (s'.tree.data o).plain
  | .error _ _ => none

/-- The session after the function was read for its value. -/
def read : Session Unit := (Request.value 1).after host policy found

theorem value_found :
    Run.value host policy 1 found = .ok (.array [.string "a", .string "b"]) read := rfl

end LazyList

open LazyList in
/-- Read first, the function has a second item, and keeps it. -/
theorem Reachable.item_unread_list :
    ∃ o s₂, Run.item host policy 1 1 read = .ok o s₂ ∧ s₂.tree.bound o = .string "b" := by
  have hread : Reachable host (fun _ => True) (fun _ => True) read :=
    .after policy reachable_found (show 1 < _ by decide +kernel) trivial
  have hthere : 1 < read.tree.scopes.size := by decide +kernel
  have hagain : Run.value host policy 1 read = .ok (.array [.string "a", .string "b"]) read := rfl
  have hall := hread.item_unread hthere hagain 1
  obtain ⟨o, s₂, -, hitem, -, -⟩ := hall.1
  have hholds := (hall.2 (by decide +kernel) o s₂ hitem s₂ .refl).2
  exact ⟨o, s₂, hitem, hholds.2 (.inl ⟨_, rfl⟩)⟩

open LazyList in
/-- Asked for items first, the function is its own second item. -/
theorem Reachable.not_item_unread :
    Reachable host (fun _ => True) (fun _ => True) found ∧ host.IsPure ∧
      Run.value host policy 1 found = .ok (.array [.string "a", .string "b"]) read ∧
      second read = some "b" ∧ second found = some "a,b" :=
  ⟨reachable_found, fun _ _ _ _ _ => rfl, value_found, by decide +kernel, by decide +kernel⟩

end TextTemplate
