import TextTemplate.Proofs.Bindings
import TextTemplate.Proofs.Scope.Isolation

/-!
Functions that return functions. Evaluation calls what comes back until something else does, or
until a hundred calls are made. So what a bound function comes to is never a function, and since
scopes get their values from data and from such calls only, no scope and no binding has one for its
value.
-/
namespace TextTemplate
variable {φ : Type}

namespace Host

section Rows

variable {host : Host φ} {context root : Value φ} {calls : List (Call φ)} {f : φ} {n m fuel : Nat}
  {outcome outcome' : Except String (Value φ)}

/-- When `f` is called, `n` functions come back in a row, each from the one before. Then comes
`outcome`: a value that is no function, or a failure. -/
inductive Returns (host : Host φ) (context root : Value φ) :
    List (Call φ) → φ → Nat → Except String (Value φ) → Prop where
  | last {calls : List (Call φ)} {f : φ} {outcome : Except String (Value φ)}
      (call : host.call calls f context root = outcome) (ends : ∀ g, outcome ≠ .ok (.function g)) :
      Returns host context root calls f 0 outcome
  | next {calls : List (Call φ)} {f g : φ} {n : Nat} {outcome : Except String (Value φ)}
      (call : host.call calls f context root = .ok (.function g))
      (rest : Returns host context root (⟨f, context, root⟩ :: calls) g n outcome) :
      Returns host context root calls f (n + 1) outcome

/-- There is one row at most. -/
theorem Returns.unique (h : host.Returns context root calls f n outcome)
    (h' : host.Returns context root calls f m outcome') : n = m ∧ outcome = outcome' := by
  induction h generalizing m outcome' with
  | last call ends =>
    cases h' with
    | last call' => exact ⟨rfl, call.symm.trans call'⟩
    | next call' => exact absurd (call.symm.trans call') (ends _)
  | next call rest ih =>
    cases h' with
    | last call' ends' => exact absurd (call'.symm.trans call) (ends' _)
    | next call' rest' =>
      cases call.symm.trans call'
      obtain ⟨rfl, rfl⟩ := ih rest'
      exact ⟨rfl, rfl⟩

/-- A row is followed to its end when there is fuel for one call more. -/
theorem follow_of_returns (h : host.Returns context root calls f n outcome) (hn : n < fuel) :
    (host.follow context root fuel (.function f) calls).1 = outcome.mapError .raised := by
  induction h generalizing fuel with
  | @last calls f outcome call ends =>
    obtain ⟨fuel, rfl⟩ := Nat.exists_eq_succ_of_ne_zero (Nat.ne_of_gt hn)
    rw [follow, call]
    cases outcome with
    | error message => rfl
    | ok v =>
      cases v with
      | function g => exact absurd rfl (ends g)
      | _ => cases fuel <;> rfl
  | next call rest ih =>
    obtain ⟨fuel, rfl⟩ := Nat.exists_eq_succ_of_ne_zero (Nat.ne_of_gt (Nat.zero_lt_of_lt hn))
    rw [follow, call]
    exact ih (Nat.lt_of_succ_lt_succ hn)

/-- A row that is not over when the fuel is goes too deep. -/
theorem follow_tooDeep (h : ∀ n < fuel, ∀ outcome, ¬ host.Returns context root calls f n outcome) :
    (host.follow context root fuel (.function f) calls).1 = .error .tooDeep := by
  induction fuel generalizing f calls with
  | zero => rfl
  | succ fuel ih =>
    have hfunction : ∃ g, host.call calls f context root = .ok (.function g) :=
      Classical.byContradiction fun hnone =>
        h 0 (Nat.zero_lt_succ fuel) _ (.last rfl fun g hg => hnone ⟨g, hg⟩)
    obtain ⟨g, hg⟩ := hfunction
    rw [follow, hg]
    exact ih fun n hn outcome hrest => h (n + 1) (Nat.succ_lt_succ hn) outcome (.next hg hrest)

/-- The calls that are made, all with the same context and the same whole data. -/
theorem calls_follow (host : Host φ) (context root : Value φ) (fuel : Nat) (v : Value φ)
    (calls : List (Call φ)) :
    ∃ made, (host.follow context root fuel v calls).2 = made ++ calls ∧ made.length ≤ fuel ∧
      ∀ call ∈ made, call.context = context ∧ call.root = root := by
  have hnone : ∃ made, calls = made ++ calls ∧ made.length ≤ fuel ∧
      ∀ call ∈ made, call.context = context ∧ call.root = root := ⟨[], rfl, Nat.zero_le _, by simp⟩
  induction fuel generalizing v calls with
  | zero => cases v <;> exact hnone
  | succ fuel ih =>
    cases v with
    | function f =>
      rw [follow]
      cases host.call calls f context root with
      | error message => exact ⟨[⟨f, context, root⟩], rfl, by simp, by simp⟩
      | ok w =>
        obtain ⟨made, heq, hlength, hmade⟩ :=
          ih w (⟨f, context, root⟩ :: calls) ⟨[], rfl, Nat.zero_le _, by simp⟩
        refine ⟨made ++ [⟨f, context, root⟩], by simp [heq], by simpa using hlength, ?_⟩
        intro call hc
        rcases List.mem_append.1 hc with hc | hc
        · exact hmade call hc
        · cases List.mem_singleton.1 hc
          exact ⟨rfl, rfl⟩
    | _ => exact hnone

end Rows

section Evaluate

variable {host : Host φ} {policy : FailurePolicy} {f : φ} {context root : Value φ}
  {calls : List (Call φ)} {n : Nat} {outcome : Except String (Value φ)}

theorem calls_evaluate (host : Host φ) (policy : FailurePolicy) (f : φ) (context root : Value φ)
    (calls : List (Call φ)) :
    ∃ made, (host.evaluate policy f context root calls).2 = made ++ calls ∧ made.length ≤ 100 ∧
      ∀ call ∈ made, call.context = context ∧ call.root = root := by
  have hcalls := host.calls_follow context root (maxReturned + 1) (.function f) calls
  rw [evaluate]
  split <;> (rename_i hfollow; rwa [hfollow] at hcalls)

theorem fst_evaluate : (host.evaluate policy f context root calls).1 =
    match (host.follow context root (maxReturned + 1) (.function f) calls).1 with
    | .ok v => .ok v
    | .error fault => policy.settle fault := by
  rw [evaluate]
  split <;> (rename_i hfollow; rw [hfollow])

/-- A row that is too long goes too deep, whatever would come at its end. -/
private theorem evaluate_tooDeep
    (h : ∀ n ≤ 99, ∀ outcome, ¬ host.Returns context root calls f n outcome) :
    (host.evaluate policy f context root calls).1 = policy.settle .tooDeep := by
  have hrow : ∀ n < maxReturned + 1, ∀ outcome, ¬ host.Returns context root calls f n outcome :=
    fun n hn => h n (Nat.le_of_lt_succ hn)
  rw [fst_evaluate, follow_tooDeep hrow]

private theorem evaluate_of_returns (h : host.Returns context root calls f n outcome) :
    (host.evaluate policy f context root calls).1 =
      if n ≤ 99 then
        match outcome with
        | .ok v => .ok v
        | .error message => policy.settle (.raised message)
      else policy.settle .tooDeep := by
  split
  · rename_i hn
    have hfuel : n < maxReturned + 1 := Nat.lt_succ_of_le hn
    rw [fst_evaluate, follow_of_returns h hfuel]
    cases outcome <;> rfl
  · rename_i hn
    exact evaluate_tooDeep fun m hm outcome h' => hn ((h.unique h').1 ▸ hm)

private theorem evaluate_of_lenient (h : policy.propagate = false) :
    ∃ v, (host.evaluate policy f context root calls).1 = .ok v := by
  rw [evaluate]
  split
  · exact ⟨_, rfl⟩
  · exact ⟨.string "", by simp [FailurePolicy.settle, h]⟩

end Evaluate

end Host

theorem Content.not_function_of_ofValue {v w : Value φ} (h : Content.ofValue v = .ready w) :
    w.isFunction = false := by
  cases v <;> cases h <;> rfl

namespace ScopeTree

variable {t t' : ScopeTree φ} {id : ScopeId}

/-- What can be read at a scope is no function. -/
def Evaluated (t : ScopeTree φ) : Prop :=
  ∀ id < t.scopes.size, ∀ v, (t.scope id).content = .ready v → v.isFunction = false

theorem Evaluated.data (h : t.Evaluated) (hid : id < t.scopes.size) :
    (t.data id).isFunction = false := by
  rw [ScopeTree.data]
  cases hc : (t.scope id).content with
  | pending f => rfl
  | ready v => exact h id hid v hc

theorem Grows.evaluated {v : Value φ} {path : String} {parent : Option ScopeId} {top : ScopeId}
    {cache : Nat} (hg : t.Grows t' id (fresh v path parent top cache)) (h : t.Evaluated) :
    t'.Evaluated := by
  intro i hi w hw
  rcases hg.older hi with hi | rfl
  · refine h i hi w ?_
    by_cases hne : i = id
    · subst hne
      obtain ⟨_, _, hself⟩ := hg.self
      rwa [hself] at hw
    · rwa [hg.others i hi hne] at hw
  · rw [hg.made] at hw
    exact Content.not_function_of_ofValue hw

theorem Settles.evaluated {v : Value φ} (hs : t.Settles t' id v) (h : t.Evaluated)
    (hv : v.isFunction = false) : t'.Evaluated := by
  intro i hi w hw
  by_cases hne : i = id
  · subst hne
    rw [hs.self] at hw
    cases hw
    exact hv
  · rw [hs.size] at hi
    exact h i hi w (by rw [← hs.others i hne, hw])

theorem evaluated_new (data : Value φ) : (new data).Evaluated := by
  intro i hi w hw
  obtain rfl : i = ScopeTree.root := Nat.lt_one_iff.1 hi
  have hscope : (new data).scope ScopeTree.root = fresh data "" none ScopeTree.root 0 :=
    scope_insert_self empty data "" none none 0
  rw [hscope] at hw
  exact Content.not_function_of_ofValue hw

theorem evaluated_newAt (data : Value φ) (path : String) (v : Value φ) :
    (newAt data path v).2.Evaluated := by
  by_cases hpath : path = ""
  · rw [hpath, newAt_root]
    exact evaluated_new v
  · exact (newAt_grows data v hpath).2.2.1.evaluated (evaluated_new data)

end ScopeTree

private theorem upheld_evaluated :
    Upheld fun t : ScopeTree φ => t.WellFormed ∧ t.Evaluated where
  wellFormed h := h.1
  settles h hid hf hv hs := ⟨hs.wellFormed h.1 hid hf, hs.evaluated h.2 hv⟩
  field h hid _ _ ha := ⟨ha.wellFormed h.1 hid, ha.grows.evaluated h.2⟩
  item h hid _ ha := ⟨ha.wellFormed h.1 hid (by simp [OverlayKey.item]), ha.grows.evaluated h.2⟩

theorem Reachable.evaluated {host : Host φ} {values : Value φ → Prop} {requests : Request φ → Prop}
    {s : Session φ} (h : Reachable host values requests s) :
    s.tree.WellFormed ∧ s.tree.Evaluated :=
  h.upheld upheld_evaluated
    (fun data => ⟨ScopeTree.wellFormed_new data, ScopeTree.evaluated_new data⟩)
    (fun data path v =>
      ⟨ScopeTree.wellFormed_newAt data path v, ScopeTree.evaluated_newAt data path v⟩)
    fun hJ hid hchain ha => ⟨ha.wellFormed hJ.1 hid hchain, ha.grows.evaluated hJ.2⟩

namespace Run

variable {J : ScopeTree φ → Prop} {s : Session φ} {id : ScopeId}

private theorem leads_value_evaluated {host : Host φ} {policy : FailurePolicy}
    (hs : s.tree.WellFormed ∧ s.tree.Evaluated) (hid : id < s.tree.scopes.size) :
    Leads (fun s => s.tree.WellFormed ∧ s.tree.Evaluated) s (value host policy id) fun v _ =>
      v.isFunction = false :=
  (leads_value upheld_evaluated hs hid).weaken fun v _ he hs' hv => by
    rw [← hv.2]
    exact hs'.2.data (he.lt hid)

/-- A binding is resolved to the data of a scope, as it is, written in a format, or passed through
functions; none of these gives a function. -/
private theorem leads_resolve_evaluated {env : Env φ} {scope : ScopeId} {overlays : List ScopeId}
    (hs : s.tree.WellFormed ∧ s.tree.Evaluated) (hscope : scope < s.tree.scopes.size)
    (hover : ∀ o ∈ overlays, o < s.tree.scopes.size) (b : Binding) :
    Leads (fun s => s.tree.WellFormed ∧ s.tree.Evaluated) s (resolve env b scope overlays)
      fun r _ => ∀ x ∈ r, ∀ v ∈ x.value, v.isFunction = false := by
  have hJ := upheld_evaluated (φ := φ)
  refine (leads_findScope hJ hs hscope hover b.key).bind fun found s₁ he₁ hs₁ hfound => ?_
  cases found with
  | none => exact .pure hs₁ fun _ hx => by cases hx
  | some id =>
    have hid := hfound id rfl
    dsimp only
    split
    · refine (leads_value_evaluated hs₁ hid).bind fun v s₂ _ hs₂ hv => .pure hs₂ ?_
      rintro _ ⟨⟩ _ ⟨⟩
      exact hv
    · refine (leads_findChain hJ hs₁ (he₁.lt hscope) (fun o ho => he₁.lt (hover o ho)) b.links).bind
        fun chain s₂ he₂ hs₂ _ => ?_
      split
      · refine .pure hs₂ ?_
        rintro _ ⟨⟩ _ ⟨⟩
      · refine (leads_value_evaluated hs₂ (he₂.lt hid)).bind fun v s₃ _ hs₃ hv => ?_
        have hformatted : (if b.format.isSome || b.escape then
            .string (formatValue env.numbers b.format b.escape v) else v : Value φ).isFunction
              = false := by
          split
          · rfl
          · exact hv
        refine (leads_passThrough (fun _ => hs₃) _ _ _).bind
          fun w s₄ _ hs₄ ⟨_, hw, _⟩ => .pure hs₄ ?_
        rintro _ ⟨⟩ _ ⟨⟩
        exact hw (.inr hformatted)

end Run

/-- **Evaluation is bounded and comes to data.** A hundred calls are made at most, so ninety-nine
functions may come back in a row. A failing call, one function more, or a row without an end is up
to the policy. And whatever was asked of a tree before, neither the value of a scope nor that of a
resolved binding is a function. -/
theorem Reachable.evaluation_bounded {env : Env φ} {s : Session φ}
    (h : Reachable env.host (fun _ => True) (fun _ => True) s) :
    (∀ policy f context root calls,
      (∃ made, (env.host.evaluate policy f context root calls).2 = made ++ calls ∧
        made.length ≤ 100 ∧ ∀ call ∈ made, call.context = context ∧ call.root = root) ∧
      (∀ n outcome, env.host.Returns context root calls f n outcome →
        (env.host.evaluate policy f context root calls).1 =
          if n ≤ 99 then
            match outcome with
            | .ok v => .ok v
            | .error message => policy.settle (.raised message)
          else policy.settle .tooDeep) ∧
      ((∀ n outcome, ¬ env.host.Returns context root calls f n outcome) →
        (env.host.evaluate policy f context root calls).1 = policy.settle .tooDeep) ∧
      (policy.propagate = false → ∃ v, (env.host.evaluate policy f context root calls).1 = .ok v) ∧
      ∀ v, (env.host.evaluate policy f context root calls).1 = .ok v → v.isFunction = false) ∧
    (∀ policy, ∀ id < s.tree.scopes.size, ∀ v s', Run.value env.host policy id s = .ok v s' →
      v.isFunction = false) ∧
    ∀ b, ∀ scope < s.tree.scopes.size, ∀ overlays : List ScopeId,
      (∀ o ∈ overlays, o < s.tree.scopes.size) →
      ∀ r s', Run.resolve env b scope overlays s = .ok (some r) s' →
        ∀ v ∈ r.value, v.isFunction = false := by
  have hs := h.evaluated
  refine ⟨fun policy f context root calls => ⟨?_, ?_, ?_, ?_, ?_⟩, ?_, ?_⟩
  · exact env.host.calls_evaluate policy f context root calls
  · exact fun n outcome hreturns => Host.evaluate_of_returns hreturns
  · exact fun hnone => Host.evaluate_tooDeep fun n _ => hnone n
  · exact Host.evaluate_of_lenient
  · exact fun v hv => Host.evaluate_not_function (Prod.ext hv rfl)
  · intro policy id hid v s' hrun
    exact ((Run.leads_value_evaluated hs hid).of_ok hrun).2.2
  · intro b scope hscope overlays hover r s' hrun
    exact ((Run.leads_resolve_evaluated hs hscope hover b).of_ok hrun).2.2 r rfl

namespace Countdown

/-- A function for each number: the one for zero gives the text, every other one the function below
it. -/
def host : Host Nat where
  call _ n _ _ :=
    match n with
    | 0 => .ok (.string "liftoff")
    | n + 1 => .ok (.function n)

theorem returns (context root : Value Nat) (calls : List (Call Nat)) (n : Nat) :
    host.Returns context root calls n n (.ok (.string "liftoff")) := by
  induction n generalizing calls with
  | zero => exact .last rfl (by simp)
  | succ n ih => exact .next rfl (ih _)

def env : Env Nat := ⟨host, .default, Number.specFormatter, []⟩

def policy : FailurePolicy := ⟨"\x7b\x7bcount\x7d\x7d", true⟩

/-- The whole data is the function for ninety-nine. -/
def start : Session Nat := ⟨.new (.function 99), []⟩

end Countdown

open Countdown in
/-- From ninety-nine the text is reached, from a hundred it is not. -/
theorem Reachable.evaluation_bounded_countdown :
    (host.evaluate policy 99 .null .null []).1 = .ok (.string "liftoff") ∧
      (host.evaluate policy 100 .null .null []).1 = policy.settle .tooDeep ∧
      ∃ v s', Run.value host policy ScopeTree.root start = .ok v s' ∧ v.isFunction = false := by
  have hstart : Reachable env.host (fun _ => True) (fun _ => True) start := .new [] trivial
  have hall := hstart.evaluation_bounded
  have hlong := (hall.1 policy 99 .null .null []).2.1 99 _ (returns _ _ _ 99)
  have hlonger := (hall.1 policy 100 .null .null []).2.1 100 _ (returns _ _ _ 100)
  refine ⟨hlong.trans (if_pos (Nat.le_refl 99)), hlonger.trans (if_neg (by decide)), ?_⟩
  have hends : (match Run.value host policy ScopeTree.root start with
      | .ok _ _ => true
      | .error _ _ => false) = true := by decide +kernel
  cases hrun : Run.value host policy ScopeTree.root start with
  | error e s' => simp [hrun] at hends
  | ok v s' => exact ⟨v, s', rfl, hall.2.1 policy ScopeTree.root Nat.zero_lt_one v s' hrun⟩

end TextTemplate
