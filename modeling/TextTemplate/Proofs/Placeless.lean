import TextTemplate.Proofs.Steady

/-!
Nodes that can be read from anywhere. Their sections are over absolute keys, and a key in context is
only read inside of a section that shows what it is over. Both passes make the same of them as the
second alone.
-/
namespace TextTemplate
variable {φ : Type}

namespace Node

mutual

/-- Whether the node can be read from anywhere. `inside` says that it stands in a section that shows
what it is over. -/
def placeless (inside : Bool) : Node → Bool
  | text _ => true
  | tag t => inside || !t.key.inContext
  | inclusion i => inside || !i.key.inContext
  | block head body => !head.key.inContext && allPlaceless head.inclusive body

def allPlaceless (inside : Bool) : List Node → Bool
  | [] => true
  | node :: nodes => placeless inside node && allPlaceless inside nodes

end

mutual

/-- Nodes that can be read from anywhere do not look into the scope around them. -/
theorem closed_of_placeless : (node : Node) → node.placeless false = true → node.closed = true
  | text _, _ => rfl
  | tag _, h => by simpa [placeless, closed] using h
  | inclusion _, h => by simpa [placeless, closed] using h
  | block head body, h => by
    simp only [placeless, Bool.and_eq_true] at h
    simp only [closed, Bool.and_eq_true, Bool.or_eq_true]
    refine ⟨h.1, ?_⟩
    cases hi : head.inclusive with
    | true => exact .inl rfl
    | false => exact .inr (allClosed_of_allPlaceless body (hi ▸ h.2))

theorem allClosed_of_allPlaceless : (nodes : List Node) → allPlaceless false nodes = true →
    allClosed nodes = true
  | [], _ => rfl
  | node :: nodes, h => by
    simp only [allPlaceless, Bool.and_eq_true] at h
    simp only [allClosed, closed_of_placeless node h.1, allClosed_of_allPlaceless nodes h.2,
      Bool.and_self]

end

mutual

/-- Nodes with absolute keys can be read from anywhere. -/
theorem placeless_of_absolute : (node : Node) → ∀ inside, Plain node → AllAbsolute [node] →
    node.placeless inside = true
  | text _, _, _, _ => rfl
  | tag _, inside, _, h => by simp [placeless, show _ = false from h.1]
  | inclusion _, _, hn, _ => hn.elim
  | block head body, _, hn, h => by
    simp [placeless, h.1.1, allPlaceless_of_absolute body head.inclusive hn.2 h.1.2]

theorem allPlaceless_of_absolute : (nodes : List Node) → ∀ inside, AllPlain nodes →
    AllAbsolute nodes → allPlaceless inside nodes = true
  | [], _, _, _ => rfl
  | node :: nodes, inside, hn, h => by
    simp only [allPlaceless, placeless_of_absolute node inside hn.1 ⟨h.1, trivial⟩,
      allPlaceless_of_absolute nodes inside hn.2 h.2, Bool.and_self]

end

end Node

namespace Treeless

variable {env : Env φ} {data : Value φ}

mutual

/-- The first pass changes nothing but the time at which such nodes are rendered. -/
theorem steady_placeless : (node : Node) → ∀ {place far : Place φ} (inScope inside : Bool)
    {overlays : List (Place φ)}, Node.Plain node → node.placeless inside = true →
    Stance env data place [] → Stance env data far overlays →
    Steady env place inScope far overlays node
  | .text _, _, _, _, _, _, _, _, _, _ => by rw [Steady]; trivial
  | .tag _, _, _, _, _, _, _, _, _, _ => by rw [Steady]; trivial
  | .inclusion _, _, _, _, _, _, hn, _, _, _ => hn.elim
  | .block head body, place, far, inScope, inside, overlays, hn, hu, hp, hfar => by
    simp only [Node.placeless, Bool.and_eq_true, Bool.not_eq_true'] at hu
    obtain ⟨hc, hbody⟩ := hu
    have hsettled : head.inclusive = true ∨ Node.allClosed body = true := by
      cases hi : head.inclusive with
      | true => exact .inl rfl
      | false => exact .inr (Node.allClosed_of_allPlaceless body (hi ▸ hbody))
    rw [Steady]
    simp only [hc, Bool.false_and, Bool.false_eq_true, if_false, Bool.not_false, Bool.true_and,
      findPlace_nil]
    split
    · exact .inr (.inr hsettled)
    · rename_i hcov
      have hcov : Place.covered overlays head.key.text = false := Bool.eq_false_iff.2 hcov
      have hagain : place.search env.host (env.policy head.raw) head.key =
          findPlace env.host (env.policy head.raw) far overlays head.key := by
        rw [← findPlace_nil]
        exact Place.Footing.findPlace_bare hp.footing.place hn.1.key hc hfar.footing.place hcov
      have hkey : head.key.anchored place.path = head.key := by simp [Key.anchored, hc]
      cases hf : place.search env.host (env.policy head.raw) head.key with
      | error e => trivial
      | ok r =>
        cases r with
        | none => exact .inr (.inr hsettled)
        | some q =>
          rw [hf] at hagain
          have hq : Stance env data q [] := hp.found hn.1.key (by rw [findPlace_nil]; exact hf)
          have hqfar : Stance env data q overlays := hfar.found hn.1.key hagain.symm
          dsimp only
          split
          · split
            · refine fun _ => ⟨by rw [hkey, hagain], fun i _ _ => ?_⟩
              exact allSteady_placeless body false head.inclusive hn.2 hbody hp (hqfar.item i)
            · exact fun _ => allSteady_placeless body inScope head.inclusive hn.2 hbody hp hfar
          · exact fun _ => allSteady_placeless body true head.inclusive hn.2 hbody hq hfar

theorem allSteady_placeless : (nodes : List Node) → ∀ {place far : Place φ} (inScope inside : Bool)
    {overlays : List (Place φ)}, Node.AllPlain nodes → Node.allPlaceless inside nodes = true →
    Stance env data place [] → Stance env data far overlays →
    AllSteady env place inScope far overlays nodes
  | [], _, _, _, _, _, _, _, _, _ => by rw [AllSteady]; trivial
  | node :: nodes, _, _, inScope, inside, _, hn, hu, hp, hfar => by
    simp only [Node.allPlaceless, Bool.and_eq_true] at hu
    rw [AllSteady]
    exact ⟨steady_placeless node inScope inside hn.1 hu.1 hp hfar,
      allSteady_placeless nodes inScope inside hn.2 hu.2 hp hfar⟩

end

end Treeless

end TextTemplate
