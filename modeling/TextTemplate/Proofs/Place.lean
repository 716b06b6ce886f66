import TextTemplate.Scope.Tree
import TextTemplate.Tag
import TextTemplate.Call

/-!
Places: scopes without a tree. A place is a value at a path together with what is bound above it, so
nothing about it has to be remembered. Reading a place calls the function bound there anew, and
searching it walks down the data itself.
-/
namespace TextTemplate
variable {φ : Type}

/-- What a call comes to when no calls were made before it. -/
def Host.outcome (host : Host φ) (policy : FailurePolicy) (f : φ) (context root : Value φ) :
    Except TemplateError (Value φ) :=
  (host.evaluate policy f context root []).1

/-- A value bound at a path. -/
structure Spot (φ : Type) where
  path : String
  bound : Value φ

/-- A spot and the spots above it, nearest first. -/
structure Place (φ : Type) where
  spot : Spot φ
  above : List (Spot φ)

namespace Place

/-- The place of the whole data. -/
def top (data : Value φ) : Place φ := ⟨⟨"", data⟩, []⟩

def path (p : Place φ) : String := p.spot.path

def bound (p : Place φ) : Value φ := p.spot.bound

def function? (p : Place φ) : Option φ :=
  match p.bound with
  | .function f => some f
  | _ => none

/-- The value of a spot that nothing is above. -/
def readAlone (host : Host φ) (policy : FailurePolicy) : Value φ → Except TemplateError (Value φ)
  | .function f => host.outcome policy f .null .null
  | v => .ok v

/-- The value of a spot. A function is called with the value next above it and the topmost one. -/
def readUnder (host : Host φ) (policy : FailurePolicy) :
    List (Spot φ) → Value φ → Except TemplateError (Value φ)
  | [], v => readAlone host policy v
  | a :: rest, .function f => do
    let context ← readUnder host policy rest a.bound
    let root ← readAlone host policy (rest.getLast?.getD a).bound
    host.outcome policy f context root
  | _ :: _, v => .ok v

def read (host : Host φ) (policy : FailurePolicy) (p : Place φ) : Except TemplateError (Value φ) :=
  readUnder host policy p.above p.bound

def child (p : Place φ) (name : String) (v : Value φ) : Place φ :=
  ⟨⟨pathStem p.path ++ name, v⟩, p.spot :: p.above⟩

/-- Another value in the same place. -/
def overlay (p : Place φ) (v : Value φ) : Place φ := ⟨⟨p.path, v⟩, p.above⟩

/-- One item of what is read at a place; what is no sequence is its own only item. -/
def item (p : Place φ) (v : Value φ) (index : Nat) : Place φ :=
  p.overlay <| match v with
    | .array items => items.getD index .null
    | v => v

/-- Goes down by the segments of a path, joining the fewest of them that name a field. What is left
over when an empty name stops the way is given back. -/
def walk (host : Host φ) (policy : FailurePolicy) :
    (joined : String) → (segments : List String) → Place φ →
      Except TemplateError (Option (Place φ × List String))
  | joined, [], p => .ok (if joined.isEmpty then some (p, []) else none)
  | joined, segment :: segments, p => do
    let v ← p.read host policy
    let name := joined ++ segment
    if v.isArray then walk host policy (name ++ ".") segments p
    else if ScopeTree.isSelfKey name then return some (p, segment :: segments)
    else match v.get? name with
      | some w => walk host policy "" segments (p.child name w)
      | none => walk host policy (name ++ ".") segments p

/-- The nearest spot, from here up, whose path covers a key; otherwise the topmost. -/
def nearestOf (key : String) : Spot φ → List (Spot φ) → Place φ
  | f, [] => ⟨f, []⟩
  | f, a :: rest => if pathCovers f.path key then ⟨f, a :: rest⟩ else nearestOf key a rest

def nearest (key : String) (p : Place φ) : Place φ := nearestOf key p.spot p.above

/-- The place a key names, seen from a place. -/
def search (host : Host φ) (policy : FailurePolicy) (p : Place φ) (key : Key) :
    Except TemplateError (Option (Place φ)) := do
  let found ←
    if key.inContext then walk host policy "" key.segments p
    else
      let q := p.nearest key.text
      walk host policy "" (key.segments.drop (pathDepth q.path)) q
  return found.map Prod.fst

end Place

end TextTemplate
