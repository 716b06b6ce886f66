import TextTemplate.Value

/-!
The tree of scopes over bound data. A scope stands at a dotted path and is made when it is first
asked for. Scopes are numbered in the order of their making and refer to each other by number.
Paths already resolved are kept in caches: all plain scopes share one, while an overlay, which puts
a loop item or a function's result in the place of another scope, has a cache of its own.
-/
namespace TextTemplate
variable {φ : Type}

abbrev ScopeId := Nat

/-- Tells the overlays of one scope apart: an item by its index, a function's result by the scopes
of the functions it came through. -/
structure OverlayKey where
  index : Nat
  chain : List ScopeId
  deriving DecidableEq, Repr

def OverlayKey.item (index : Nat) : OverlayKey := ⟨index, []⟩

def OverlayKey.result (chain : List ScopeId) : OverlayKey := ⟨0, chain⟩

inductive Content (φ : Type) where
  /-- A function nobody has called for its value yet. -/
  | pending (f : φ)
  | ready (v : Value φ)

/-- The content of a scope made over `v`. -/
def Content.ofValue : Value φ → Content φ
  | .function f => .pending f
  | v => .ready v

/-- What can be read without calling anything. -/
def Content.data : Content φ → Value φ
  | .pending _ => .null
  | .ready v => v

structure Scope (φ : Type) where
  path : String
  content : Content φ
  /-- The function bound here, kept after it has been called for its value. -/
  function : Option φ
  parent : Option ScopeId
  root : ScopeId
  cache : Nat
  /-- Scopes of the fields asked for so far. -/
  fields : List (String × ScopeId)
  overlays : List (OverlayKey × ScopeId)

instance : Inhabited (Scope φ) := ⟨⟨"", .ready .null, none, none, 0, 0, [], []⟩⟩

/-- What paths below `path` start with. -/
def pathStem (path : String) : String := if path.isEmpty then "" else path ++ "."

/-- How many segments the stem of `path` has. -/
def pathDepth (path : String) : Nat := (pathStem path).toList.count '.'

/-- Whether `key` lies at `path` or below it. -/
def pathCovers (path key : String) : Bool :=
  key = path || (pathStem path).toList.isPrefixOf key.toList

structure ScopeTree (φ : Type) where
  scopes : Array (Scope φ)
  caches : Array (List (String × ScopeId))

namespace ScopeTree

/-- The scope over the whole data. -/
def root : ScopeId := 0

def scope (tree : ScopeTree φ) (id : ScopeId) : Scope φ := tree.scopes.getD id default

def path (tree : ScopeTree φ) (id : ScopeId) : String := (tree.scope id).path

def parent? (tree : ScopeTree φ) (id : ScopeId) : Option ScopeId := (tree.scope id).parent

def function? (tree : ScopeTree φ) (id : ScopeId) : Option φ := (tree.scope id).function

/-- The data of a scope; a function not yet called for its value reads as null. -/
def data (tree : ScopeTree φ) (id : ScopeId) : Value φ := (tree.scope id).content.data

/-- Whether the scope holds a sequence. -/
def isRepeating (tree : ScopeTree φ) (id : ScopeId) : Bool := (tree.data id).isArray

/-- How many items the scope has. -/
def size (tree : ScopeTree φ) (id : ScopeId) : Nat := (tree.data id).size

/-- Whether an absolute key lies at the scope or below it. -/
def covers (tree : ScopeTree φ) (id : ScopeId) (key : String) : Bool :=
  pathCovers (tree.path id) key

def cached? (tree : ScopeTree φ) (cache : Nat) (path : String) : Option ScopeId :=
  (tree.caches.getD cache []).lookup path

/-- The scope found earlier for a path, from where `id` stands. -/
def known? (tree : ScopeTree φ) (id : ScopeId) (path : String) : Option ScopeId :=
  tree.cached? (tree.scope id).cache path

def remember (tree : ScopeTree φ) (cache : Nat) (path : String) (id : ScopeId) : ScopeTree φ :=
  { tree with caches := tree.caches.modify cache ((path, id) :: ·) }

def update (tree : ScopeTree φ) (id : ScopeId) (f : Scope φ → Scope φ) : ScopeTree φ :=
  { tree with scopes := tree.scopes.modify id f }

/-- Makes a scope; one without a given root is its own root. -/
def insert (tree : ScopeTree φ) (v : Value φ) (path : String) (parent root : Option ScopeId)
    (cache : Nat) : ScopeId × ScopeTree φ :=
  let id := tree.scopes.size
  let made : Scope φ := {
    path
    content := .ofValue v
    function := match v with
      | .function f => some f
      | _ => none
    parent
    root := root.getD id
    cache
    fields := []
    overlays := [] }
  (id, { tree with scopes := tree.scopes.push made })

/-- Adds an empty cache. -/
def addCache (tree : ScopeTree φ) : Nat × ScopeTree φ :=
  (tree.caches.size, { tree with caches := tree.caches.push [] })

def empty : ScopeTree φ := ⟨#[], #[[]]⟩

/-- The tree with the one scope over the whole data. -/
def new (data : Value φ) : ScopeTree φ := (empty.insert data "" none none 0).2

/-- A tree over `data` and an extra scope of it at `path` holding `v`, with a cache of its own, so
that absolute keys outside `path` still reach the data. At the empty path `v` takes the place of the
data. -/
def newAt (data : Value φ) (path : String) (v : Value φ) : ScopeId × ScopeTree φ :=
  if path.isEmpty then (root, new v)
  else
    let (cache, tree) := (new data).addCache
    tree.insert v path (some root) (some root) cache

/-- What a function bound at the scope is called with: the data around it, and the whole data. -/
def surroundings (tree : ScopeTree φ) (id : ScopeId) : Value φ × Value φ :=
  let s := tree.scope id
  ((s.parent.map tree.data).getD .null, if s.root = id then .null else tree.data s.root)

/-- Freezes the value of the function bound at a scope. A scope that does not repeat can now be
found by its path. -/
def settle (tree : ScopeTree φ) (id : ScopeId) (v : Value φ) : ScopeTree φ :=
  let s := tree.scope id
  let tree := if v.isArray then tree else tree.remember s.cache s.path id
  tree.update id fun s => { s with content := .ready v }

/-- Both names of a scope seen from itself. -/
def isSelfKey (key : String) : Bool := key.isEmpty || key = "."

/-- The scope of a field of a scope that holds data. A sequence has no fields, but the cache is
looked at first unless `skipCache` is set. -/
def field (tree : ScopeTree φ) (id : ScopeId) (key : String) (skipCache : Bool) :
    Option ScopeId × ScopeTree φ :=
  let s := tree.scope id
  let path := if isSelfKey key then s.path else pathStem s.path ++ key
  match if skipCache then none else tree.known? id path with
  | some hit => (some hit, tree)
  | none =>
    if tree.isRepeating id then (none, tree)
    else if isSelfKey key then (some id, tree)
    else match s.fields.lookup key with
      | some child => (some child, tree)
      | none =>
        match (tree.data id).get? key with
        | none => (none, tree)
        | some v =>
          let (child, tree) := tree.insert v path (some id) (some s.root) s.cache
          let tree := tree.update id fun s => { s with fields := (key, child) :: s.fields }
          (some child, tree.remember s.cache path child)

/-- The overlay of a scope under `key`; an overlay already there is kept, whatever it holds. -/
def overlay (tree : ScopeTree φ) (id : ScopeId) (key : OverlayKey) (v : Value φ) :
    ScopeId × ScopeTree φ :=
  let s := tree.scope id
  match s.overlays.lookup key with
  | some there => (there, tree)
  | none =>
    let (cache, tree) := tree.addCache
    let (made, tree) := tree.insert v s.path s.parent (s.parent.map fun _ => s.root) cache
    (made, tree.update id fun s => { s with overlays := (key, made) :: s.overlays })

/-- Where the search for a path goes on once no further scope above has to be looked at. -/
inductive Landing where
  | found (id : ScopeId)
  | descend (id : ScopeId) (segments : List String)
  deriving DecidableEq, Repr

/-- Climbs from a scope to the nearest one whose path covers `target`, or to the top. Caches are
looked at where the search starts and right after leaving a sequence. Parents are older than their
children, so every step up has a smaller number. -/
def climb (tree : ScopeTree φ) (target : String) (segments : List String) (id : ScopeId)
    (useCache : Bool) : Landing :=
  match if useCache then tree.known? id target else none with
  | some hit => .found hit
  | none =>
    if segments.isEmpty || tree.path id = target then .found id
    else match tree.parent? id with
      | none => .descend id segments
      | some above =>
        if tree.covers id target then
          let below := segments.drop (pathDepth (tree.path id))
          if below.isEmpty then .found id else .descend id below
        else if above < id then climb tree target segments above (tree.isRepeating id)
        else .descend id segments
termination_by id

end ScopeTree

end TextTemplate
