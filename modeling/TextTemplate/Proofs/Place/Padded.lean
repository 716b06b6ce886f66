import TextTemplate.Proofs.Items

/-!
Data with a null more. A record that lacks a field is given it, bound to null. What is looked up in
the two data is found in both or in neither, and is the same, but for the null itself. Only a key
that ends in its name leads to that.
-/
namespace TextTemplate
variable {φ : Type}

namespace Value

/-- One record in the value, at any depth, is given a field bound to null that it lacked. -/
inductive AddsNull (name : String) : Value φ → Value φ → Prop where
  | here {fields : List (String × Value φ)} (lacks : fields.lookup name = none) :
    AddsNull name (.record fields) (.record (setField name .null fields))
  | field {v v' : Value φ} (before : List (String × Value φ)) (key : String)
    (after : List (String × Value φ)) (h : AddsNull name v v') :
    AddsNull name (.record (before ++ (key, v) :: after)) (.record (before ++ (key, v') :: after))
  | item {v v' : Value φ} (before after : List (Value φ)) (h : AddsNull name v v') :
    AddsNull name (.array (before ++ v :: after)) (.array (before ++ v' :: after))

/-- The value itself, or with a null more. -/
def Padded (name : String) (v v' : Value φ) : Prop := v' = v ∨ AddsNull name v v'

mutual

/-- Whether no field of a record in the value has a dot in its name. -/
def namesDotless : Value φ → Bool
  | array items => itemsDotless items
  | record fields => fieldsDotless fields
  | _ => true

def itemsDotless : List (Value φ) → Bool
  | [] => true
  | v :: items => namesDotless v && itemsDotless items

def fieldsDotless : List (String × Value φ) → Bool
  | [] => true
  | (key, v) :: fields => !key.toList.contains '.' && namesDotless v && fieldsDotless fields

end

theorem plainItems_eq_map (items : List (Value φ)) : plainItems items = items.map plain := by
  induction items with
  | nil => rfl
  | cons v items ih => rw [plainItems, ih, List.map_cons]

private theorem itemsDotless_iff {items : List (Value φ)} :
    itemsDotless items = true ↔ ∀ v ∈ items, v.namesDotless = true := by
  induction items with
  | nil => simp [itemsDotless]
  | cons v items ih => simp [itemsDotless, ih]

private theorem fieldsDotless_iff {fields : List (String × Value φ)} :
    fieldsDotless fields = true ↔
      ∀ f ∈ fields, '.' ∉ f.1.toList ∧ f.2.namesDotless = true := by
  induction fields with
  | nil => simp [fieldsDotless]
  | cons f fields ih => simp [fieldsDotless, ih]

private theorem fieldsAreData_iff {fields : List (String × Value φ)} :
    fieldsAreData fields = true ↔ ∀ f ∈ fields, f.2.isData = true := by
  induction fields with
  | nil => simp [fieldsAreData]
  | cons f fields ih => simp [fieldsAreData, ih]

theorem dotless_get? {key : String} {v w : Value φ} (h : v.namesDotless = true)
    (hw : v.get? key = some w) : '.' ∉ key.toList ∧ w.namesDotless = true := by
  cases v with
  | record fields => exact fieldsDotless_iff.1 h _ (ScopeTree.mem_of_lookup hw)
  | _ => cases hw

theorem dotless_getD {items : List (Value φ)} (h : itemsDotless items = true) (i : Nat) :
    (items.getD i .null).namesDotless = true := by
  rw [List.getD_eq_getElem?_getD]
  cases hi : items[i]? with
  | none => rfl
  | some v => exact itemsDotless_iff.1 h v (List.mem_of_getElem? hi)

variable {name : String} {v v' : Value φ}

theorem AddsNull.isData (h : AddsNull name v v') (hv : v.isData = true) : v'.isData = true := by
  induction h with
  | here lacks => exact isData_setField rfl hv
  | field before key after h ih =>
    simp only [Value.isData, fieldsAreData_iff, List.forall_mem_append,
      List.forall_mem_cons] at hv ⊢
    exact ⟨hv.1, ih hv.2.1, hv.2.2⟩
  | item before after h ih =>
    simp only [Value.isData, itemsAreData_iff, List.forall_mem_append, List.forall_mem_cons] at hv ⊢
    exact ⟨hv.1, ih hv.2.1, hv.2.2⟩

/-- What is written of a value does not tell its fields. -/
theorem AddsNull.plain (h : AddsNull name v v') : v'.plain = v.plain := by
  induction h with
  | here => rfl
  | field => rfl
  | item before after h ih =>
    simp only [Value.plain, plainItems_eq_map, List.map_append, List.map_cons, ih]

end Value

/-- Two answers to one question: alike, or no answer and one that is `extra`. -/
inductive Answers {α : Type} (alike : α → α → Prop) (extra : α → Prop) :
    Option α → Option α → Prop where
  | neither : Answers alike extra none none
  | both {a b : α} (h : alike a b) : Answers alike extra (some a) (some b)
  | extra {b : α} (h : extra b) : Answers alike extra none (some b)

namespace Value.Padded

variable {name : String} {v v' : Value φ}

theorem isData (h : v.Padded name v') (hv : v.isData = true) : v'.isData = true := by
  rcases h with rfl | h
  · exact hv
  · exact h.isData hv

theorem isArray (h : v.Padded name v') : v'.isArray = v.isArray := by
  rcases h with rfl | h
  · rfl
  · cases h <;> rfl

theorem size (h : v.Padded name v') : v'.size = v.size := by
  rcases h with rfl | h
  · rfl
  · cases h <;> simp [Value.size]

/-- A field that is looked up. -/
theorem get? (h : v.Padded name v') (key : String) :
    Answers (Value.Padded name) (fun w => w = .null ∧ key = name) (v.get? key) (v'.get? key) := by
  have hsame : ∀ found : Option (Value φ),
      Answers (Value.Padded name) (fun w => w = .null ∧ key = name) found found := by
    rintro (_ | w)
    · exact .neither
    · exact .both (.inl rfl)
  rcases h with rfl | h
  · exact hsame _
  · cases h with
    | @here fields lacks =>
      simp only [Value.get?]
      by_cases hkey : key = name
      · rw [hkey, lacks, Value.lookup_setField_self]
        exact .extra ⟨rfl, rfl⟩
      · rw [Value.lookup_setField_of_ne hkey]
        exact hsame _
    | @field w w' before other after h =>
      simp only [Value.get?, List.lookup_append]
      cases before.lookup key with
      | some x => exact .both (.inl rfl)
      | none =>
        simp only [Option.none_or, List.lookup_cons]
        cases key == other with
        | true => exact .both (.inr h)
        | false => exact hsame _
    | item => exact .neither

/-- An item of a sequence. -/
theorem getD {items items' : List (Value φ)} (h : (array items).Padded name (array items'))
    (i : Nat) : (items.getD i .null).Padded name (items'.getD i .null) := by
  rcases h with h | h
  · cases h
    exact .inl rfl
  · cases h with
    | @item w w' before after h =>
      simp only [List.getD_eq_getElem?_getD, List.getElem?_append]
      split
      · exact .inl rfl
      · cases i - before.length with
        | zero => exact .inr h
        | succ j => exact .inl rfl

theorem isTruthy (h : v.Padded name v') (zeroIsTrue : Bool) :
    v'.isTruthy zeroIsTrue = v.isTruthy zeroIsTrue := by
  rcases h with rfl | h
  · rfl
  · cases h with
    | item before after h => cases before <;> rfl
    | _ => rfl

theorem plain (h : v.Padded name v') : v'.plain = v.plain := by
  rcases h with rfl | h
  · rfl
  · exact h.plain

theorem formatValue (h : v.Padded name v') (numbers : Number.Formatter) (format : Option String)
    (escape : Bool) :
    TextTemplate.formatValue numbers format escape v' =
      TextTemplate.formatValue numbers format escape v := by
  have hblank : v'.isBlank = v.isBlank := by
    rcases h with rfl | h
    · rfl
    · cases h <;> rfl
  rw [TextTemplate.formatValue, TextTemplate.formatValue, hblank, h.plain]

theorem itemText (h : v.Padded name v') (numbers : Number.Formatter) (format : Option String)
    (escape : Bool) :
    TextTemplate.itemText numbers format escape v' =
      TextTemplate.itemText numbers format escape v := by
  rw [TextTemplate.itemText, TextTemplate.itemText, h.isArray, h.formatValue, Value.bracketed,
    Value.bracketed, h.plain]

theorem valueText (h : v.Padded name v') (numbers : Number.Formatter) (asList : Bool)
    (format : Option String) (escape : Bool) :
    TextTemplate.valueText numbers asList format escape v' =
      TextTemplate.valueText numbers asList format escape v := by
  have hplain := h.plain
  rcases h with rfl | h
  · rfl
  · cases h with
    | here => rfl
    | field => rfl
    | item before after h =>
      simp only [TextTemplate.valueText, List.map_append, List.map_cons, Value.bracketed, hplain,
        itemText (.inr h)]

theorem tagText (env : Env φ) (tag : Tag) (h : v.Padded name v') :
    TextTemplate.tagText env tag v' = TextTemplate.tagText env tag v := by
  rw [TextTemplate.tagText, TextTemplate.tagText, h.valueText, h.valueText]

/-- A section shows both or neither, as long as the null is not what decides it. -/
theorem shows (env : Env φ) (hflag : name ≠ displayKey) (h : v.Padded name v')
    (inclusive : Bool) : Treeless.shows env inclusive v' = Treeless.shows env inclusive v := by
  have hholds : ((v'.get? displayKey).getD v').isTruthy env.settings.evalZeroAsTrue =
      ((v.get? displayKey).getD v).isTruthy env.settings.evalZeroAsTrue := by
    have := h.get? displayKey
    revert this
    cases v.get? displayKey with
    | none =>
      cases v'.get? displayKey with
      | none => exact fun _ => h.isTruthy _
      | some w => exact fun | .extra he => absurd he.2.symm hflag
    | some w =>
      cases v'.get? displayKey with
      | none => exact nofun
      | some w' => exact fun | .both hw => hw.isTruthy _
  rw [Treeless.shows, Treeless.shows, hholds]

end Value.Padded

/-- One spot over the two data. -/
structure Spot.Padded (name : String) (s s' : Spot φ) : Prop where
  path : s'.path = s.path
  bound : s.bound.Padded name s'.bound
  data : s.bound.isData = true
  dotless : s.bound.namesDotless = true
  gapless : ∀ segment ∈ splitPath s.path, segment ≠ ""

/-- One place over the two data. -/
structure Place.Padded (name : String) (p p' : Place φ) : Prop where
  spot : p.spot.Padded name p'.spot
  above : List.Forall₂ (Spot.Padded name) p.above p'.above

theorem Place.read_of_isData (host : Host φ) (policy : FailurePolicy) {p : Place φ}
    (h : p.bound.isData = true) : p.read host policy = .ok p.bound :=
  read_of_not_function (Value.isFunction_of_isData h)

namespace Place.Padded

variable {name : String} {host : Host φ} {policy : FailurePolicy} {p p' : Place φ}

theorem top {d d' : Value φ} (h : d.Padded name d') (hd : d.isData = true)
    (hdotless : d.namesDotless = true) : (top d).Padded name (top d') :=
  ⟨⟨rfl, h, hd, hdotless, by simp [Place.top]⟩, .nil⟩

theorem path (h : p.Padded name p') : p'.path = p.path := h.spot.path

theorem bound (h : p.Padded name p') : p.bound.Padded name p'.bound := h.spot.bound

theorem data (h : p.Padded name p') : p.bound.isData = true ∧ p'.bound.isData = true :=
  ⟨h.spot.data, h.spot.bound.isData h.spot.data⟩

theorem read (host : Host φ) (policy : FailurePolicy) (h : p.Padded name p') :
    p.read host policy = .ok p.bound ∧ p'.read host policy = .ok p'.bound :=
  ⟨read_of_isData host policy h.data.1, read_of_isData host policy h.data.2⟩

theorem child (h : p.Padded name p') {key : String} (hne : key ≠ "") (hdot : '.' ∉ key.toList)
    {w w' : Value φ} (hw : w.Padded name w') (hd : w.isData = true)
    (hdotless : w.namesDotless = true) : (p.child key w).Padded name (p'.child key w') := by
  refine ⟨⟨?_, hw, hd, hdotless, ?_⟩, .cons h.spot h.above⟩
  · simp only [Place.child, h.path]
  · simp only [Place.child, splitPath_stem _ hne, splitPath_of_dotless hne hdot,
      List.forall_mem_append, List.forall_mem_singleton]
    exact ⟨h.spot.gapless, hne⟩

theorem item (h : p.Padded name p') (i : Nat) :
    (p.item p.bound i).Padded name (p'.item p'.bound i) := by
  have hitem : ∀ {v v' : Value φ}, v.Padded name v' → v.isData = true → v.namesDotless = true →
      (p.item v i).Padded name (p'.item v' i) := by
    intro v v' hv hd hdotless
    cases v with
    | array items =>
      cases v' with
      | array items' =>
        exact ⟨⟨h.path, hv.getD i, Value.isData_getD hd i, Value.dotless_getD hdotless i,
          h.spot.gapless⟩, h.above⟩
      | _ => cases hv.isArray
    | _ =>
      cases v' with
      | array items' => cases hv.isArray
      | _ => exact ⟨⟨h.path, hv, hd, hdotless, h.spot.gapless⟩, h.above⟩
  exact hitem h.bound h.spot.data h.spot.dotless

theorem nearest (h : p.Padded name p') (key : String) :
    (p.nearest key).Padded name (p'.nearest key) := by
  obtain ⟨s, above⟩ := p
  obtain ⟨s', above'⟩ := p'
  obtain ⟨hs, habove⟩ := h
  change Spot.Padded name s s' at hs
  change List.Forall₂ _ above above' at habove
  induction habove generalizing s s' with
  | nil => exact ⟨hs, .nil⟩
  | @cons a a' rest rest' ha hrest ih =>
    have hpath : s'.path = s.path := hs.path
    simp only [Place.nearest, nearestOf, hpath] at ih ⊢
    split
    · exact ⟨hs, .cons ha hrest⟩
    · exact ih a a' ha

theorem start {os os' : List (Place φ)} (h : p.Padded name p')
    (ho : List.Forall₂ (Place.Padded name) os os') (key : Key) :
    (start p os key).Padded name (start p' os' key) := by
  rw [Place.start, Place.start]
  split
  · exact h
  · induction ho with
    | nil => exact h.nearest key.text
    | @cons o o' os os' hoo ho ih =>
      rw [List.find?_cons, List.find?_cons, hoo.path]
      cases pathCovers o.path key.text with
      | true => exact hoo
      | false => exact ih

end Place.Padded

namespace Place

variable {name : String} {host : Host φ} {policy : FailurePolicy} {p p' : Place φ}

/-- A walk finds nothing where no name it can join is that of a field. -/
theorem walk_fieldless (hd : p.bound.isData = true) {joined : String} {segments : List String}
    (hne : joined ≠ "" ∨ segments ≠ []) (hgaps : ∀ s ∈ segments, s ≠ "") (hdot : Dotless segments)
    (hnone : ∀ key : String, joined.toList <+: key.toList → p.bound.get? key = none) :
    p.walk host policy joined segments = .ok none := by
  have hread : p.read host policy = .ok p.bound := read_of_isData host policy hd
  induction segments generalizing joined with
  | nil =>
    have hj : joined ≠ "" := hne.resolve_right fun h => h rfl
    simp [walk, hj]
  | cons segment segments ih =>
    have hself := isSelfKey_append joined (hgaps segment List.mem_cons_self)
      (hdot segment List.mem_cons_self)
    have hmissing : p.bound.get? (joined ++ segment) = none := hnone _ (by simp)
    have hnext : p.walk host policy (joined ++ segment ++ ".") segments = .ok none := by
      refine ih (.inl (by simp)) (fun x hx => hgaps x (List.mem_cons_of_mem _ hx))
        (fun x hx => hdot x (List.mem_cons_of_mem _ hx)) fun key hkey => hnone key ?_
      exact List.IsPrefix.trans (by simp [List.append_assoc]) hkey
    simp only [walk, hread, bind, Except.bind, hself, hmissing, hnext, Bool.false_eq_true, if_false]
    split <;> rfl

/-- No field of either has a name with a dot. -/
theorem Padded.get?_dotted (hname : '.' ∉ name.toList) (h : p.Padded name p') {key : String}
    (hkey : '.' ∈ key.toList) : p.bound.get? key = none ∧ p'.bound.get? key = none := by
  have hnone : p.bound.get? key = none := by
    cases hw : p.bound.get? key with
    | none => rfl
    | some w => exact absurd hkey (Value.dotless_get? h.spot.dotless hw).1
  refine ⟨hnone, ?_⟩
  have hget := h.bound.get? key
  rw [hnone] at hget
  cases hw : p'.bound.get? key with
  | none => rfl
  | some w =>
    rw [hw] at hget
    cases hget with
    | extra he => exact absurd (he.2 ▸ hkey) hname

/-- Neither walk goes on past a name that is that of no field. -/
theorem Padded.walk_past (host : Host φ) (policy : FailurePolicy) (hname : '.' ∉ name.toList)
    (h : p.Padded name p') (segment : String) {segments : List String}
    (hgaps : ∀ s ∈ segments, s ≠ "") (hdot : Dotless segments) :
    p.walk host policy ("" ++ segment ++ ".") segments = .ok none ∧
      p'.walk host policy ("" ++ segment ++ ".") segments = .ok none := by
  have hdotted : ∀ key : String, ("" ++ segment ++ ".").toList <+: key.toList →
      '.' ∈ key.toList := fun key hkey => hkey.subset (by simp)
  constructor
  · exact walk_fieldless h.data.1 (.inl (by simp)) hgaps hdot fun key hkey =>
      (h.get?_dotted hname (hdotted key hkey)).1
  · exact walk_fieldless h.data.2 (.inl (by simp)) hgaps hdot fun key hkey =>
      (h.get?_dotted hname (hdotted key hkey)).2

/-- A walk over the two data ends alike, or in a null that the last segment names. -/
theorem Padded.walk (host : Host φ) (policy : FailurePolicy) (hname : '.' ∉ name.toList)
    (h : p.Padded name p') {segments : List String}
    (hgaps : ∀ s ∈ segments, s ≠ "") (hdot : Dotless segments) :
    ∃ r r', p.walk host policy "" segments = .ok r ∧ p'.walk host policy "" segments = .ok r' ∧
      Answers (fun x y => x.1.Padded name y.1)
        (fun y => y.1.bound = .null ∧ segments.getLast? = some name) r r' := by
  induction segments generalizing p p' with
  | nil => exact ⟨_, _, walk_nil p, walk_nil p', .both h⟩
  | cons s segments ih =>
    have hs : s ≠ "" := hgaps s List.mem_cons_self
    have hsdot : '.' ∉ s.toList := hdot s List.mem_cons_self
    have hgaps' : ∀ x ∈ segments, x ≠ "" := fun x hx => hgaps x (List.mem_cons_of_mem _ hx)
    have hdot' : Dotless segments := fun x hx => hdot x (List.mem_cons_of_mem _ hx)
    have hself : ScopeTree.isSelfKey ("" ++ s) = false := isSelfKey_append "" hs hsdot
    obtain ⟨hpast, hpast'⟩ := h.walk_past host policy hname s hgaps' hdot'
    obtain ⟨hread, hread'⟩ := h.read host policy
    simp only [Place.walk, hread, hread', bind, Except.bind, h.bound.isArray]
    cases ha : p.bound.isArray with
    | true =>
      simp only [if_true]
      exact ⟨none, none, hpast, hpast', .neither⟩
    | false =>
      simp only [hself, Bool.false_eq_true, if_false]
      have hget := h.bound.get? ("" ++ s)
      cases hw : p.bound.get? ("" ++ s) with
      | none =>
        cases hw' : p'.bound.get? ("" ++ s) with
        | none => exact ⟨none, none, hpast, hpast', .neither⟩
        | some w' =>
          rw [hw, hw'] at hget
          cases hget with
          | extra he =>
            obtain ⟨rfl, hkey⟩ := he
            rw [String.empty_append] at hkey
            cases segments with
            | nil =>
              exact ⟨none, _, hpast, walk_nil _, .extra ⟨rfl, by rw [hkey]; rfl⟩⟩
            | cons t segments =>
              refine ⟨none, none, hpast, ?_, .neither⟩
              exact walk_fieldless rfl (.inr (List.cons_ne_nil _ _)) hgaps' hdot' fun _ _ => rfl
      | some w =>
        cases hw' : p'.bound.get? ("" ++ s) with
        | none =>
          rw [hw, hw'] at hget
          cases hget
        | some w' =>
          rw [hw, hw'] at hget
          cases hget with
          | both hwpad =>
            obtain ⟨r, r', hr, hr', hanswers⟩ := ih
              (h.child (by simpa using hs) (by simpa using hsdot) hwpad
                (Value.isData_get? h.data.1 hw) (Value.dotless_get? h.spot.dotless hw).2)
              hgaps' hdot'
            refine ⟨r, r', hr, hr', ?_⟩
            cases hanswers with
            | neither => exact .neither
            | both hxy => exact .both hxy
            | extra he =>
              refine .extra ⟨he.1, ?_⟩
              rw [List.getLast?_cons, he.2]
              rfl

end Place

namespace Treeless

variable {name : String} {env : Env φ} {d d' : Value φ} {p p' : Place φ}
  {os os' : List (Place φ)}

theorem findPlace_padded (host : Host φ) (policy : FailurePolicy) (hname : '.' ∉ name.toList)
    (h : p.Padded name p') (ho : List.Forall₂ (Place.Padded name) os os') {key : Key}
    (hk : key.Formed) (hgaps : key.NoGaps) :
    ∃ r r', findPlace host policy p os key = .ok r ∧ findPlace host policy p' os' key = .ok r' ∧
      Answers (Place.Padded name)
        (fun q => q.bound = .null ∧ key.segments.getLast? = some name) r r' := by
  have hstart := h.start ho key
  have hdot : Dotless key.segments := hk.segments ▸ dotless_splitPath key.text
  rw [findPlace_start, findPlace_start, hstart.path]
  generalize (if key.inContext then 0 else pathDepth (Place.start p os key).path) = depth
  have hgaps' : ∀ s ∈ key.segments.drop depth, s ≠ "" :=
    fun s hs => hgaps s (List.mem_of_mem_drop hs)
  have hdot' : Dotless (key.segments.drop depth) := fun s hs => hdot s (List.mem_of_mem_drop hs)
  obtain ⟨r, r', hr, hr', hanswers⟩ := hstart.walk host policy hname hgaps' hdot'
  refine ⟨_, _, by rw [hr]; rfl, by rw [hr']; rfl, ?_⟩
  cases hanswers with
  | neither => exact .neither
  | both hxy => exact .both hxy
  | extra he =>
    refine .extra ⟨he.1, ?_⟩
    have hlast := he.2
    rw [List.getLast?_drop] at hlast
    split at hlast
    · cases hlast
    · exact hlast

/-- What a binding comes to over the two data. -/
def Resolution.Padded (name : String) (r r' : Resolution φ) : Prop :=
  ∃ q q' : Place φ, q.Padded name q' ∧ r = .plain q q.bound ∧ r' = .plain q' q'.bound

/-- A binding that comes to the null. -/
def Resolution.IsNull (r : Resolution φ) : Prop :=
  ∃ q : Place φ, q.bound = .null ∧ r = .plain q .null

theorem resolve_padded (env : Env φ) (d d' : Value φ) (hname : '.' ∉ name.toList) {b : Binding}
    (hl : b.links = []) (hk : b.key.Formed) (hgaps : b.key.NoGaps) (h : p.Padded name p')
    (ho : List.Forall₂ (Place.Padded name) os os') :
    ∃ r r', resolve env d b p os = .ok r ∧ resolve env d' b p' os' = .ok r' ∧
      Answers (Resolution.Padded name)
        (fun r => r.IsNull ∧ b.key.segments.getLast? = some name) r r' := by
  obtain ⟨found, found', hf, hf', hanswers⟩ :=
    findPlace_padded env.host (env.policy b.raw) hname h ho hk hgaps
  rw [resolve_plain hl, resolve_plain hl, hf, hf']
  cases hanswers with
  | neither => exact ⟨none, none, rfl, rfl, .neither⟩
  | @both q q' hq =>
    obtain ⟨hread, hread'⟩ := hq.read env.host (env.policy b.raw)
    exact ⟨some (.plain q q.bound), some (.plain q' q'.bound),
      by simp only [bind, Except.bind, hread], by simp only [bind, Except.bind, hread'],
      .both ⟨q, q', hq, rfl, rfl⟩⟩
  | @extra q he =>
    have hread : q.read env.host (env.policy b.raw) = .ok .null := by
      rw [Place.read_of_not_function (by rw [he.1]; rfl), he.1]
    exact ⟨none, some (.plain q .null), rfl, by simp only [bind, Except.bind, hread],
      .extra ⟨⟨q, he.1, rfl⟩, he.2⟩⟩

end Treeless

end TextTemplate
