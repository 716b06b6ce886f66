/-!
Cutting a text at a separator. `breakOn` finds the first place where a word stands; `splitAt` and
`splitPair` cut at every place, keeping empty parts, so there is always at least one part.
-/
namespace TextTemplate.Text

/-- The text before the first occurrence of `word` and the text after it. -/
def breakOn (word : List Char) : List Char → Option (List Char × List Char)
  | [] => if word.isEmpty then some ([], []) else none
  | c :: r =>
    if word.isPrefixOf (c :: r) then some ([], (c :: r).drop word.length)
    else (breakOn word r).map fun (before, after) => (c :: before, after)

/-- Puts a character in front of the first part. -/
def consHead (c : Char) : List (List Char) → List (List Char)
  | [] => [[c]]
  | part :: parts => (c :: part) :: parts

/-- Cuts at every `sep`. -/
def splitAt (sep : Char) : List Char → List (List Char)
  | [] => [[]]
  | c :: r => if c = sep then [] :: splitAt sep r else consHead c (splitAt sep r)

/-- Cuts at every `a` directly followed by `b`, from left to right. -/
def splitPair (a b : Char) : List Char → List (List Char)
  | [] => [[]]
  | [c] => [[c]]
  | c :: d :: r =>
    if c = a ∧ d = b then [] :: splitPair a b r else consHead c (splitPair a b (d :: r))

/-- The text without `tail`, when it ends with it. -/
def dropSuffix? (tail s : List Char) : Option (List Char) :=
  if tail.isSuffixOf s then some (s.take (s.length - tail.length)) else none

theorem eq_append_of_breakOn {word s before after : List Char}
    (h : breakOn word s = some (before, after)) : s = before ++ word ++ after := by
  induction s generalizing before with
  | nil =>
    simp only [breakOn, List.isEmpty_iff] at h
    split at h <;> simp_all
  | cons c r ih =>
    simp only [breakOn] at h
    split at h
    · rename_i hp
      obtain ⟨t, ht⟩ := List.isPrefixOf_iff_prefix.1 hp
      simp only [Option.some.injEq, Prod.mk.injEq] at h
      obtain ⟨rfl, rfl⟩ := h
      simp [← ht]
    · simp only [Option.map_eq_some_iff, Prod.exists, Prod.mk.injEq] at h
      obtain ⟨b, a, hb, rfl, rfl⟩ := h
      simp [ih hb]

theorem splitAt_ne_nil (sep : Char) (s : List Char) : splitAt sep s ≠ [] := by
  cases s with
  | nil => simp [splitAt]
  | cons c r =>
    simp only [splitAt]
    split
    · simp
    · cases splitAt sep r <;> simp [consHead]

end TextTemplate.Text
