import TextTemplate.Number.Spec
import Mathlib.Data.List.TakeWhile
import Mathlib.Data.Set.Subsingleton

/-!
The grammar of number specifiers. A specifier is read exactly when it is made of the parts of a
request, each in its place. Characters that begin a part begin none of the parts before it, so a
text is that of one request only, where a zero in front of the width is taken for the flag.
-/
namespace TextTemplate.Number

def SignRule.mark : SignRule → Char
  | .plus => '+'
  | .minus => '-'
  | .space => ' '

def Style.mark : Style → Char
  | .whole => 'd'
  | .fixed => 'f'
  | .exponent => 'e'
  | .percent => '%'

/-- A specifier in its parts. Width and precision are the digits that are written, and may be
beyond their limits. -/
structure Request where
  sign : Option SignRule
  currency : Bool
  zero : Bool
  width : List Char
  grouping : Bool
  precision : Option (List Char)
  style : Option Style

/-- The text of a mark that may be asked for. -/
def flag (asked : Bool) (mark : Char) : List Char := if asked then [mark] else []

/-- Digits that denote a number of 64 bits. -/
def IsCount (digits : List Char) : Prop :=
  digits.all Char.isDigit = true ∧ natOfDigits digits < Nat.pow 2 64

namespace Request

def text (r : Request) : List Char :=
  (r.sign.map SignRule.mark).toList ++ (flag r.currency '$' ++ (flag r.zero '0' ++ (r.width ++
    (flag r.grouping ',' ++ ((r.precision.map (List.cons '.')).getD [] ++
      (r.style.map Style.mark).toList)))))

structure Accepted (r : Request) : Prop where
  width : IsCount r.width
  /-- A zero in front of the width is the flag. -/
  zero : r.zero = false → r.width.head? ≠ some '0'
  precision : ∀ digits ∈ r.precision, digits ≠ [] ∧ IsCount digits

/-- What is read: width and precision are kept within their limits. -/
def spec (r : Request) : Spec where
  sign := r.sign
  currency := r.currency
  zero := r.zero
  width := min (natOfDigits r.width) maxWidth
  grouping := r.grouping
  precision := r.precision.map fun digits => min (natOfDigits digits) maxPrecision
  style := r.style

end Request

private theorem readSignRule_text (s : List Char) :
    s = ((readSignRule s).1.map SignRule.mark).toList ++ (readSignRule s).2 := by
  unfold readSignRule
  split <;> rfl

private theorem readMark_text (mark : Char) (s : List Char) :
    s = flag (readMark mark s).1 mark ++ (readMark mark s).2 := by
  cases s with
  | nil => rfl
  | cons c r =>
    rw [readMark]
    split
    · rename_i hc
      rw [hc]
      rfl
    · rfl

private theorem readMark_head {mark : Char} {s : List Char} (h : (readMark mark s).1 = false) :
    (readMark mark s).2.head? ≠ some mark := by
  cases s with
  | nil => simp [readMark]
  | cons c r =>
    rw [readMark] at h ⊢
    split at h
    · cases h
    · rename_i hc
      rw [if_neg hc]
      simpa using hc

private theorem readCount?_eq_some {digits : List Char} {n : Nat} (h : readCount? digits = some n) :
    n = natOfDigits digits ∧ natOfDigits digits < Nat.pow 2 64 := by
  simp only [readCount?] at h
  split at h
  · rename_i hn
    cases h
    exact ⟨rfl, hn⟩
  · cases h

theorem isCount_of_readCount? {s : List Char} {n : Nat}
    (h : readCount? (s.takeWhile Char.isDigit) = some n) : IsCount (s.takeWhile Char.isDigit) :=
  ⟨List.all_takeWhile, (readCount?_eq_some h).2⟩

private theorem readWidth?_eq_some {s rest : List Char} {width : Nat}
    (h : readWidth? s = some (width, rest)) :
    ∃ digits, s = digits ++ rest ∧ IsCount digits ∧ width = min (natOfDigits digits) maxWidth := by
  simp only [readWidth?, spanDigits, List.isEmpty_iff] at h
  refine ⟨s.takeWhile Char.isDigit, ?_⟩
  by_cases hempty : s.takeWhile Char.isDigit = []
  · rw [if_pos hempty] at h
    cases h
    refine ⟨List.takeWhile_append_dropWhile.symm, ?_⟩
    rw [hempty]
    exact ⟨⟨rfl, by decide⟩, rfl⟩
  · rw [if_neg hempty, Option.map_eq_some_iff] at h
    obtain ⟨n, hn, hpair⟩ := h
    cases hpair
    exact ⟨List.takeWhile_append_dropWhile.symm, isCount_of_readCount? hn,
      by rw [(readCount?_eq_some hn).1]⟩

private theorem readPrecision?_eq_some {s rest : List Char} {precision : Option Nat}
    (h : readPrecision? s = some (precision, rest)) :
    ∃ written : Option (List Char), s = (written.map (List.cons '.')).getD [] ++ rest ∧
      (∀ digits ∈ written, digits ≠ [] ∧ IsCount digits) ∧
      precision = written.map fun digits => min (natOfDigits digits) maxPrecision := by
  unfold readPrecision? at h
  split at h
  · rename_i s
    simp only [spanDigits, List.isEmpty_iff] at h
    by_cases hempty : s.takeWhile Char.isDigit = []
    · rw [if_pos hempty] at h
      cases h
    · rw [if_neg hempty, Option.map_eq_some_iff] at h
      obtain ⟨n, hn, hpair⟩ := h
      cases hpair
      refine ⟨some (s.takeWhile Char.isDigit), ?_, ?_, ?_⟩
      · exact congrArg (List.cons '.') List.takeWhile_append_dropWhile.symm
      · rintro digits hdigits
        cases hdigits
        exact ⟨hempty, isCount_of_readCount? hn⟩
      · rw [(readCount?_eq_some hn).1, Option.map_some]
  · cases h
    refine ⟨none, rfl, ?_, rfl⟩
    rintro digits hnone
    cases hnone

private theorem readStyle_text (s : List Char) :
    s = ((readStyle s).1.map Style.mark).toList ++ (readStyle s).2 := by
  unfold readStyle
  split <;> rfl

/-- Every specifier that is read is the text of a request. -/
theorem exists_request {text : List Char} {spec : Spec} (h : Spec.read? text = some spec) :
    ∃ r : Request, r.Accepted ∧ r.text = text ∧ r.spec = spec := by
  simp only [Spec.read?, Option.bind_eq_bind, Option.bind_eq_some_iff] at h
  obtain ⟨⟨width, s₁⟩, hwidth, ⟨precision, s₂⟩, hprecision, hend⟩ := h
  obtain ⟨widthDigits, hwidthText, hcount, rfl⟩ := readWidth?_eq_some hwidth
  obtain ⟨places, hplacesText, hplaces, rfl⟩ := readPrecision?_eq_some hprecision
  split at hend
  · rename_i hempty
    cases hend
    rw [List.isEmpty_iff] at hempty
    have hstyle := readStyle_text s₂
    rw [hempty, List.append_nil] at hstyle
    refine ⟨⟨_, _, _, widthDigits, _, places, _⟩, ⟨hcount, ?_, hplaces⟩, ?_, rfl⟩
    · intro hzero
      have hhead := readMark_head hzero
      rw [hwidthText] at hhead
      cases widthDigits with
      | nil => simp
      | cons => exact hhead
    · -- from the last part to the first, what is read and its rest make up what was there
      simp only [Request.text]
      rw [← hstyle, ← hplacesText, ← readMark_text, ← hwidthText, ← readMark_text, ← readMark_text,
        ← readSignRule_text]
  · cases hend

/-- The place in a specifier of the part that a character begins. -/
def place (c : Char) : Nat :=
  if c.isDigit then 2
  else match c with
    | '+' | '-' | ' ' => 0
    | '$' => 1
    | ',' => 3
    | '.' => 4
    | _ => 5

/-- A text that begins with no part before the one at place `k`. -/
def StartsFrom (k : Nat) (s : List Char) : Prop := ∀ c ∈ s.head?, k ≤ place c

section StartsFrom

variable {k l : Nat} {s t : List Char} {c : Char}

theorem StartsFrom.mono (h : StartsFrom l s) (hkl : k ≤ l) : StartsFrom k s :=
  fun c hc => hkl.trans (h c hc)

theorem StartsFrom.append (hs : StartsFrom k s) (ht : StartsFrom k t) : StartsFrom k (s ++ t) := by
  intro c hc
  cases s with
  | nil => exact ht c hc
  | cons d s => exact hs c hc

theorem StartsFrom.head_ne (h : StartsFrom k s) (hc : place c < k) : s.head? ≠ some c :=
  fun heq => absurd (h c heq) (Nat.not_le.2 hc)

theorem place_of_isDigit (h : c.isDigit = true) : place c = 2 := if_pos h

theorem StartsFrom.head_not_digit (h : StartsFrom 3 s) : ∀ c ∈ s.head?, c.isDigit = false := by
  intro c hc
  by_contra hdigit
  have hplace := h c hc
  rw [place_of_isDigit (Bool.of_not_eq_false hdigit)] at hplace
  omega

private theorem startsFrom_digits (h : s.all Char.isDigit = true) : StartsFrom 2 s := by
  intro c hc
  exact (place_of_isDigit (List.all_eq_true.1 h c (List.mem_of_head? hc))).ge

private theorem startsFrom_flag (asked : Bool) (mark : Char) :
    StartsFrom (place mark) (flag asked mark) := by
  cases asked with
  | false => nofun
  | true =>
    rintro _ ⟨⟩
    exact Nat.le_refl _

end StartsFrom

section Readers

variable {rest digits : List Char}

private theorem readSignRule_append (sign : Option SignRule) (h : StartsFrom 1 rest) :
    readSignRule ((sign.map SignRule.mark).toList ++ rest) = (sign, rest) := by
  cases sign with
  | some sign => cases sign <;> rfl
  | none =>
    have hplus := h.head_ne (c := '+') (by decide)
    have hminus := h.head_ne (c := '-') (by decide)
    have hspace := h.head_ne (c := ' ') (by decide)
    change readSignRule rest = (none, rest)
    unfold readSignRule
    split <;> simp_all

private theorem readMark_append (asked : Bool) {mark : Char}
    (h : asked = false → rest.head? ≠ some mark) :
    readMark mark (flag asked mark ++ rest) = (asked, rest) := by
  cases asked with
  | true => exact if_pos rfl
  | false =>
    cases rest with
    | nil => rfl
    | cons c rest => exact if_neg fun hc => h rfl (congrArg some hc)

private theorem spanDigits_append (hdigits : digits.all Char.isDigit = true)
    (h : StartsFrom 3 rest) :
    spanDigits (digits ++ rest) = (digits, rest) := by
  have hall := List.all_eq_true.1 hdigits
  rw [spanDigits, List.takeWhile_append_of_pos hall, List.dropWhile_append_of_pos hall]
  cases rest with
  | nil => simp
  | cons c rest =>
    have hc := h.head_not_digit c rfl
    simp [hc]

theorem readCount?_of_isCount (h : IsCount digits) :
    readCount? digits = some (natOfDigits digits) := if_pos h.2

private theorem readWidth?_append (hdigits : IsCount digits) (h : StartsFrom 3 rest) :
    readWidth? (digits ++ rest) = some (min (natOfDigits digits) maxWidth, rest) := by
  simp only [readWidth?, spanDigits_append hdigits.1 h, List.isEmpty_iff]
  split
  · rename_i hempty
    rw [hempty]
    rfl
  · rw [readCount?_of_isCount hdigits, Option.map_some]

private theorem readPrecision?_append {precision : Option (List Char)}
    (hprecision : ∀ digits ∈ precision, digits ≠ [] ∧ IsCount digits) (h : StartsFrom 5 rest) :
    readPrecision? ((precision.map (List.cons '.')).getD [] ++ rest) =
      some (precision.map fun digits => min (natOfDigits digits) maxPrecision, rest) := by
  cases precision with
  | some digits =>
    obtain ⟨hne, hcount⟩ := hprecision digits rfl
    have hspan := spanDigits_append hcount.1 (h.mono (by decide))
    change readPrecision? ('.' :: (digits ++ rest)) = _
    simp only [readPrecision?, hspan, List.isEmpty_iff]
    rw [if_neg hne, readCount?_of_isCount hcount]
    rfl
  | none =>
    have hpoint := h.head_ne (c := '.') (by decide)
    change readPrecision? rest = some (none, rest)
    unfold readPrecision?
    split <;> simp_all

theorem readStyle_mark (style : Option Style) :
    readStyle (style.map Style.mark).toList = (style, []) := by
  cases style with
  | none => rfl
  | some style => cases style <;> rfl

end Readers

namespace Request

variable {r r' : Request}

/-- The text of a request from its style on. Each of the next ones has one part more in front. -/
def fromStyle (r : Request) : List Char := (r.style.map Style.mark).toList

/-- The text from the digits of the precision on, without the point. -/
def fromPlaces (r : Request) : List Char := r.precision.getD [] ++ r.fromStyle

def fromPrecision (r : Request) : List Char :=
  (r.precision.map (List.cons '.')).getD [] ++ r.fromStyle

def fromGrouping (r : Request) : List Char := flag r.grouping ',' ++ r.fromPrecision

def fromWidth (r : Request) : List Char := r.width ++ r.fromGrouping

def fromZero (r : Request) : List Char := flag r.zero '0' ++ r.fromWidth

def fromCurrency (r : Request) : List Char := flag r.currency '$' ++ r.fromZero

private theorem startsFrom_fromStyle (r : Request) : StartsFrom 5 r.fromStyle := by
  intro c hc
  rw [fromStyle] at hc
  cases hstyle : r.style with
  | none => simp [hstyle] at hc
  | some style =>
    obtain rfl : style.mark = c := by simpa [hstyle] using hc
    cases style <;> decide

private theorem startsFrom_fromPrecision (r : Request) : StartsFrom 4 r.fromPrecision := by
  rw [fromPrecision]
  cases r.precision with
  | none => exact r.startsFrom_fromStyle.mono (by decide)
  | some digits =>
    rintro _ ⟨⟩
    decide

private theorem startsFrom_fromGrouping (r : Request) : StartsFrom 3 r.fromGrouping :=
  (startsFrom_flag r.grouping ',').append (r.startsFrom_fromPrecision.mono (by decide))

namespace Accepted

private theorem startsFrom_fromWidth (h : r.Accepted) : StartsFrom 2 r.fromWidth :=
  (startsFrom_digits h.width.1).append (r.startsFrom_fromGrouping.mono (by decide))

private theorem startsFrom_fromZero (h : r.Accepted) : StartsFrom 2 r.fromZero :=
  (startsFrom_flag r.zero '0').append h.startsFrom_fromWidth

private theorem startsFrom_fromCurrency (h : r.Accepted) : StartsFrom 1 r.fromCurrency :=
  (startsFrom_flag r.currency '$').append (h.startsFrom_fromZero.mono (by decide))

private theorem read_sign (h : r.Accepted) : readSignRule r.text = (r.sign, r.fromCurrency) :=
  readSignRule_append r.sign h.startsFrom_fromCurrency

private theorem read_currency (h : r.Accepted) : readMark '$' r.fromCurrency =
    (r.currency, r.fromZero) :=
  readMark_append r.currency fun _ => h.startsFrom_fromZero.head_ne (by decide)

/-- Without the flag no zero stands in front: not in the width, and not after it. -/
private theorem read_zero (h : r.Accepted) : readMark '0' r.fromZero = (r.zero, r.fromWidth) := by
  refine readMark_append r.zero fun hzero => ?_
  have hwidth := h.zero hzero
  rw [fromWidth]
  cases hdigits : r.width with
  | nil => exact r.startsFrom_fromGrouping.head_ne (by decide)
  | cons c digits => rwa [hdigits] at hwidth

theorem span_width (h : r.Accepted) : spanDigits r.fromWidth = (r.width, r.fromGrouping) :=
  spanDigits_append h.width.1 r.startsFrom_fromGrouping

end Accepted

private theorem read_grouping (r : Request) :
    readMark ',' r.fromGrouping = (r.grouping, r.fromPrecision) :=
  readMark_append r.grouping fun _ => r.startsFrom_fromPrecision.head_ne (by decide)

/-- The text of a request is read as what the request asks for. -/
private theorem Accepted.read?_text (h : r.Accepted) : Spec.read? r.text = some r.spec := by
  have hwidth : readWidth? r.fromWidth = some (r.spec.width, r.fromGrouping) :=
    readWidth?_append h.width r.startsFrom_fromGrouping
  have hprecision : readPrecision? r.fromPrecision = some (r.spec.precision, r.fromStyle) :=
    readPrecision?_append h.precision r.startsFrom_fromStyle
  have hstyle : readStyle r.fromStyle = (r.style, []) := readStyle_mark r.style
  simp only [Spec.read?, h.read_sign, h.read_currency, h.read_zero, hwidth, Option.bind_eq_bind,
    Option.bind_some, r.read_grouping, hprecision, hstyle, List.isEmpty_nil, if_true]
  rfl

private theorem read_point (r : Request) :
    readMark '.' r.fromPrecision = (r.precision.isSome, r.fromPlaces) := by
  cases hprecision : r.precision with
  | some digits =>
    rw [fromPrecision, fromPlaces, hprecision]
    exact readMark_append true nofun
  | none =>
    rw [fromPrecision, fromPlaces, hprecision]
    exact readMark_append false fun _ => r.startsFrom_fromStyle.head_ne (by decide)

theorem Accepted.span_places (h : r.Accepted) :
    spanDigits r.fromPlaces = (r.precision.getD [], r.fromStyle) := by
  refine spanDigits_append ?_ (r.startsFrom_fromStyle.mono (by decide))
  cases hprecision : r.precision with
  | some digits => exact (h.precision digits hprecision).2.1
  | none => rfl

/-- What is taken off the front of one text, and what it leaves. -/
theorem taken_eq {α : Type} {take : List Char → α × List Char} {s s' rest rest' : List Char}
    {a a' : α} (h : take s = (a, rest)) (h' : take s' = (a', rest')) (heq : s = s') :
    a = a' ∧ rest = rest' := by
  subst heq
  exact Prod.mk.inj (h.symm.trans h')

/-- Part by part, from the front, what is read of the text tells what was asked for. -/
private theorem Accepted.eq_of_text (h : r.Accepted) (h' : r'.Accepted) (htext : r.text = r'.text) :
    r = r' := by
  obtain ⟨hsign, hrest⟩ := taken_eq h.read_sign h'.read_sign htext
  obtain ⟨hcurrency, hrest⟩ := taken_eq h.read_currency h'.read_currency hrest
  obtain ⟨hzero, hrest⟩ := taken_eq h.read_zero h'.read_zero hrest
  obtain ⟨hwidth, hrest⟩ := taken_eq h.span_width h'.span_width hrest
  obtain ⟨hgrouping, hrest⟩ := taken_eq r.read_grouping r'.read_grouping hrest
  obtain ⟨hpoint, hrest⟩ := taken_eq r.read_point r'.read_point hrest
  obtain ⟨hplaces, hrest⟩ := taken_eq h.span_places h'.span_places hrest
  obtain ⟨hstyle, -⟩ := taken_eq (readStyle_mark r.style) (readStyle_mark r'.style) hrest
  have hprecision : r.precision = r'.precision := by
    cases hr : r.precision <;> cases hr' : r'.precision <;> simp_all
  cases r
  cases r'
  simp_all

/-- What the grammar asks of the parts: digits stand for numbers of 64 bits, and after a point there
is at least one. -/
structure Grammatical (r : Request) : Prop where
  width : IsCount r.width
  precision : ∀ digits ∈ r.precision, digits ≠ [] ∧ IsCount digits

theorem Accepted.grammatical (h : r.Accepted) : r.Grammatical := ⟨h.width, h.precision⟩

/-- A zero that stands in front of the width can be taken for the flag instead. -/
theorem Grammatical.exists_accepted (h : r.Grammatical) :
    ∃ r' : Request, r'.Accepted ∧ r'.text = r.text := by
  by_cases hzero : r.zero = false ∧ r.width.head? = some '0'
  · obtain ⟨hflag, hhead⟩ := hzero
    obtain ⟨digits, hwidth⟩ := List.head?_eq_some_iff.1 hhead
    have hcount : IsCount digits := by
      obtain ⟨hdigits, hnumber⟩ := hwidth ▸ h.width
      exact ⟨(Bool.and_eq_true_iff.1 hdigits).2, hnumber⟩
    refine ⟨{ r with zero := true, width := digits }, ⟨hcount, nofun, h.precision⟩, ?_⟩
    simp [text, flag, hflag, hwidth]
  · exact ⟨r, ⟨h.width, fun hflag hhead => hzero ⟨hflag, hhead⟩, h.precision⟩, rfl⟩

/-- The parts as they are, with the numbers that the digits denote in base ten. -/
theorem spec_eq (r : Request) : r.spec =
    { sign := r.sign
      currency := r.currency
      zero := r.zero
      width := min (Nat.ofDigitChars 10 r.width 0) 1024
      grouping := r.grouping
      precision := r.precision.map fun digits => min (Nat.ofDigitChars 10 digits 0) 20
      style := r.style } := rfl

end Request

theorem Spec.read?_eq_some_iff {text : List Char} {spec : Spec} : Spec.read? text = some spec ↔
    ∃ r : Request, r.Accepted ∧ r.text = text ∧ r.spec = spec := by
  refine ⟨exists_request, ?_⟩
  rintro ⟨r, haccepted, rfl, rfl⟩
  exact haccepted.read?_text

/-- **Specifiers.** A text is read exactly when it is made of parts as the grammar asks. Then it is
the text of one request that takes a zero in front of the width for the flag, and the parts of this
request are what is read, width and precision kept within their limits. -/
theorem Spec.read?_parts (text : String) :
    ((Spec.read? text.toList).isSome = true ↔
      ∃ r : Request, r.Grammatical ∧ r.text = text.toList) ∧
    (∀ spec, Spec.read? text.toList = some spec ↔
      ∃ r : Request, r.Accepted ∧ r.text = text.toList ∧ spec =
        { sign := r.sign
          currency := r.currency
          zero := r.zero
          width := min (Nat.ofDigitChars 10 r.width 0) 1024
          grouping := r.grouping
          precision := r.precision.map fun digits => min (Nat.ofDigitChars 10 digits 0) 20
          style := r.style }) ∧
    {r : Request | r.Accepted ∧ r.text = text.toList}.Subsingleton := by
  refine ⟨⟨fun h => ?_, ?_⟩, fun spec => ?_, ?_⟩
  · obtain ⟨spec, hspec⟩ := Option.isSome_iff_exists.1 h
    obtain ⟨r, haccepted, htext, -⟩ := exists_request hspec
    exact ⟨r, haccepted.grammatical, htext⟩
  · rintro ⟨r, hgrammatical, htext⟩
    obtain ⟨r', haccepted, htext'⟩ := hgrammatical.exists_accepted
    rw [← htext, ← htext', haccepted.read?_text, Option.isSome_some]
  · rw [Spec.read?_eq_some_iff]
    constructor
    · rintro ⟨r, haccepted, htext, rfl⟩
      exact ⟨r, haccepted, htext, r.spec_eq⟩
    · rintro ⟨r, haccepted, htext, rfl⟩
      exact ⟨r, haccepted, htext, r.spec_eq⟩
  · rintro r ⟨haccepted, htext⟩ r' ⟨haccepted', htext'⟩
    exact haccepted.eq_of_text haccepted' (htext.trans htext'.symm)

example : Spec.read? "0012".toList =
    some ⟨none, false, true, 12, false, none, none⟩ := by decide

end TextTemplate.Number
