import TextTemplate.Proofs.Number.Grammar
import TextTemplate.Proofs.Number.Zeros

/-!
How a number is laid out by a specifier: where sign, currency, padding and digits stand, how long
the text is, and which numbers have a minus sign.
-/
namespace TextTemplate.Number

namespace Request

/-- Sign, currency and digits with padding up to the width: spaces in front of all, or zeros in
front of the digits. -/
structure LaidOut (r : Request) (sign body out : List Char) : Prop where
  order : ∃ pad, out =
    if r.zero then sign ++ flag r.currency '$' ++ List.replicate pad '0' ++ body
    else List.replicate pad ' ' ++ sign ++ flag r.currency '$' ++ body
  length : out.length = max (min (natOfDigits r.width) maxWidth)
    (sign.length + (flag r.currency '$').length + body.length)

theorem laidOut_layout (r : Request) (sign body : List Char) :
    r.LaidOut sign body (r.spec.layout sign body) := by
  rw [Spec.layout]
  constructor
  · exact ⟨_, rfl⟩
  · cases hzero : r.zero
    · simp [spec, hzero, flag]
      omega
    · simp [spec, hzero, flag]
      omega

private theorem LaidOut.mem_minus_iff {r : Request} {sign body out : List Char}
    (h : r.LaidOut sign body out) : '-' ∈ out ↔ '-' ∈ sign ∨ '-' ∈ body := by
  obtain ⟨pad, rfl⟩ := h.order
  have hcurrency : '-' ∉ flag r.currency '$' := by cases r.currency <;> decide
  cases r.zero <;> simp [hcurrency]

/-- What stands for the sign of a number without a minus. -/
def askedSign (r : Request) : List Char :=
  match r.sign with
  | some .plus => ['+']
  | some .space => [' ']
  | _ => []

/-- The sign of a number that has a minus just when `minus` holds. -/
structure Signed (r : Request) (minus : Prop) (sign : List Char) : Prop where
  negative : minus → sign = ['-']
  otherwise : ¬ minus → sign = r.askedSign

private theorem Signed.of_iff {r : Request} {minus minus' : Prop} {sign : List Char}
    (h : r.Signed minus sign) (hiff : minus ↔ minus') : r.Signed minus' sign :=
  ⟨h.negative ∘ hiff.2, fun hnot => h.otherwise (hnot ∘ hiff.1)⟩

private theorem Signed.mem_minus_iff {r : Request} {minus : Prop} {sign : List Char}
    (h : r.Signed minus sign) : '-' ∈ sign ↔ minus := by
  constructor
  · intro hmem
    by_contra hnot
    have hasked : '-' ∉ r.askedSign := by
      unfold askedSign
      split <;> decide
    exact hasked (h.otherwise hnot ▸ hmem)
  · intro hminus
    rw [h.negative hminus]
    exact List.mem_singleton_self _

theorem signed_signOf (r : Request) (negative : Bool) (body : List Char) :
    r.Signed (negative = true ∧ body.any isNonzeroDigit = true)
      (r.spec.signOf negative body) := by
  rw [← Bool.and_eq_true]
  constructor
  · intro hminus
    rw [Spec.signOf, if_pos hminus]
  · intro hnot
    rw [Spec.signOf, if_neg hnot]
    rfl

/-- The text of a number with the digits `body`, and a minus just when `minus` holds. -/
def Writes (r : Request) (body : List Char) (minus : Prop) (out : List Char) : Prop :=
  ∃ sign, r.LaidOut sign body out ∧ r.Signed minus sign

private theorem Writes.of_iff {r : Request} {body out : List Char} {minus minus' : Prop}
    (h : r.Writes body minus out) (hiff : minus ↔ minus') : r.Writes body minus' out := by
  obtain ⟨sign, hlaid, hsigned⟩ := h
  exact ⟨sign, hlaid, hsigned.of_iff hiff⟩

/-- Digits without a dash let the text tell whether there is a minus. -/
private theorem Writes.mem_minus_iff {r : Request} {body out : List Char} {minus : Prop}
    (h : r.Writes body minus out) (hbody : '-' ∉ body) : '-' ∈ out ↔ minus := by
  obtain ⟨sign, hlaid, hsigned⟩ := h
  rw [hlaid.mem_minus_iff, or_iff_left hbody, hsigned.mem_minus_iff]

end Request

namespace Spec

/-- The magnitude whose digits are written, a hundredfold for percentages. -/
def written (spec : Spec) (x : Float) : Magnitude :=
  if spec.style = some .percent then magnitude (x.abs * 100) else magnitude x

def WritesFinite (spec : Spec) (x : Float) : Prop :=
  ∃ mantissa exponent, spec.written x = .finite mantissa exponent

/-- Whether `mantissa * 2 ^ exponent` is zero in the places the style has. -/
def TakesToZero (spec : Spec) (mantissa : Nat) (exponent : Int) : Prop :=
  match spec.style, spec.precision with
  | some .whole, _ => (mantissa * 2 ^ exponent : ℚ) < 1 / 2
  | some .exponent, _ => mantissa = 0
  | none, none => mantissa = 0
  | _, precision => (mantissa * 2 ^ exponent * 10 ^ precision.getD 6 : ℚ) ≤ 1 / 2

def RoundsToZero (spec : Spec) (x : Float) : Prop :=
  ∃ mantissa exponent, spec.written x = .finite mantissa exponent ∧
    spec.TakesToZero mantissa exponent

end Spec

section Digits

/-- A text of magnitudes whose words for what is not finite have no digits. -/
private theorem any_ofMagnitude (text : Magnitude → List Char) {m : Magnitude}
    {zero : Nat → Int → Prop}
    (hinfinite : (text .infinite).any isNonzeroDigit = false)
    (hnan : (text .nan).any isNonzeroDigit = false)
    (hfinite : ∀ mantissa exponent, m = .finite mantissa exponent →
      ((text m).any isNonzeroDigit = true ↔ ¬ zero mantissa exponent)) :
    (text m).any isNonzeroDigit = true ↔
      ∃ mantissa exponent, m = .finite mantissa exponent ∧ ¬ zero mantissa exponent := by
  cases m with
  | finite mantissa exponent =>
    rw [hfinite mantissa exponent rfl]
    constructor
    · exact fun hnot => ⟨_, _, rfl, hnot⟩
    · rintro ⟨_, _, heq, hnot⟩
      cases heq
      exact hnot
  | infinite => simp [hinfinite]
  | nan => simp [hnan]

private theorem any_onFinite {write : Nat → Int → List Char} {m : Magnitude}
    {zero : Nat → Int → Prop}
    (h : ∀ mantissa exponent, m = .finite mantissa exponent →
      ((write mantissa exponent).any isNonzeroDigit = true ↔ ¬ zero mantissa exponent)) :
    (onFinite write m).any isNonzeroDigit = true ↔
      ∃ mantissa exponent, m = .finite mantissa exponent ∧ ¬ zero mantissa exponent := by
  refine any_ofMagnitude (onFinite write) rfl rfl ?_
  rintro mantissa exponent rfl
  exact h mantissa exponent rfl

private theorem any_digits (spec : Spec) (x : Float) :
    (spec.digits x).any isNonzeroDigit = true ↔ ∃ mantissa exponent,
      spec.written x = .finite mantissa exponent ∧ ¬ spec.TakesToZero mantissa exponent := by
  obtain ⟨sign, currency, zero, width, grouping, precision, style⟩ := spec
  cases style with
  | some style =>
    cases style with
    | whole => exact any_onFinite fun mantissa exponent _ => any_wholeDigits mantissa exponent
    | fixed => exact any_onFinite fun mantissa exponent _ => any_fixedDigits mantissa exponent _
    | exponent =>
      exact any_onFinite fun mantissa exponent h => any_exponentDigits (inRange_of_magnitude h) _
    | percent =>
      have hsign : ['%'].any isNonzeroDigit = false := rfl
      simp only [Spec.digits]
      rw [List.any_append, hsign, Bool.or_false]
      exact any_onFinite fun mantissa exponent _ => any_fixedDigits mantissa exponent _
  | none =>
    cases precision with
    | some places =>
      exact any_onFinite fun mantissa exponent _ => any_fixedDigits mantissa exponent places
    | none =>
      refine any_ofMagnitude plainMagnitude rfl rfl ?_
      intro mantissa exponent h
      rw [h]
      exact any_plainMagnitude (inRange_of_magnitude h)

private theorem any_body (spec : Spec) (x : Float) :
    (spec.body x).any isNonzeroDigit = true ↔ spec.WritesFinite x ∧ ¬ spec.RoundsToZero x := by
  have hgroup : (spec.body x).any isNonzeroDigit = (spec.digits x).any isNonzeroDigit := by
    rw [Spec.body]
    split
    · exact any_groupThousands _
    · rfl
  rw [hgroup, any_digits]
  constructor
  · rintro ⟨mantissa, exponent, heq, hnot⟩
    refine ⟨⟨mantissa, exponent, heq⟩, ?_⟩
    rintro ⟨_, _, heq', hzero⟩
    rw [heq] at heq'
    cases heq'
    exact hnot hzero
  · rintro ⟨⟨mantissa, exponent, heq⟩, hnot⟩
    exact ⟨mantissa, exponent, heq, fun hzero => hnot ⟨mantissa, exponent, heq, hzero⟩⟩

private theorem minus_not_mem_ofMagnitude (text : Magnitude → List Char) {m : Magnitude}
    (hinfinite : '-' ∉ text .infinite) (hnan : '-' ∉ text .nan)
    (h : ¬ ∃ mantissa exponent, m = .finite mantissa exponent) : '-' ∉ text m := by
  cases m with
  | finite mantissa exponent => exact absurd ⟨mantissa, exponent, rfl⟩ h
  | infinite => exact hinfinite
  | nan => exact hnan

private theorem minus_not_mem_onFinite {write : Nat → Int → List Char} {m : Magnitude}
    (h : ¬ ∃ mantissa exponent, m = .finite mantissa exponent) : '-' ∉ onFinite write m :=
  minus_not_mem_ofMagnitude (onFinite write) (by simp [onFinite]) (by simp [onFinite]) h

private theorem minus_not_mem_digits {spec : Spec} {x : Float} (h : ¬ spec.WritesFinite x) :
    '-' ∉ spec.digits x := by
  obtain ⟨sign, currency, zero, width, grouping, precision, style⟩ := spec
  cases style with
  | some style =>
    cases style with
    | percent =>
      simp only [Spec.digits]
      rw [List.mem_append, not_or]
      exact ⟨minus_not_mem_onFinite h, by decide⟩
    | _ => exact minus_not_mem_onFinite h
  | none =>
    cases precision with
    | some places => exact minus_not_mem_onFinite h
    | none => exact minus_not_mem_ofMagnitude plainMagnitude (by decide) (by decide) h

private theorem mem_groupThousands {c : Char} {body : List Char} (h : c ∈ groupThousands body) :
    c = ',' ∨ c ∈ body := by
  have hgroups : ∀ ds, c ∈ groupDigits ds → c = ',' ∨ c ∈ ds := by
    intro ds
    fun_induction groupDigits ds <;> grind
  rw [groupThousands, List.mem_append] at h
  rcases h with h | h
  · exact (hgroups _ h).imp_right fun hmem => (List.takeWhile_prefix _).subset hmem
  · exact .inr ((List.dropWhile_suffix _).subset h)

private theorem minus_not_mem_body {spec : Spec} {x : Float} (h : ¬ spec.WritesFinite x) :
    '-' ∉ spec.body x := by
  rw [Spec.body]
  split
  · intro hmem
    exact minus_not_mem_digits h ((mem_groupThousands hmem).resolve_left (by decide))
  · exact minus_not_mem_digits h

end Digits

theorem Spec.RoundsToZero.writesFinite {spec : Spec} {x : Float} (h : spec.RoundsToZero x) :
    spec.WritesFinite x := by
  obtain ⟨mantissa, exponent, heq, -⟩ := h
  exact ⟨mantissa, exponent, heq⟩

theorem Request.writes_write (r : Request) {x : Float} (hx : x.isNaN = false) :
    r.Writes (r.spec.body x) (x < 0 ∧ r.spec.WritesFinite x ∧ ¬ r.spec.RoundsToZero x)
      (r.spec.write x) := by
  have hsigned := r.signed_signOf (decide (x < 0)) (r.spec.body x)
  rw [decide_eq_true_eq, any_body] at hsigned
  rw [Spec.write, hx]
  exact ⟨_, r.laidOut_layout _ _, hsigned⟩

/-- A specifier that is read says which parts the text of a number has, and its width. The sign is
a minus for negative numbers that do not round to zero, but not where the magnitude to be written
is not finite. -/
theorem specFormatter_layout {text : String} {spec : Spec}
    (hspec : Spec.read? text.toList = some spec) {x : Float} (hx : x.isNaN = false) :
    ∃ r : Request, r.Accepted ∧ r.text = text.toList ∧ r.spec = spec ∧
      ∃ out, specFormatter text x = .ok (String.ofList out) ∧
        r.Writes (spec.body x) (x < 0 ∧ spec.WritesFinite x ∧ ¬ spec.RoundsToZero x) out ∧
        (r.Writes (spec.body x) (x < 0 ∧ ¬ spec.RoundsToZero x) out ↔
          (x < 0 → spec.WritesFinite x)) := by
  obtain ⟨r, haccepted, htext, rfl⟩ := exists_request hspec
  have hwrites := r.writes_write hx
  refine ⟨r, haccepted, htext, rfl, r.spec.write x, ?_, hwrites, ?_, ?_⟩
  · rw [specFormatter, hspec]
  · -- digits that stand for no finite number have no dash, so the text shows the missing minus
    intro hdocumented hnegative
    by_contra hinfinite
    have hbody := minus_not_mem_body hinfinite
    have hzero : ¬ r.spec.RoundsToZero x := fun h => hinfinite h.writesFinite
    have hminus := (hdocumented.mem_minus_iff hbody).2 ⟨hnegative, hzero⟩
    exact hinfinite ((hwrites.mem_minus_iff hbody).1 hminus).2.1
  · intro hfinite
    exact hwrites.of_iff ⟨fun h => ⟨h.1, h.2.2⟩, fun h => ⟨h.1, hfinite h.1, h.2⟩⟩

theorem specFormatter_layout_grouped :
    let spec : Spec := ⟨some .plus, true, true, 12, true, some 1, some .fixed⟩
    Spec.read? "+$012,.1f".toList = some spec ∧ (-1234.56 : Float).isNaN = false ∧
      ∃ r : Request, r.Accepted ∧ r.text = "+$012,.1f".toList ∧ r.spec = spec ∧
        ∃ out, specFormatter "+$012,.1f" (-1234.56) = .ok (String.ofList out) ∧
          r.Writes (spec.body (-1234.56)) ((-1234.56 : Float) < 0 ∧
            spec.WritesFinite (-1234.56) ∧ ¬ spec.RoundsToZero (-1234.56)) out := by
  intro spec
  have hspec : Spec.read? "+$012,.1f".toList = some spec := by decide
  have hx : (-1234.56 : Float).isNaN = false := by decide
  obtain ⟨r, haccepted, htext, hr, out, hout, hwrites, -⟩ := specFormatter_layout hspec hx
  exact ⟨hspec, hx, r, haccepted, htext, hr, out, hout, hwrites⟩

example : specFormatter "+$012,.1f" (-1234.56) = .ok "-$0001,234.6" := by decide

/-- Minus infinity is written without its sign, though it does not round to zero. -/
theorem not_specFormatter_layout :
    let spec : Spec := ⟨none, false, false, 0, false, none, some .whole⟩
    let x : Float := -(1 / 0)
    Spec.read? "d".toList = some spec ∧ x.isNaN = false ∧ x < 0 ∧ ¬ spec.RoundsToZero x ∧
      specFormatter "d" x = .ok "inf" ∧
      ¬ ∃ r : Request, r.Accepted ∧ r.text = "d".toList ∧ r.spec = spec ∧
        ∃ out, specFormatter "d" x = .ok (String.ofList out) ∧
          r.Writes (spec.body x) (x < 0 ∧ ¬ spec.RoundsToZero x) out := by
  intro spec x
  have hinfinite : spec.written x = .infinite := by decide
  have hzero : ¬ spec.RoundsToZero x := by
    rintro ⟨mantissa, exponent, heq, -⟩
    rw [hinfinite] at heq
    cases heq
  have hnegative : x < 0 := by decide
  have hformat : specFormatter "d" x = .ok "inf" := by decide
  refine ⟨by decide, by decide, hnegative, hzero, hformat, ?_⟩
  rintro ⟨r, -, -, -, out, hout, hwrites⟩
  rw [hformat, Except.ok.injEq] at hout
  have hminus := (hwrites.mem_minus_iff (by decide)).2 ⟨hnegative, hzero⟩
  have hword : out = "inf".toList := by rw [hout, String.toList_ofList]
  rw [hword] at hminus
  exact absurd hminus (by decide)

end TextTemplate.Number
