import TextTemplate.Number.Spec
import Mathlib.Algebra.Order.Field.Power
import Mathlib.Data.Rat.Cast.Order
import Mathlib.Tactic.NormNum
import Mathlib.Tactic.Positivity
import Mathlib.Tactic.Ring

/-!
Which magnitudes are written with zeros only. Rounding to a number of places takes a magnitude to
zero when it is at most half of the last place. The exponent form and the shortest decimal keep a
digit of every magnitude but zero; for these the searches for the leading power of ten and for the
grid have to start and end at the right powers.
-/
namespace TextTemplate.Number

theorem isNonzeroDigit_digitChar {n : Nat} (h : n < 10) :
    isNonzeroDigit n.digitChar = decide (n ≠ 0) := by
  have hall : ∀ n < 10, isNonzeroDigit n.digitChar = decide (n ≠ 0) := by decide
  exact hall n h

private theorem any_toDigits (n : Nat) : (Nat.toDigits 10 n).any isNonzeroDigit = decide
    (n ≠ 0) := by
  induction n using Nat.strongRecOn with
  | _ n ih =>
    rw [Nat.toDigits_eq_if (by decide)]
    split
    · rename_i hsmall
      rw [List.any_cons, List.any_nil, Bool.or_false, isNonzeroDigit_digitChar hsmall]
    · rename_i hlarge
      rw [List.any_append, ih (n / 10) (by omega), List.any_cons, List.any_nil, Bool.or_false,
        isNonzeroDigit_digitChar (Nat.mod_lt n (by decide)), ← Bool.decide_or, decide_eq_decide]
      omega

private theorem any_digitsOf (width n : Nat) :
    (digitsOf width n).any isNonzeroDigit = decide (n ≠ 0) := by
  have hzeros : (List.replicate (width - (Nat.toDigits 10 n).length) '0').any isNonzeroDigit
      = false := by
    simp [List.any_replicate, isNonzeroDigit]
  rw [digitsOf, List.any_append, any_toDigits, hzeros, Bool.false_or]

private theorem any_pointed (n places : Nat) :
    (pointed n places).any isNonzeroDigit = decide (n ≠ 0) := by
  rw [pointed]
  split
  · exact any_digitsOf 1 n
  · have hsplit : n / Nat.pow 10 places ≠ 0 ∨ n % Nat.pow 10 places ≠ 0 ↔ n ≠ 0 := by
      have := Nat.div_add_mod n (Nat.pow 10 places)
      constructor
      · rintro h rfl
        simp at h
      · intro h
        by_contra hzero
        simp only [not_or, not_not] at hzero
        rw [hzero.1, hzero.2] at this
        exact h (by simpa using this.symm)
    have hpoint : isNonzeroDigit '.' = false := rfl
    rw [List.any_append, List.any_cons, any_digitsOf, any_digitsOf, hpoint, Bool.false_or,
      ← Bool.decide_or, decide_eq_decide, hsplit]

theorem any_groupThousands (body : List Char) :
    (groupThousands body).any isNonzeroDigit = body.any isNonzeroDigit := by
  have hgroups : ∀ ds, (groupDigits ds).any isNonzeroDigit = ds.any isNonzeroDigit := by
    intro ds
    have hcomma : isNonzeroDigit ',' = false := rfl
    fun_induction groupDigits ds <;> simp_all
  rw [groupThousands, List.any_append, hgroups, ← List.any_append, List.takeWhile_append_dropWhile]

section Powers

variable (base : Nat) [NeZero base]

theorem scaleUp_pos (k : Int) : 0 < scaleUp base k := Nat.pow_pos (Nat.pos_of_neZero base)

theorem scaleDown_pos (k : Int) : 0 < scaleDown base k := Nat.pow_pos (Nat.pos_of_neZero base)

/-- A power is the part that multiplies over the part that divides. -/
theorem zpow_eq_div (k : Int) :
    (base : ℚ) ^ k = scaleUp base k / scaleDown base k := by
  have hup : (scaleUp base k : ℚ) = (base : ℚ) ^ (k.toNat : Int) := by
    rw [zpow_natCast]
    exact Nat.cast_pow base k.toNat
  have hdown : (scaleDown base k : ℚ) = (base : ℚ) ^ ((-k).toNat : Int) := by
    rw [zpow_natCast]
    exact Nat.cast_pow base (-k).toNat
  have hne : (base : ℚ) ≠ 0 := NeZero.ne _
  rw [hup, hdown, ← zpow_sub₀ hne]
  congr 1
  omega

/-- Powers of ten and of two are compared by whole numbers. -/
private theorem tenPow_le_iff (n : Nat) (exponent k : Int) : (10 : ℚ) ^ k ≤ n * 2 ^ exponent ↔
    scaleUp 10 k * scaleDown 2 exponent ≤ n * scaleUp 2 exponent * scaleDown 10 k := by
  have hten := zpow_eq_div 10 k
  have htwo := zpow_eq_div 2 exponent
  have htenDown : (0 : ℚ) < scaleDown 10 k := by exact_mod_cast scaleDown_pos 10 k
  have htwoDown : (0 : ℚ) < scaleDown 2 exponent := by
    exact_mod_cast scaleDown_pos 2 exponent
  push_cast at hten htwo
  rw [hten, htwo, mul_div_assoc', div_le_div_iff₀ htenDown htwoDown]
  norm_cast

end Powers

section Quotients

variable {num den : Nat}

private theorem roundDiv_ne_zero (mode : Rounding) (hden : 0 < den) (h : den ≤ num) :
    roundDiv mode num den ≠ 0 := by
  have hq : 0 < num / den := Nat.div_pos h hden
  unfold roundDiv
  cases mode <;> grind

/-- A half goes to zero, the even neighbour. -/
private theorem roundDiv_halfEven_eq_zero_iff (hden : 0 < den) :
    roundDiv .halfEven num den = 0 ↔ (num / den : ℚ) ≤ 1 / 2 := by
  rw [div_le_div_iff₀ (by exact_mod_cast hden) (by decide)]
  norm_cast
  rcases Nat.lt_or_ge num den with hsmall | hlarge
  · unfold roundDiv
    rw [Nat.div_eq_of_lt hsmall, Nat.mod_eq_of_lt hsmall]
    grind
  · exact iff_of_false (roundDiv_ne_zero _ hden hlarge) (by omega)

/-- A half goes up, so only what is less goes to zero. -/
private theorem roundDiv_halfUp_eq_zero_iff (hden : 0 < den) :
    roundDiv .halfUp num den = 0 ↔ (num / den : ℚ) < 1 / 2 := by
  rw [div_lt_div_iff₀ (by exact_mod_cast hden) (by decide)]
  norm_cast
  rcases Nat.lt_or_ge num den with hsmall | hlarge
  · unfold roundDiv
    rw [Nat.div_eq_of_lt hsmall, Nat.mod_eq_of_lt hsmall]
    grind
  · exact iff_of_false (roundDiv_ne_zero _ hden hlarge) (by omega)

end Quotients

section Rounded

variable (mantissa : Nat) (exponent : Int)

theorem any_fixedDigits (places : Nat) :
    (fixedDigits places mantissa exponent).any isNonzeroDigit = true ↔
      ¬ (mantissa * 2 ^ exponent * 10 ^ places : ℚ) ≤ 1 / 2 := by
  have hpower := zpow_eq_div 2 exponent
  have hquotient : (mantissa * 2 ^ exponent * 10 ^ places : ℚ) =
      (mantissa * scaleUp 2 exponent * Nat.pow 10 places : Nat) / scaleDown 2 exponent := by
    push_cast [Nat.pow_eq] at hpower ⊢
    rw [hpower]
    ring
  rw [fixedDigits, any_pointed, decide_eq_true_eq, not_iff_not,
    roundDiv_halfEven_eq_zero_iff (scaleDown_pos 2 exponent), hquotient]

theorem any_wholeDigits :
    (wholeDigits mantissa exponent).any isNonzeroDigit = true ↔
      ¬ (mantissa * 2 ^ exponent : ℚ) < 1 / 2 := by
  have hpower := zpow_eq_div 2 exponent
  have hquotient : (mantissa * 2 ^ exponent : ℚ) =
      (mantissa * scaleUp 2 exponent : Nat) / scaleDown 2 exponent := by
    push_cast at hpower ⊢
    rw [hpower]
    ring
  rw [wholeDigits, any_toDigits, decide_eq_true_eq, not_iff_not,
    roundDiv_halfUp_eq_zero_iff (scaleDown_pos 2 exponent), hquotient]

end Rounded

/-- What is known of the mantissa and the exponent of a finite double. -/
structure InRange (mantissa : Nat) (exponent : Int) : Prop where
  mantissa : mantissa < 2 ^ 53
  low : -1074 ≤ exponent
  high : exponent ≤ 971

theorem inRange_of_magnitude {x : Float} {mantissa : Nat} {exponent : Int}
    (h : magnitude x = .finite mantissa exponent) : InRange mantissa exponent := by
  simp only [magnitude, Magnitude.ofBits, Nat.pow_eq] at h
  have hfraction := Nat.mod_lt x.toBits.toNat (y := 2 ^ 52) (by decide)
  have hlevel := Nat.mod_lt (x.toBits.toNat / 2 ^ 52) (y := 2048) (by decide)
  split at h
  · split at h <;> cases h
  · split at h
    · cases h
      constructor <;> omega
    · cases h
      constructor <;> omega

/-- Powers of ten and of two are compared through a power of each that is known. -/
private theorem tenPow_le_twoPow_of {k l : Int} {a b : Nat} (ha : a ≠ 0)
    (h : ((10 : ℚ) ^ a) ^ k ≤ (2 ^ b) ^ k) (hkl : b * k ≤ a * l) : (10 : ℚ) ^ k ≤ 2 ^ l := by
  refine (pow_le_pow_iff_left₀ (by positivity) (by positivity) ha).1 ?_
  calc ((10 : ℚ) ^ k) ^ a = (10 ^ a) ^ k := by
        rw [← zpow_natCast, ← zpow_natCast, zpow_comm]
    _ ≤ (2 ^ b) ^ k := h
    _ = 2 ^ (b * k) := by rw [← zpow_natCast, zpow_mul]
    _ ≤ 2 ^ (a * l) := zpow_le_zpow_right₀ (by norm_num) hkl
    _ = (2 ^ l) ^ a := by rw [mul_comm, zpow_mul, zpow_natCast]

/-- A power of ten is at most a power of two whose exponent is large enough. -/
private theorem tenPow_le_twoPow {k l : Int} (hup : 0 ≤ k → 10 * k ≤ 3 * l)
    (hdown : k < 0 → 23 * k ≤ 7 * l) : (10 : ℚ) ^ k ≤ 2 ^ l := by
  -- below one the comparison goes through `2 ^ 23 ≤ 10 ^ 7`, above through `10 ^ 3 ≤ 2 ^ 10`
  rcases lt_or_ge k 0 with hk | hk
  · refine tenPow_le_twoPow_of (a := 7) (b := 23) (by decide) ?_ (hdown hk)
    have hinv : ((2 : ℚ) ^ 23) ^ (-k) ≤ (10 ^ 7) ^ (-k) :=
      zpow_le_zpow_left₀ (by omega) (by norm_num) (by norm_num)
    rwa [zpow_neg, zpow_neg, inv_le_inv₀ (by positivity) (by positivity)] at hinv
  · refine tenPow_le_twoPow_of (a := 3) (b := 10) (by decide) ?_ (hup hk)
    exact zpow_le_zpow_left₀ hk (by norm_num) (by norm_num)

/-- The bound on the decimal logarithm is too large by less than eight. -/
private theorem tenPow_decimalBound_le {mantissa : Nat} {exponent k : Int}
    (h : InRange mantissa exponent)
    (hne : mantissa ≠ 0) (hk : k ≤ decimalBound mantissa exponent - 7) :
    (10 : ℚ) ^ k ≤ mantissa * 2 ^ exponent := by
  have hlog : mantissa.log2 < 53 := (Nat.log2_lt hne).2 h.mantissa
  have hle : (2 : ℚ) ^ (mantissa.log2 : Int) ≤ mantissa := by
    rw [zpow_natCast]
    exact_mod_cast Nat.log2_self_le hne
  have hlow := h.low
  have hhigh := h.high
  rw [decimalBound] at hk
  calc (10 : ℚ) ^ k ≤ 2 ^ (exponent + mantissa.log2) := tenPow_le_twoPow (by omega) (by omega)
    _ = 2 ^ (mantissa.log2 : Int) * 2 ^ exponent := by
        rw [add_comm, zpow_add₀ (by norm_num)]
    _ ≤ mantissa * 2 ^ exponent := by gcongr

/-- The search stops at a power that is not too large, when there is one within its steps. -/
private theorem tenPow_leadingPower_le {mantissa : Nat} {exponent : Int} (fuel : Nat) {start : Int}
    (h : (10 : ℚ) ^ (start - fuel) ≤ mantissa * 2 ^ exponent) :
    (10 : ℚ) ^ leadingPower mantissa exponent fuel start ≤ mantissa * 2 ^ exponent := by
  induction fuel generalizing start with
  | zero => simpa [leadingPower] using h
  | succ fuel ih =>
    rw [leadingPower]
    split
    · rename_i hfits
      exact (tenPow_le_iff mantissa exponent start).2 hfits
    · refine ih ?_
      have hstep : start - 1 - fuel = start - (fuel + 1 : Nat) := by omega
      rwa [hstep]

/-- A magnitude of at least one step of a decimal grid is not rounded to zero on it. -/
private theorem roundDiv_grid_ne_zero {mantissa : Nat} {exponent grid : Int} (mode : Rounding)
    (h : (10 : ℚ) ^ grid ≤ mantissa * 2 ^ exponent) :
    roundDiv mode (mantissa * scaleUp 2 exponent * scaleDown 10 grid)
      (scaleDown 2 exponent * scaleUp 10 grid) ≠ 0 := by
  refine roundDiv_ne_zero mode ?_ ?_
  · exact Nat.mul_pos (scaleDown_pos 2 exponent) (scaleUp_pos 10 grid)
  · rw [Nat.mul_comm (scaleDown 2 exponent)]
    exact (tenPow_le_iff mantissa exponent grid).1 h

theorem any_exponentDigits {mantissa : Nat} {exponent : Int} (h : InRange mantissa exponent)
    (places : Nat) :
    (exponentDigits places mantissa exponent).any isNonzeroDigit = true ↔ mantissa ≠ 0 := by
  by_cases hne : mantissa = 0
  · simp only [exponentDigits, if_pos hne]
    rw [List.any_append, any_pointed]
    exact iff_of_false (by decide) (not_not.2 hne)
  · have hleading := tenPow_leadingPower_le 8
      (tenPow_decimalBound_le (k := decimalBound mantissa exponent - 8) h hne (by omega))
    have hrounded := roundDiv_grid_ne_zero .halfEven (hleading.trans'
      (zpow_le_zpow_right₀ (by norm_num) (Int.sub_le_self _ (Int.natCast_nonneg places))))
    simp only [exponentDigits, if_neg hne]
    rw [List.any_append, any_pointed]
    refine iff_of_true ?_ hne
    split
    -- the digits went up to the next power of ten, which becomes the leading one
    · have hcarried : Nat.pow 10 places ≠ 0 := (Nat.pow_pos (by decide)).ne'
      rw [decide_eq_true hcarried, Bool.true_or]
    · rw [decide_eq_true hrounded, Bool.true_or]

private theorem Basin.onGrid?_ne_zero {b : Basin} (hlow : 0 < b.low) {k : Int} {digits : Nat}
    (h : b.onGrid? k = some digits) : digits ≠ 0 := by
  have hpos : 0 < b.low * (scaleUp 2 b.exponent * scaleDown 10 k) :=
    Nat.mul_pos hlow (Nat.mul_pos (scaleUp_pos 2 _) (scaleDown_pos 10 k))
  rintro rfl
  -- the grid point above the value is a successor, the one below lies in the basin, away from zero
  simp only [Basin.onGrid?] at h
  split_ifs at h with hclosed hbelow _ hbelow
  · rw [Option.some.inj h, Nat.zero_mul] at hbelow
    exact absurd hbelow.1 (Nat.not_le.2 hpos)
  · exact absurd (Option.some.inj h) (Nat.succ_ne_zero _)
  · rw [Option.some.inj h, Nat.zero_mul] at hbelow
    exact absurd hbelow.1 (Nat.not_lt_zero _)
  · exact absurd (Option.some.inj h) (Nat.succ_ne_zero _)

private theorem Basin.coarsest_ne_zero {b : Basin} (hlow : 0 < b.low) {fuel : Nat} {k : Int}
    (h : (10 : ℚ) ^ (k - fuel) ≤ b.value * 2 ^ b.exponent) : (b.coarsest fuel k).digits ≠ 0 := by
  induction fuel generalizing k with
  | zero =>
    -- the last grid takes the value's whole part, so its step has to fit into the value
    rw [Basin.coarsest]
    have hfits := (tenPow_le_iff b.value b.exponent k).1 (by simpa using h)
    rw [Nat.mul_comm] at hfits
    exact (Nat.div_pos hfits (Nat.mul_pos (scaleDown_pos 2 _) (scaleUp_pos 10 k))).ne'
  | succ fuel ih =>
    rw [Basin.coarsest]
    split
    · rename_i digits hgrid
      exact Basin.onGrid?_ne_zero hlow hgrid
    · refine ih ?_
      have hstep : k - 1 - fuel = k - (fuel + 1 : Nat) := by omega
      rwa [hstep]

/-- The basin of a magnitude counts in quarters of its last binary place. -/
theorem Basin.of_value (mantissa : Nat) (exponent : Int) :
    ((of mantissa exponent).value * 2 ^ (of mantissa exponent).exponent : ℚ) =
      mantissa * 2 ^ exponent := by
  simp only [of]
  rw [zpow_sub₀ (by norm_num)]
  push_cast
  ring

private theorem shortest_ne_zero {mantissa : Nat} {exponent : Int} (h : InRange mantissa exponent)
    (hne : mantissa ≠ 0) : (shortest mantissa exponent).digits ≠ 0 := by
  rw [shortest, if_neg hne]
  refine Basin.coarsest_ne_zero ?_ ?_
  · simp only [Basin.of]
    split <;> omega
  · refine le_of_le_of_eq ?_ (Basin.of_value mantissa exponent).symm
    exact tenPow_decimalBound_le h hne (by omega)

private theorem any_positional (d : Decimal) :
    d.positional.any isNonzeroDigit = decide (d.digits ≠ 0) := by
  rw [Decimal.positional]
  split
  · rw [any_digitsOf, decide_eq_decide, Nat.pow_eq]
    simp
  · exact any_pointed _ _

/-- Opened by its definition: rewriting with the equation of `plainMagnitude` would evaluate the
bound on small whole numbers. -/
theorem plainMagnitude_finite (mantissa : Nat) (exponent : Int) :
    plainMagnitude (.finite mantissa exponent) =
      if isSmallWhole mantissa exponent then
        Nat.toDigits 10 (mantissa * scaleUp 2 exponent / scaleDown 2 exponent)
      else (shortest mantissa exponent).positional := rfl

theorem any_plainMagnitude {mantissa : Nat} {exponent : Int} (h : InRange mantissa exponent) :
    (plainMagnitude (.finite mantissa exponent)).any isNonzeroDigit = true ↔ mantissa ≠ 0 := by
  rw [plainMagnitude_finite]
  split
  · rename_i hwhole
    have hexact : mantissa * scaleUp 2 exponent % scaleDown 2 exponent = 0 := by
      rw [isSmallWhole, Bool.and_eq_true, decide_eq_true_eq] at hwhole
      exact hwhole.1
    have hup := scaleUp_pos 2 exponent
    have hdown := scaleDown_pos 2 exponent
    rw [any_toDigits, decide_eq_true_eq, not_iff_not, Nat.div_eq_zero_iff_lt hdown]
    constructor
    · intro hless
      rw [Nat.mod_eq_of_lt hless] at hexact
      exact (Nat.mul_eq_zero.1 hexact).resolve_right hup.ne'
    · rintro rfl
      rwa [Nat.zero_mul]
  · rw [any_positional, decide_eq_true_eq]
    constructor
    · rintro hdigits rfl
      exact hdigits rfl
    · exact shortest_ne_zero h

end TextTemplate.Number
