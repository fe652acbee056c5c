import Marshal.Number.Integer
import Marshal.Proofs.Number.Rounding
import Mathlib.Algebra.Order.Field.Power
import Mathlib.Tactic.FieldSimp
import Mathlib.Tactic.Linarith
import Mathlib.Tactic.NormNum
import Mathlib.Tactic.Positivity
import Mathlib.Tactic.Ring

/-!
  The number nearest to an integer.

  A finite magnitude stands for the rational number `value`. Numbers with one last place form a
  row: in units of that place they are the whole numbers from one power of two to the next, and
  rounding divides by the place (`nearest_eq_row`). A whole number nearest to the quotient is
  nearest among the row, and no number below the row comes closer than its lowest one, so
  rounding ends at the magnitude that is nearest of all, and at the even one of two
  (`isNearest_nearest`). With the sign this makes an integer the double nearest to it
  (`Double.isNearest_ofInt`).
-/

namespace Marshal

/-! ### Whole numbers -/

section Division

variable {m n k : Nat}

/-- Division to the nearest number misses the quotient by one half at most, and by one half only
    where the result is even. -/
theorem divideEven_error (hn : 0 < n) (m : Nat) :
    |(divideEven m n : ℚ) - m / n| < 1 / 2 ∨
      |(divideEven m n : ℚ) - m / n| = 1 / 2 ∧ divideEven m n % 2 = 0 := by
  have hpos : (0 : ℚ) < n := Nat.cast_pos.2 hn
  have hquotient : (m : ℚ) / n = (m / n : Nat) + (m % n : Nat) / n := by
    rw [div_eq_iff hpos.ne', add_mul, div_mul_cancel₀ _ hpos.ne', mul_comm]
    exact_mod_cast (Nat.div_add_mod m n).symm
  have hless : ((m % n : Nat) : ℚ) / n < 1 := by
    rw [div_lt_one hpos]
    exact_mod_cast Nat.mod_lt m hn
  have hhalf : 2 * (m % n) = n → ((m % n : Nat) : ℚ) / n = 1 / 2 := by
    intro h
    rw [div_eq_div_iff hpos.ne' two_ne_zero, one_mul, mul_comm]
    exact_mod_cast h
  have hnonneg : (0 : ℚ) ≤ (m % n : Nat) / n := by positivity
  rw [hquotient]
  simp only [divideEven]
  split
  · next hup =>
    push_cast
    rcases hup with hmore | ⟨heq, hodd⟩
    · have hmore' : (1 : ℚ) / 2 < (m % n : Nat) / n := by
        rw [div_lt_div_iff₀ two_pos hpos]
        exact_mod_cast (by omega : 1 * n < m % n * 2)
      left
      rw [abs_lt]
      constructor <;> linarith
    · right
      rw [hhalf heq]
      refine ⟨?_, by omega⟩
      rw [abs_of_nonneg] <;> linarith
  · next hdown =>
    rcases Nat.lt_or_eq_of_le (Nat.le_of_not_lt (not_or.1 hdown).1) with hsmall | heq
    · have hsmall' : ((m % n : Nat) : ℚ) / n < 1 / 2 := by
        rw [div_lt_div_iff₀ hpos two_pos]
        exact_mod_cast (by omega : m % n * 2 < 1 * n)
      left
      rw [abs_lt]
      constructor <;> linarith
    · right
      rw [hhalf heq]
      refine ⟨?_, by omega⟩
      rw [abs_of_nonpos] <;> linarith

/-- Two whole numbers are one apart at least, so both cannot be nearer than one half. -/
theorem one_le_distance (h : k ≠ n) (q : ℚ) : 1 ≤ |(k : ℚ) - q| + |(n : ℚ) - q| := by
  have hone : (1 : ℚ) ≤ |(k : ℚ) - n| := by
    have hint : (1 : ℤ) ≤ |(k : ℤ) - n| := Int.one_le_abs (by omega)
    exact_mod_cast hint
  have htriangle := abs_sub_le (k : ℚ) q n
  rw [abs_sub_comm q] at htriangle
  linarith

/-- No whole number is nearer to the quotient. -/
theorem divideEven_closest (hn : 0 < n) (m k : Nat) :
    |(divideEven m n : ℚ) - m / n| ≤ |(k : ℚ) - m / n| := by
  by_cases h : k = divideEven m n
  · rw [h]
  · have hapart := one_le_distance h (m / n)
    rcases divideEven_error hn m with hless | ⟨hhalf, -⟩ <;> linarith

theorem divideEven_le (hn : 0 < n) (h : (m / n : ℚ) ≤ k) : divideEven m n ≤ k := by
  have hclosest := divideEven_closest hn m k
  rw [abs_of_nonneg (sub_nonneg.2 h)] at hclosest
  have hbound := (abs_le.1 hclosest).2
  exact_mod_cast (by linarith : (divideEven m n : ℚ) ≤ k)

theorem le_divideEven (hn : 0 < n) (h : (k : ℚ) ≤ m / n) : k ≤ divideEven m n := by
  have hclosest := divideEven_closest hn m k
  rw [abs_of_nonpos (sub_nonpos.2 h)] at hclosest
  have hbound := (abs_le.1 hclosest).1
  exact_mod_cast (by linarith : (k : ℚ) ≤ divideEven m n)

theorem divideEven_even_of_tie (hn : 0 < n) (h : k ≠ divideEven m n)
    (htie : |(k : ℚ) - m / n| = |(divideEven m n : ℚ) - m / n|) : divideEven m n % 2 = 0 := by
  have hapart := one_le_distance h (m / n)
  rcases divideEven_error hn m with hless | ⟨-, heven⟩
  · linarith
  · exact heven

end Division

namespace BinaryFormat

variable {f : BinaryFormat} {m n k : Nat} {e : Int}

/-! ### The number of a magnitude -/

/-- The number that a finite magnitude stands for. -/
def value (f : BinaryFormat) (magnitude : Nat) : ℚ :=
  f.significand magnitude * 2 ^ f.exponent magnitude

theorem value_zero (f : BinaryFormat) : f.value 0 = 0 := by
  rw [value, significand_of_lt f.binade_pos, Nat.cast_zero, zero_mul]

theorem value_nonneg (f : BinaryFormat) (m : Nat) : 0 ≤ f.value m := by
  unfold value
  positivity

/-- A significand that carries into the next binade stands for the same number there. -/
theorem value_of_row (hhigh : m ≤ 2 * f.binade) (hlow : n = 0 ∨ f.binade ≤ m) :
    f.value (n * f.binade + m) = m * 2 ^ (f.minExponent + n) := by
  rcases Nat.lt_or_ge m f.binade with hsmall | hnormal
  · rcases hlow with rfl | hlow
    · rw [Nat.zero_mul, Nat.zero_add, value, significand_of_lt hsmall, exponent_of_lt hsmall,
        Nat.cast_zero, add_zero]
    · omega
  · rcases Nat.lt_or_eq_of_le hhigh with hless | rfl
    · rw [value, significand_of_normal hnormal hless, exponent_of_normal hnormal hless]
    · have hcarry : n * f.binade + 2 * f.binade = (n + 1) * f.binade + f.binade := by ring
      have hless : f.binade < 2 * f.binade := by
        have hpos := f.binade_pos
        omega
      rw [hcarry, value, significand_of_normal le_rfl hless, exponent_of_normal le_rfl hless]
      push_cast
      rw [← add_assoc, zpow_add_one₀ two_ne_zero]
      ring

/-- The numbers with the last place of a row, or a greater one, are multiples of that place. -/
theorem exists_value_eq_mul (h : n ≤ k / f.binade - 1) :
    ∃ j : Nat, f.value k = j * 2 ^ (f.minExponent + n) := by
  obtain ⟨above, habove⟩ := Nat.exists_eq_add_of_le h
  refine ⟨f.significand k * 2 ^ above, ?_⟩
  rw [value, exponent, habove]
  push_cast
  rw [← add_assoc, zpow_add₀ two_ne_zero _ (above : ℤ), zpow_natCast]
  ring

/-- The numbers with a smaller last place lie below all numbers of the row. -/
theorem value_lt_of_row_lt (h : k / f.binade - 1 < n) :
    f.value k < f.binade * 2 ^ (f.minExponent + n) := by
  have hhigh : (f.significand k : ℚ) < 2 * f.binade := by
    exact_mod_cast f.significand_lt k
  have hexponent : f.exponent k + 1 ≤ f.minExponent + n := by
    unfold exponent
    omega
  calc
    f.value k < 2 * f.binade * 2 ^ f.exponent k :=
      mul_lt_mul_of_pos_right hhigh (by positivity)
    _ = f.binade * 2 ^ (f.exponent k + 1) := by
      rw [zpow_add_one₀ two_ne_zero]
      ring
    _ ≤ f.binade * 2 ^ (f.minExponent + n) :=
      mul_le_mul_of_nonneg_left (zpow_le_zpow_right₀ one_le_two hexponent) (by positivity)

/-! ### The nearest magnitude -/

/-- Whether a finite magnitude is the one nearest to a number, and an even one where another is
    as near. -/
structure IsNearest (f : BinaryFormat) (q : ℚ) (magnitude : Nat) : Prop where
  finite : magnitude < f.infinity
  closest : ∀ k < f.infinity, |f.value magnitude - q| ≤ |f.value k - q|
  even : ∀ k < f.infinity, f.value k ≠ f.value magnitude →
    |f.value k - q| = |f.value magnitude - q| → magnitude % 2 = 0

theorem isNearest_zero (h : 0 < f.infinity) : f.IsNearest 0 0 where
  finite := h
  closest k _ := by
    rw [value_zero, sub_zero, abs_zero]
    exact abs_nonneg _
  even _ _ _ _ := rfl

theorem IsNearest.value_eq_zero (h : f.IsNearest 0 k) : f.value k = 0 := by
  have hclosest := h.closest 0 (Nat.zero_lt_of_lt h.finite)
  rw [value_zero, sub_zero, sub_zero, abs_zero] at hclosest
  exact abs_eq_zero.1 (le_antisymm hclosest (abs_nonneg _))

theorem value_lt_succ (f : BinaryFormat) (k : Nat) : f.value k < f.value (k + 1) := by
  obtain ⟨n, m, hk, hlow, hhigh⟩ :
      ∃ n m, k = n * f.binade + m ∧ (n = 0 ∨ f.binade ≤ m) ∧ m < 2 * f.binade := by
    rcases Nat.lt_or_ge k f.binade with hsmall | hnormal
    · exact ⟨0, k, by omega, .inl rfl, by omega⟩
    · obtain ⟨n, m, hlow, hhigh, hk⟩ := exists_normal hnormal
      exact ⟨n, m, hk, .inr hlow, hhigh⟩
  have hplace : (0 : ℚ) < 2 ^ (f.minExponent + n) := by positivity
  have hsucc : n = 0 ∨ f.binade ≤ m + 1 := hlow.imp_right fun h => h.trans (Nat.le_succ m)
  rw [hk, Nat.add_assoc, value_of_row hhigh.le hlow, value_of_row hhigh hsucc]
  push_cast
  linarith

/-- Finite magnitudes are ordered like the numbers that they stand for. -/
theorem value_strictMono (f : BinaryFormat) : StrictMono f.value :=
  strictMono_nat_of_lt_succ f.value_lt_succ

/-- Two magnitudes that are equally near are even, and an odd one between them is nearer. -/
theorem IsNearest.not_lt {q : ℚ} (hk : f.IsNearest q k) (hn : f.IsNearest q n) : ¬ k < n := by
  intro hless
  have hvalue := f.value_strictMono hless
  have htie := le_antisymm (hk.closest n hn.finite) (hn.closest k hk.finite)
  have hkeven := hk.even n hn.finite hvalue.ne' htie.symm
  have hneven := hn.even k hk.finite hvalue.ne htie
  have hbetween : k + 1 < n := by omega
  have hlow := f.value_strictMono (Nat.lt_succ_self k)
  have hhigh := f.value_strictMono hbetween
  have hmiddle : f.value k - q = -(f.value n - q) := by
    rcases abs_eq_abs.1 htie with hsame | hopposite
    · linarith
    · exact hopposite
  have hfar := hk.closest (k + 1) (hbetween.trans hn.finite)
  rw [abs_of_neg (by linarith)] at hfar
  rcases le_abs.1 hfar with h | h <;> linarith

theorem IsNearest.unique {q : ℚ} (hk : f.IsNearest q k) (hn : f.IsNearest q n) : k = n :=
  Nat.le_antisymm (Nat.le_of_not_lt (hn.not_lt hk)) (Nat.le_of_not_lt (hk.not_lt hn))

theorem two_zpow_eq_div (d : ℤ) : (2 : ℚ) ^ d.toNat / 2 ^ (-d).toNat = 2 ^ d := by
  rcases Int.le_total 0 d with h | h
  · obtain ⟨j, rfl⟩ := Int.eq_ofNat_of_zero_le h
    simp
  · obtain ⟨j, hj⟩ := Int.eq_ofNat_of_zero_le (Int.neg_nonneg_of_nonpos h)
    have hd : d = -(j : ℤ) := by omega
    rw [hd]
    simp

/-- Rounding divides by the last place that the format has for the number. -/
theorem nearest_eq_row (hm : m ≠ 0) (e : Int) :
    ∃ n numerator denominator : Nat, 0 < denominator ∧
      (n : Int) = max (e + m.log2 - f.fractionBits - f.minExponent) 0 ∧
      f.nearest m e = min (n * f.binade + divideEven numerator denominator) f.infinity ∧
      (m * 2 ^ e : ℚ) = numerator / denominator * 2 ^ (f.minExponent + n) ∧
      (numerator / denominator : ℚ) < 2 * f.binade ∧
      (n = 0 ∨ (f.binade : ℚ) ≤ numerator / denominator) := by
  obtain ⟨place, hplace⟩ : ∃ place, place = max (e + m.log2 - f.fractionBits) f.minExponent :=
    ⟨_, rfl⟩
  have hrow : f.minExponent + ((place - f.minExponent).toNat : ℤ) = place := by omega
  have hscaled : ((m * 2 ^ (e - place).toNat : Nat) : ℚ) / (2 ^ (place - e).toNat : Nat) =
      m * 2 ^ (e - place) := by
    have hneg : place - e = -(e - place) := by ring
    push_cast
    rw [mul_div_assoc, hneg, two_zpow_eq_div]
  refine ⟨(place - f.minExponent).toNat, m * 2 ^ (e - place).toNat, 2 ^ (place - e).toNat,
    Nat.two_pow_pos _, by omega, ?_, ?_, ?_, ?_⟩
  · simp only [nearest, if_neg hm, ← hplace, Nat.pow_eq]
  · rw [hscaled, hrow, mul_assoc, ← zpow_add₀ two_ne_zero, sub_add_cancel]
  · have hbits : (m : ℚ) < 2 ^ (m.log2 + 1 : ℤ) := by
      exact_mod_cast Nat.lt_log2_self (n := m)
    rw [hscaled]
    calc
      (m : ℚ) * 2 ^ (e - place) < 2 ^ (m.log2 + 1 : ℤ) * 2 ^ (e - place) :=
        mul_lt_mul_of_pos_right hbits (by positivity)
      _ = 2 ^ (m.log2 + 1 + (e - place)) := (zpow_add₀ two_ne_zero _ _).symm
      _ ≤ 2 ^ (f.fractionBits + 1 : ℤ) := zpow_le_zpow_right₀ one_le_two (by omega)
      _ = 2 * f.binade := by
        rw [zpow_add_one₀ two_ne_zero, zpow_natCast, binade, Nat.pow_eq, mul_comm]
        push_cast
        rfl
  · by_cases hleast : (place - f.minExponent).toNat = 0
    · exact .inl hleast
    · right
      have hexact : place = e + m.log2 - f.fractionBits := by omega
      have hbits : ((2 ^ m.log2 : Nat) : ℚ) ≤ m := by
        exact_mod_cast Nat.log2_self_le hm
      rw [hscaled]
      calc
        (f.binade : ℚ) = 2 ^ (f.fractionBits : ℤ) := by
          rw [zpow_natCast, binade, Nat.pow_eq]
          push_cast
          rfl
        _ = 2 ^ (m.log2 : ℤ) * 2 ^ (e - place) := by
          rw [← zpow_add₀ two_ne_zero, hexact]
          congr 1
          ring
        _ ≤ m * 2 ^ (e - place) := by
          apply mul_le_mul_of_nonneg_right _ (by positivity)
          rw [zpow_natCast]
          exact_mod_cast hbits

/-- Numbers of one row are as far apart as their significands, in units of the last place. -/
theorem abs_sub_mul {u : ℚ} (hu : 0 < u) (x q : ℚ) : |x * u - q * u| = |x - q| * u := by
  rw [← sub_mul, abs_mul, abs_of_pos hu]

/-- A number below the row is farther away than the lowest one of the row. -/
theorem abs_sub_lt_of_row_lt {q : ℚ} (h : k / f.binade - 1 < n) (hq : f.binade ≤ q) :
    |(f.binade : ℚ) - q| * 2 ^ (f.minExponent + n) <
      |f.value k - q * 2 ^ (f.minExponent + n)| := by
  have hplace : (0 : ℚ) < 2 ^ (f.minExponent + n) := by positivity
  have hless := value_lt_of_row_lt h
  have hle := mul_le_mul_of_nonneg_right hq hplace.le
  rw [← abs_sub_mul hplace, abs_of_nonpos (by linarith), abs_of_nonpos (by linarith)]
  linarith

/-- Rounding ends at the nearest magnitude, at the even one of two. -/
theorem isNearest_nearest (hbits : 0 < f.fractionBits) (h : f.nearest m e < f.infinity) :
    f.IsNearest (m * 2 ^ e) (f.nearest m e) := by
  by_cases hm : m = 0
  · rw [hm, nearest_zero] at h
    rw [hm, nearest_zero, Nat.cast_zero, zero_mul]
    exact isNearest_zero h
  obtain ⟨n, numerator, denominator, hpos, -, hmin, hnumber, hhigh, hlow⟩ :=
    nearest_eq_row (f := f) hm e
  have hnearest : f.nearest m e = n * f.binade + divideEven numerator denominator := by omega
  have hplace : (0 : ℚ) < 2 ^ (f.minExponent + n) := by positivity
  have hvalue : f.value (f.nearest m e) =
      divideEven numerator denominator * 2 ^ (f.minExponent + n) := by
    rw [hnearest]
    apply value_of_row
    · apply divideEven_le hpos
      push_cast
      exact hhigh.le
    · exact hlow.imp_right (le_divideEven hpos)
  have hbelow : ∀ k, ¬ n ≤ k / f.binade - 1 →
      |f.value (f.nearest m e) - m * 2 ^ e| < |f.value k - m * 2 ^ e| := by
    intro k hk
    have hbinade : (f.binade : ℚ) ≤ numerator / denominator := hlow.resolve_left (by omega)
    rw [hvalue, hnumber, abs_sub_mul hplace]
    apply lt_of_le_of_lt _ (abs_sub_lt_of_row_lt (Nat.lt_of_not_le hk) hbinade)
    exact mul_le_mul_of_nonneg_right (divideEven_closest hpos _ _) hplace.le
  refine ⟨h, ?_, ?_⟩
  · intro k _
    by_cases hk : n ≤ k / f.binade - 1
    · obtain ⟨j, hj⟩ := exists_value_eq_mul hk
      rw [hvalue, hnumber, hj, abs_sub_mul hplace, abs_sub_mul hplace]
      exact mul_le_mul_of_nonneg_right (divideEven_closest hpos _ _) hplace.le
    · exact (hbelow k hk).le
  · intro k _ hne htie
    by_cases hk : n ≤ k / f.binade - 1
    · obtain ⟨j, hj⟩ := exists_value_eq_mul hk
      rw [hvalue, hnumber, hj, abs_sub_mul hplace, abs_sub_mul hplace] at htie
      have hother : j ≠ divideEven numerator denominator := by
        rintro rfl
        exact hne (hj.trans hvalue.symm)
      have heven := divideEven_even_of_tie hpos hother (mul_right_cancel₀ hplace.ne' htie)
      have hbinade : f.binade % 2 = 0 := by
        rw [binade, Nat.pow_eq]
        exact Nat.mod_eq_zero_of_dvd (dvd_pow_self 2 hbits.ne')
      rw [hnearest, Nat.add_mod, Nat.mul_mod, hbinade, heven, Nat.mul_zero]
    · exact absurd htie (hbelow k hk).ne'

/-- A number well below the greatest one of the format is not rounded to infinity. -/
theorem nearest_lt_infinity (hexponent : 3 < 2 ^ f.exponentBits)
    (h : e + m.log2 + 3 < f.minExponent + f.fractionBits + (2 ^ f.exponentBits : Nat)) :
    f.nearest m e < f.infinity := by
  have hbinade := f.binade_pos
  by_cases hm : m = 0
  · rw [hm, nearest_zero]
    exact Nat.mul_pos (by rw [Nat.pow_eq]; omega) hbinade
  obtain ⟨n, numerator, denominator, hpos, hn, hmin, -, hhigh, -⟩ :=
    nearest_eq_row (f := f) hm e
  have hrounded : divideEven numerator denominator ≤ 2 * f.binade := by
    apply divideEven_le hpos
    push_cast
    exact hhigh.le
  have hrows : (n + 3) * f.binade ≤ f.infinity := by
    apply Nat.mul_le_mul_right
    rw [Nat.pow_eq]
    omega
  have hthree : (n + 3) * f.binade = n * f.binade + 2 * f.binade + f.binade := by ring
  omega

/-- What the format can hold is not changed by rounding. -/
theorem value_nearest_of_normal (hm : m ≠ 0) (hbits : m.log2 ≤ f.fractionBits)
    (hsmall : f.minExponent + f.fractionBits ≤ e + m.log2)
    (hgreat : e + m.log2 + 2 < f.minExponent + f.fractionBits + (2 ^ f.exponentBits : Nat)) :
    f.value (f.nearest m e) = m * 2 ^ e := by
  obtain ⟨-, j, hsignificand, hexponent⟩ := exact_of_normal hm hbits hsmall hgreat
  have hplaces : (2 : ℚ) ^ e = 2 ^ j * 2 ^ f.exponent (f.nearest m e) := by
    rw [← zpow_natCast, ← zpow_add₀ two_ne_zero, add_comm, hexponent]
  rw [value, hsignificand, hplaces, Nat.cast_mul, Nat.cast_pow, Nat.cast_ofNat, mul_assoc]

end BinaryFormat

/-! ### Integers as doubles -/

namespace Double

def isFinite (x : Double) : Bool := decide (x.magnitude < BinaryFormat.double.infinity)

/-- The number that a finite double stands for. -/
def value (x : Double) : ℚ :=
  if x.negative then -BinaryFormat.double.value x.magnitude
  else BinaryFormat.double.value x.magnitude

/-- Whether a double is the finite one nearest to a number, and an even one where another is as
    near. Zero is positive. -/
structure IsNearest (q : ℚ) (x : Double) : Prop where
  finite : x.isFinite
  closest : ∀ y : Double, y.isFinite → |x.value - q| ≤ |y.value - q|
  even : ∀ y : Double, y.isFinite → y.value ≠ x.value → |y.value - q| = |x.value - q| →
    x.magnitude % 2 = 0
  negative_iff : x.negative ↔ q < 0

theorem abs_value (x : Double) : |x.value| = BinaryFormat.double.value x.magnitude := by
  unfold value
  split
  · rw [abs_neg, abs_of_nonneg (BinaryFormat.value_nonneg _ _)]
  · rw [abs_of_nonneg (BinaryFormat.value_nonneg _ _)]

theorem value_ofParts {negative : Bool} {k : Nat} (h : k < BinaryFormat.double.signBit) :
    (ofParts negative k).value =
      if negative then -BinaryFormat.double.value k else BinaryFormat.double.value k := by
  rw [value, negative_ofParts h, magnitude_ofParts h]

theorem eq_of_parts {x y : Double} (hnegative : x.negative = y.negative)
    (hmagnitude : x.magnitude = y.magnitude) : x = y := by
  have hword : ∀ z : Double, z.bits.toNat =
      (if z.negative then BinaryFormat.double.signBit else 0) + z.magnitude := by
    intro z
    have hbits : z.bits.toNat < 2 * BinaryFormat.double.signBit := z.bits.toNat_lt
    by_cases h : BinaryFormat.double.signBit ≤ z.bits.toNat
    · rw [negative, if_pos (decide_eq_true h), magnitude, Nat.mod_eq_sub_mod h,
        Nat.mod_eq_of_lt (by omega)]
      omega
    · rw [negative, if_neg (by simpa using h), magnitude, Nat.mod_eq_of_lt (Nat.lt_of_not_le h)]
      omega
  have hbits : x.bits = y.bits := by
    rw [← UInt64.toNat_inj, hword x, hword y, hnegative, hmagnitude]
  cases x
  cases y
  exact congrArg Double.mk hbits

section Distance

variable {x : Double} {q : ℚ}

/-- Numbers of one sign are as far apart as their magnitudes. -/
theorem abs_value_sub (hsign : x.negative ↔ q < 0) :
    |x.value - q| = |BinaryFormat.double.value x.magnitude - (|q|)| := by
  unfold value
  by_cases hq : q < 0
  · rw [if_pos (hsign.2 hq), abs_of_neg hq, ← abs_neg]
    congr 1
    ring
  · rw [if_neg (mt hsign.1 hq), abs_of_nonneg (not_lt.1 hq)]

/-- The sign of a number does not take its magnitude away from the target. -/
theorem abs_magnitude_sub_le (x : Double) (q : ℚ) :
    |BinaryFormat.double.value x.magnitude - (|q|)| ≤ |x.value - q| := by
  rw [← abs_value]
  exact abs_abs_sub_abs_le_abs_sub x.value q

/-- A number and its negative are equally near to zero only. -/
theorem eq_zero_of_abs_neg_sub_eq {r : ℚ} (h : |-r - q| = |r - q|) : r = 0 ∨ q = 0 := by
  rcases abs_eq_abs.1 h with hsame | hopposite
  · left
    linarith
  · right
    linarith

/-- The nearest double has the sign of the number and the nearest magnitude. -/
theorem isNearest_iff (hsign : x.negative ↔ q < 0) :
    x.IsNearest q ↔ BinaryFormat.double.IsNearest |q| x.magnitude := by
  constructor
  · intro h
    have hother : ∀ k < BinaryFormat.double.infinity, ∃ y : Double, y.isFinite ∧
        |y.value| = BinaryFormat.double.value k ∧
        |y.value - q| = |BinaryFormat.double.value k - (|q|)| := by
      intro k hk
      have hbits : k < BinaryFormat.double.signBit := Nat.lt_trans hk (by decide)
      have hmagnitude : (ofParts x.negative k).magnitude = k := magnitude_ofParts hbits
      have hdistance := abs_value_sub (x := ofParts x.negative k) (q := q)
        (by rw [negative_ofParts hbits, hsign])
      rw [hmagnitude] at hdistance
      refine ⟨ofParts x.negative k, ?_, ?_, hdistance⟩
      · rw [isFinite, hmagnitude]
        exact decide_eq_true hk
      · rw [abs_value, hmagnitude]
    refine ⟨of_decide_eq_true h.finite, ?_, ?_⟩
    · intro k hk
      obtain ⟨y, hy, -, hdistance⟩ := hother k hk
      rw [← abs_value_sub hsign, ← hdistance]
      exact h.closest y hy
    · intro k hk hne htie
      obtain ⟨y, hy, habs, hdistance⟩ := hother k hk
      rw [← abs_value_sub hsign, ← hdistance] at htie
      apply h.even y hy _ htie
      intro hsame
      rw [← habs, hsame, abs_value] at hne
      exact hne rfl
  · intro h
    refine ⟨decide_eq_true h.finite, ?_, ?_, hsign⟩
    · intro y hy
      rw [abs_value_sub hsign]
      exact (h.closest _ (of_decide_eq_true hy)).trans (abs_magnitude_sub_le y q)
    · intro y hy hne htie
      have hclosest := h.closest _ (of_decide_eq_true hy)
      by_cases hsame : |y.value| = |x.value|
      · -- only the sign differs, so the number is zero and has no other nearest one
        exfalso
        have hopposite := (abs_eq_abs.1 hsame).resolve_left hne
        have hzero : x.value = 0 := by
          rw [hopposite] at htie
          rcases eq_zero_of_abs_neg_sub_eq htie with hx | rfl
          · exact hx
          · rw [abs_zero] at h
            rw [← abs_eq_zero, abs_value]
            exact h.value_eq_zero
        rw [hzero, neg_zero] at hopposite
        exact hne (hopposite.trans hzero.symm)
      · rw [abs_value, abs_value] at hsame
        apply h.even _ (of_decide_eq_true hy) hsame
        have hother := abs_magnitude_sub_le y q
        rw [htie, abs_value_sub hsign] at hother
        exact le_antisymm hother hclosest

theorem IsNearest.unique {y : Double} (hx : x.IsNearest q) (hy : y.IsNearest q) : x = y := by
  have hsign : x.negative = y.negative := by
    rw [Bool.eq_iff_iff, hx.negative_iff, hy.negative_iff]
  have hmagnitude := (isNearest_iff hx.negative_iff).1 hx
  exact eq_of_parts hsign (hmagnitude.unique ((isNearest_iff hy.negative_iff).1 hy))

end Distance

theorem double_least_normal :
    BinaryFormat.double.minExponent + BinaryFormat.double.fractionBits = -1022 := by decide

theorem double_fields : 2 ^ BinaryFormat.double.exponentBits = 2048 := rfl

theorem nearest_lt_infinity_of_lt {m : Nat} (h : m < 2 ^ 64) :
    BinaryFormat.double.nearest m 0 < BinaryFormat.double.infinity := by
  have hlog : m.log2 ≤ 64 := by
    by_cases hm : m = 0
    · rw [hm]
      decide
    · exact ((Nat.log2_lt hm).2 h).le
  apply BinaryFormat.nearest_lt_infinity (by decide)
  rw [double_least_normal, double_fields]
  omega

/-- An integer becomes the double nearest to it. -/
theorem isNearest_ofInt {n : Int} (h : n.natAbs < 2 ^ 64) : IsNearest n (ofInt n) := by
  have hfinite := nearest_lt_infinity_of_lt h
  have hbits := Nat.lt_trans hfinite (by decide : _ < BinaryFormat.double.signBit)
  have hnearest := BinaryFormat.isNearest_nearest (f := .double) (by decide) hfinite
  rw [zpow_zero, mul_one, Nat.cast_natAbs, Int.cast_abs] at hnearest
  rw [isNearest_iff, ofInt, magnitude_ofParts hbits]
  · exact hnearest
  · rw [ofInt, negative_ofParts hbits, decide_eq_true_iff, Int.cast_lt_zero]

/-- Whole numbers up to the first one of fifty-four bits are not rounded. -/
theorem value_nearest_of_le {m : Nat} (h : m ≤ 2 ^ 53) :
    BinaryFormat.double.value (BinaryFormat.double.nearest m 0) = m := by
  rcases Nat.eq_zero_or_pos m with rfl | hpos
  · rw [BinaryFormat.nearest_zero, BinaryFormat.value_zero, Nat.cast_zero]
  rcases Nat.lt_or_eq_of_le h with hless | rfl
  · have hlog : m.log2 < 53 := (Nat.log2_lt hpos.ne').2 hless
    have hexact : BinaryFormat.double.value (BinaryFormat.double.nearest m 0) =
        m * 2 ^ (0 : ℤ) := by
      apply BinaryFormat.value_nearest_of_normal hpos.ne' (Nat.le_of_lt_succ hlog)
      · rw [double_least_normal]
        omega
      · rw [double_least_normal, double_fields]
        omega
    rw [hexact, zpow_zero, mul_one]
  · rw [← Nat.one_mul (2 ^ 53), BinaryFormat.nearest_mul_pow,
      BinaryFormat.value_nearest_of_normal one_ne_zero (by decide) (by decide) (by decide)]
    norm_num

theorem value_ofInt {n : Int} (h : n.natAbs ≤ 2 ^ 53) : (ofInt n).value = n := by
  have hfinite := nearest_lt_infinity_of_lt (Nat.lt_of_le_of_lt h (by decide))
  rw [ofInt, value_ofParts (Nat.lt_trans hfinite (by decide)), value_nearest_of_le h,
    Nat.cast_natAbs, Int.cast_abs]
  by_cases hn : n < 0
  · rw [if_pos (decide_eq_true hn), abs_of_neg (Int.cast_lt_zero.2 hn), neg_neg]
  · rw [if_neg (by simpa using hn), abs_of_nonneg (Int.cast_nonneg (not_lt.1 hn))]

/-- The double nearest to an integer of at most fifty-three bits is that integer. -/
theorem IsNearest.value_eq {n : Int} {x : Double} (hx : IsNearest n x) (h : n.natAbs ≤ 2 ^ 53) :
    x.value = n := by
  have hexact := value_ofInt h
  have hclosest := hx.closest _ (isNearest_ofInt (Nat.lt_of_le_of_lt h (by decide))).finite
  rw [hexact, sub_self, abs_zero] at hclosest
  exact sub_eq_zero.1 (abs_eq_zero.1 (le_antisymm hclosest (abs_nonneg _)))

end Double

theorem Integer.natAbs_val_lt (n : Integer) : n.val.natAbs < 2 ^ 64 := by
  obtain ⟨c, k, h⟩ := n
  cases c <;>
    simp [IntType.Contains, IntType.lo, IntType.hi, IntType.signed, IntType.modulus,
      IntType.width] at h ⊢ <;> omega

/-- The double nearest to an integer is the one that the integer becomes. -/
theorem eq_ofInt_of_isNearest {n : Integer} {x : Double} (h : x.IsNearest n.val) :
    x = .ofInt n.val :=
  h.unique (Double.isNearest_ofInt n.natAbs_val_lt)

end Marshal
