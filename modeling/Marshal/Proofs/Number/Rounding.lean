import Marshal.Number.Double
import Mathlib.Algebra.Ring.Nat
import Mathlib.Order.Nat

/-!
  Numbers in a wider format.

  A format that is wider than another holds every number of it exactly: the significand only
  moves up by some places (`exact_of_normal`). Rounding does not see by how many, since
  `m · 2 ^ k` and `m` with an exponent that is greater by `k` are the same number
  (`nearest_mul_pow`), and it leaves a number of its own format as it is
  (`nearest_significand`). So a magnitude that is converted to a wider format and back is the
  same one (`convert_convert`).
-/

namespace Marshal

theorem divideEven_one (m : Nat) : divideEven m 1 = m := by
  simp [divideEven, Nat.mod_one]

theorem divideEven_mul_left {k : Nat} (hk : 0 < k) (m n : Nat) :
    divideEven (k * m) (k * n) = divideEven m n := by
  have hlt : k * n < 2 * (k * (m % n)) ↔ n < 2 * (m % n) := by
    rw [Nat.mul_left_comm, Nat.mul_lt_mul_left hk]
  have heq : 2 * (k * (m % n)) = k * n ↔ 2 * (m % n) = n := by
    rw [Nat.mul_left_comm, Nat.mul_right_inj (Nat.pos_iff_ne_zero.1 hk)]
  simp only [divideEven, Nat.mul_div_mul_left m n hk, Nat.mul_mod_mul_left, hlt, heq]

namespace BinaryFormat

variable {f g : BinaryFormat} {m n : Nat} {e : Int}

theorem binade_pos (f : BinaryFormat) : 0 < f.binade := Nat.two_pow_pos _

/-! ### Rounding -/

theorem nearest_zero (f : BinaryFormat) (e : Int) : f.nearest 0 e = 0 := if_pos rfl

theorem log2_mul_pow (hm : m ≠ 0) (k : Nat) : (m * 2 ^ k).log2 = m.log2 + k := by
  have hpos : m * 2 ^ k ≠ 0 := Nat.mul_ne_zero hm (Nat.two_pow_pos k).ne'
  rw [Nat.log2_eq_iff hpos, Nat.pow_add, Nat.add_right_comm, Nat.pow_add]
  exact ⟨Nat.mul_le_mul_right _ (Nat.log2_self_le hm),
    Nat.mul_lt_mul_of_pos_right Nat.lt_log2_self (Nat.two_pow_pos k)⟩

/-- Places that move from the significand to the exponent do not change the number. -/
theorem nearest_mul_pow (f : BinaryFormat) (m k : Nat) (e : Int) :
    f.nearest (m * 2 ^ k) e = f.nearest m (e + k) := by
  by_cases hm : m = 0
  · rw [hm, Nat.zero_mul, nearest_zero, nearest_zero]
  have hpos : m * 2 ^ k ≠ 0 := Nat.mul_ne_zero hm (Nat.two_pow_pos k).ne'
  have hplace : e + ((m * 2 ^ k).log2 : Nat) - f.fractionBits =
      e + k + m.log2 - f.fractionBits := by
    rw [log2_mul_pow hm]
    omega
  simp only [nearest, if_neg hm, if_neg hpos, hplace, Nat.pow_eq]
  generalize max (e + k + m.log2 - f.fractionBits) f.minExponent = place
  -- numerator and denominator share the power of two that the exponent lacks
  obtain ⟨c, hup, hdown⟩ : ∃ c : Nat, k + (e - place).toNat = c + (e + k - place).toNat ∧
      (place - e).toNat = c + (place - (e + k)).toNat :=
    ⟨k + (e - place).toNat - (e + k - place).toNat, by omega, by omega⟩
  have hnum : m * 2 ^ k * 2 ^ (e - place).toNat = 2 ^ c * (m * 2 ^ (e + k - place).toNat) := by
    rw [Nat.mul_assoc, ← Nat.pow_add, hup, Nat.pow_add, Nat.mul_left_comm]
  rw [hnum, hdown, Nat.pow_add, divideEven_mul_left (Nat.two_pow_pos c)]

/-- Where the last place of the format is not above the one of the number, nothing is lost. -/
theorem nearest_of_place_le (hm : m ≠ 0)
    (hplace : max (e + m.log2 - f.fractionBits) f.minExponent = n + f.minExponent)
    (hle : n + f.minExponent ≤ e) :
    f.nearest m e =
      min (n * f.binade + m * 2 ^ (e - (n + f.minExponent)).toNat) f.infinity := by
  have hnone : ((n : Int) + f.minExponent - e).toNat = 0 := by omega
  have hsteps : ((n : Int) + f.minExponent - f.minExponent).toNat = n := by omega
  simp only [nearest, if_neg hm, hplace, hnone, hsteps, Nat.pow_eq, Nat.pow_zero, divideEven_one]

/-! ### Significand and exponent -/

theorem significand_of_normal (hlow : f.binade ≤ m) (hhigh : m < 2 * f.binade) (n : Nat) :
    f.significand (n * f.binade + m) = m := by
  have hnormal : ¬ n * f.binade + m < f.binade := by omega
  have hmod : (n * f.binade + m) % f.binade = m - f.binade := by
    rw [Nat.mul_comm, Nat.mul_add_mod, Nat.mod_eq_sub_mod hlow, Nat.mod_eq_of_lt (by omega)]
  rw [significand, if_neg hnormal, hmod, Nat.add_sub_cancel' hlow]

theorem exponent_of_normal (hlow : f.binade ≤ m) (hhigh : m < 2 * f.binade) (n : Nat) :
    f.exponent (n * f.binade + m) = f.minExponent + n := by
  have hone : m / f.binade = 1 := Nat.div_eq_of_lt_le (by omega) (by omega)
  have hdiv : (n * f.binade + m) / f.binade = n + 1 := by
    rw [Nat.mul_comm, Nat.mul_add_div f.binade_pos, hone]
  rw [exponent, hdiv, Nat.add_sub_cancel]

theorem significand_of_lt (h : m < f.binade) : f.significand m = m := if_pos h

theorem exponent_of_lt (h : m < f.binade) : f.exponent m = f.minExponent := by
  rw [exponent, Nat.div_eq_of_lt h]
  exact Int.add_zero _

/-- A magnitude that is not one of the smallest has a leading bit and some binades below it. -/
theorem exists_normal (h : f.binade ≤ m) :
    ∃ n r, f.binade ≤ r ∧ r < 2 * f.binade ∧ m = n * f.binade + r := by
  refine ⟨m / f.binade - 1, f.binade + m % f.binade, Nat.le_add_right _ _, ?_, ?_⟩
  · have hrest := Nat.mod_lt m f.binade_pos
    omega
  · have hone : 1 ≤ m / f.binade := (Nat.one_le_div_iff f.binade_pos).2 h
    rw [← Nat.add_assoc, ← Nat.succ_mul, Nat.succ_eq_add_one, Nat.sub_add_cancel hone,
      Nat.mul_comm, Nat.div_add_mod]

theorem log2_of_normal (hlow : f.binade ≤ m) (hhigh : m < 2 * f.binade) :
    m.log2 = f.fractionBits := by
  have hpos : m ≠ 0 := Nat.pos_iff_ne_zero.1 (Nat.lt_of_lt_of_le f.binade_pos hlow)
  rw [Nat.log2_eq_iff hpos, Nat.pow_succ, Nat.mul_comm _ 2]
  exact ⟨hlow, hhigh⟩

/-- The number nearest to a magnitude of the format is that magnitude. -/
theorem nearest_significand (h : m < f.infinity) :
    f.nearest (f.significand m) (f.exponent m) = m := by
  by_cases hsmall : m < f.binade
  · rw [significand_of_lt hsmall, exponent_of_lt hsmall]
    by_cases hm : m = 0
    · rw [hm, nearest_zero]
    have hlog : m.log2 < f.fractionBits := (Nat.log2_lt hm).2 hsmall
    rw [nearest_of_place_le (n := 0) hm (by omega) (by omega)]
    simp [Nat.min_eq_left h.le]
  · obtain ⟨n, r, hlow, hhigh, rfl⟩ := exists_normal (Nat.le_of_not_lt hsmall)
    have hr : r ≠ 0 := Nat.pos_iff_ne_zero.1 (Nat.lt_of_lt_of_le f.binade_pos hlow)
    have hlog := log2_of_normal hlow hhigh
    rw [significand_of_normal hlow hhigh, exponent_of_normal hlow hhigh,
      nearest_of_place_le (n := n) hr (by omega) (by omega)]
    simp [Int.add_comm, Nat.min_eq_left h.le]

/-- A number whose significand has few enough bits is held exactly, unless it is too small or
    too great. -/
theorem exact_of_normal (hm : m ≠ 0) (hbits : m.log2 ≤ f.fractionBits)
    (hsmall : f.minExponent + f.fractionBits ≤ e + m.log2)
    (hgreat : e + m.log2 + 2 < f.minExponent + f.fractionBits + (2 ^ f.exponentBits : Nat)) :
    f.nearest m e < f.infinity ∧ ∃ k : Nat,
      f.significand (f.nearest m e) = m * 2 ^ k ∧ f.exponent (f.nearest m e) + k = e := by
  obtain ⟨k, hk⟩ := Nat.exists_eq_add_of_le hbits
  obtain ⟨n, hn⟩ : ∃ n : Nat, e = f.minExponent + n + k := by
    refine ⟨(e + m.log2 - f.fractionBits - f.minExponent).toNat, ?_⟩
    omega
  have hlow : f.binade ≤ m * 2 ^ k := by
    have h := Nat.mul_le_mul_right (2 ^ k) (Nat.log2_self_le hm)
    rwa [← Nat.pow_add, ← hk] at h
  have hhigh : m * 2 ^ k < 2 * f.binade := by
    have h := Nat.mul_lt_mul_of_pos_right (Nat.lt_log2_self (n := m)) (Nat.two_pow_pos k)
    rwa [Nat.pow_succ, Nat.mul_right_comm, ← Nat.pow_add, ← hk, Nat.mul_comm _ 2] at h
  have hfinite : n * f.binade + m * 2 ^ k < f.infinity := by
    have hbinades : n + 2 ≤ 2 ^ f.exponentBits - 1 := by omega
    have h := Nat.mul_le_mul_right f.binade hbinades
    rw [Nat.add_mul] at h
    rw [infinity, Nat.pow_eq]
    omega
  have hnearest : f.nearest m e = n * f.binade + m * 2 ^ k := by
    rw [nearest_of_place_le (n := n) hm (by omega) (by omega), hn]
    have hsteps : (f.minExponent + n + k - (n + f.minExponent)).toNat = k := by omega
    rw [hsteps, Nat.min_eq_left hfinite.le]
  rw [hnearest, significand_of_normal hlow hhigh, exponent_of_normal hlow hhigh]
  exact ⟨hfinite, k, rfl, hn.symm⟩

/-! ### Wider formats -/

/-- Whether a format holds every number of another, and none of them among its smallest. -/
structure Widens (f g : BinaryFormat) : Prop where
  fraction : f.fractionBits ≤ g.fractionBits
  least : g.minExponent + g.fractionBits ≤ f.minExponent
  greatest : f.minExponent + f.fractionBits + (2 ^ f.exponentBits : Nat) <
    g.minExponent + g.fractionBits + (2 ^ g.exponentBits : Nat)

theorem single_widens_double : Widens single double where
  fraction := by decide
  least := by decide
  greatest := by decide

theorem significand_lt (f : BinaryFormat) (m : Nat) : f.significand m < 2 * f.binade := by
  have hrest := Nat.mod_lt m f.binade_pos
  unfold significand
  split <;> omega

theorem log2_significand_le (f : BinaryFormat) (m : Nat) :
    (f.significand m).log2 ≤ f.fractionBits := by
  by_cases hm : f.significand m = 0
  · rw [hm, Nat.log2_zero]
    exact Nat.zero_le _
  · apply Nat.le_of_lt_succ
    rw [Nat.log2_lt hm, Nat.pow_succ, Nat.mul_comm _ 2]
    exact f.significand_lt m

theorem minExponent_le (f : BinaryFormat) (m : Nat) : f.minExponent ≤ f.exponent m := by
  unfold exponent
  omega

theorem exponent_add_two_le (h : m < f.infinity) :
    f.exponent m + 2 ≤ f.minExponent + (2 ^ f.exponentBits : Nat) := by
  have hfields : m / f.binade < 2 ^ f.exponentBits - 1 := (Nat.div_lt_iff_lt_mul f.binade_pos).2 h
  unfold exponent
  generalize m / f.binade = fields at hfields
  omega

theorem significand_eq_zero_iff : f.significand m = 0 ↔ m = 0 := by
  have hbinade := f.binade_pos
  unfold significand
  split <;> omega

theorem Widens.infinity_pos (h : f.Widens g) : 0 < g.infinity := by
  have hfields : 1 ≤ 2 ^ g.exponentBits - 1 := by
    have hpos := Nat.two_pow_pos f.exponentBits
    have hleast := h.least
    have hgreatest := h.greatest
    omega
  exact Nat.mul_pos hfields g.binade_pos

theorem nearest_le_infinity (f : BinaryFormat) (m : Nat) (e : Int) :
    f.nearest m e ≤ f.infinity := by
  unfold nearest
  split
  · exact Nat.zero_le _
  · exact Nat.min_le_right _ _

theorem convert_le_infinity (h : m ≤ f.infinity) : f.convert g m ≤ g.infinity := by
  rcases Nat.eq_or_lt_of_le h with rfl | hfinite
  · rw [convert, if_neg (Nat.lt_irrefl _), if_pos rfl]
  · rw [convert, if_pos hfinite]
    exact nearest_le_infinity g _ _

/-- Converting to a wider format and back changes nothing but what is not a number. -/
theorem convert_convert (h : f.Widens g) (hm : m ≤ f.infinity) :
    g.convert f (f.convert g m) = m := by
  rcases Nat.eq_or_lt_of_le hm with rfl | hfinite
  · have hwide : f.convert g f.infinity = g.infinity := by
      rw [convert, if_neg (Nat.lt_irrefl _), if_pos rfl]
    rw [hwide, convert, if_neg (Nat.lt_irrefl _), if_pos rfl]
  have hwide : f.convert g m = g.nearest (f.significand m) (f.exponent m) := if_pos hfinite
  by_cases hzero : f.significand m = 0
  · rw [hwide, hzero, nearest_zero, convert, if_pos h.infinity_pos,
      significand_of_lt g.binade_pos, nearest_zero, significand_eq_zero_iff.1 hzero]
  have hbits := log2_significand_le f m
  have hlow := minExponent_le f m
  have hhigh := exponent_add_two_le hfinite
  obtain ⟨hexact, k, hsignificand, hexponent⟩ :=
    exact_of_normal (f := g) (e := f.exponent m) hzero (hbits.trans h.fraction)
      (by have := h.least; omega) (by have := h.greatest; omega)
  rw [hwide, convert, if_pos hexact, hsignificand, nearest_mul_pow, hexponent,
    nearest_significand hfinite]

end BinaryFormat

/-! ### Words -/

namespace Double

theorem toNat_ofParts {negative : Bool} {magnitude : Nat}
    (h : magnitude < BinaryFormat.double.signBit) :
    (ofParts negative magnitude).bits.toNat = BinaryFormat.double.pack negative magnitude := by
  have hsize : UInt64.size = 2 * BinaryFormat.double.signBit := rfl
  apply UInt64.toNat_ofNat_of_lt'
  rw [hsize, BinaryFormat.pack]
  split <;> omega

theorem negative_ofParts {negative : Bool} {magnitude : Nat}
    (h : magnitude < BinaryFormat.double.signBit) :
    (ofParts negative magnitude).negative = negative := by
  rw [Double.negative, toNat_ofParts h]
  cases negative <;> simp [BinaryFormat.pack, h]

theorem magnitude_ofParts {negative : Bool} {magnitude : Nat}
    (h : magnitude < BinaryFormat.double.signBit) :
    (ofParts negative magnitude).magnitude = magnitude := by
  rw [Double.magnitude, toNat_ofParts h]
  cases negative <;> simp [BinaryFormat.pack, Nat.mod_eq_of_lt h]

def isNumber (x : Double) : Bool := decide (x.magnitude ≤ BinaryFormat.double.infinity)

end Double

namespace Single

theorem ofParts_negative_magnitude (x : Single) : ofParts x.negative x.magnitude = x := by
  have hword : x.bits.toNat < 2 * BinaryFormat.single.signBit := x.bits.toNat_lt
  have hparts : BinaryFormat.single.pack x.negative x.magnitude = x.bits.toNat := by
    by_cases h : BinaryFormat.single.signBit ≤ x.bits.toNat
    · have hrest : x.magnitude = x.bits.toNat - BinaryFormat.single.signBit := by
        rw [magnitude, Nat.mod_eq_sub_mod h, Nat.mod_eq_of_lt (by omega)]
      simp [BinaryFormat.pack, negative, h, hrest]
    · have hrest : x.magnitude = x.bits.toNat := Nat.mod_eq_of_lt (Nat.lt_of_not_le h)
      simp [BinaryFormat.pack, negative, h, hrest]
  rw [ofParts, hparts]
  simp

/-- Whether a number is one at all: it is finite or infinity. -/
def isNumber (x : Single) : Bool := decide (x.magnitude ≤ BinaryFormat.single.infinity)

theorem convert_lt_signBit {x : Single} (h : x.isNumber) :
    BinaryFormat.single.convert .double x.magnitude < BinaryFormat.double.signBit :=
  Nat.lt_of_le_of_lt (BinaryFormat.convert_le_infinity (of_decide_eq_true h)) (by decide)

theorem isNumber_toDouble {x : Single} (h : x.isNumber) : x.toDouble.isNumber := by
  rw [Double.isNumber, toDouble, Double.magnitude_ofParts (convert_lt_signBit h)]
  exact decide_eq_true (BinaryFormat.convert_le_infinity (of_decide_eq_true h))

/-- A number of single precision is the same after it was one of double precision. -/
theorem ofDouble_toDouble {x : Single} (h : x.isNumber) : ofDouble x.toDouble = x := by
  have hbits := convert_lt_signBit h
  rw [ofDouble, toDouble, Double.negative_ofParts hbits, Double.magnitude_ofParts hbits,
    BinaryFormat.convert_convert BinaryFormat.single_widens_double (of_decide_eq_true h),
    ofParts_negative_magnitude]

end Single

end Marshal
