import Mathlib

/-!
# Rounding to a binary format

Numbers with a fixed number of significant bits and a least exponent. A result is
rounded to the nearest such number, and to the one with an even last bit if two are
equally near. Numbers too large for the format are not covered: the exponent has no
upper bound here.
-/
namespace CardPang.BinaryRounding

/-- The nearest integer, the even one of two that are equally near. -/
def roundEven (x : ℚ) : ℤ :=
  if Int.fract x < 1 / 2 then ⌊x⌋
  else if 1 / 2 < Int.fract x then ⌊x⌋ + 1
  else if ⌊x⌋ % 2 = 0 then ⌊x⌋
  else ⌊x⌋ + 1

theorem roundEven_intCast (n : ℤ) : roundEven n = n := by
  simp [roundEven]

theorem abs_roundEven_sub_le (x : ℚ) : |(roundEven x : ℚ) - x| ≤ 1 / 2 := by
  have hx := Int.floor_add_fract x
  have hnonneg := Int.fract_nonneg x
  have hlt := Int.fract_lt_one x
  unfold roundEven
  rw [abs_le]
  split_ifs <;> push_cast <;> constructor <;> linarith

theorem roundEven_nonneg {x : ℚ} (hx : 0 ≤ x) : 0 ≤ roundEven x := by
  have hfloor : 0 ≤ ⌊x⌋ := Int.floor_nonneg.mpr hx
  unfold roundEven
  split_ifs <;> omega

structure Format where
  precision : ℕ
  minExponent : ℤ
  deriving DecidableEq, Repr

/-- Swift's `Float`. -/
def float32 : Format := ⟨24, -149⟩

/-- The exponent of the last bit of a number of this size. -/
def Format.exponent (f : Format) (x : ℚ) : ℤ :=
  max (Int.log 2 |x| + 1 - f.precision) f.minExponent

def Format.round (f : Format) (x : ℚ) : ℚ :=
  roundEven (x / 2 ^ f.exponent x) * 2 ^ f.exponent x

variable {f : Format} {x : ℚ}

theorem Format.exponent_le {e : ℤ} (he : f.minExponent ≤ e) (hne : x ≠ 0)
    (hx : |x| < 2 ^ (e + f.precision)) : f.exponent x ≤ e := by
  have hlog : Int.log 2 |x| < e + f.precision :=
    (Int.lt_zpow_iff_log_lt (by norm_num) (abs_pos.mpr hne)).mp (by exact_mod_cast hx)
  unfold Format.exponent
  omega

theorem Format.round_nonneg (hx : 0 ≤ x) : 0 ≤ f.round x := by
  have hround : 0 ≤ roundEven (x / 2 ^ f.exponent x) := roundEven_nonneg (by positivity)
  have hcast : (0 : ℚ) ≤ roundEven (x / 2 ^ f.exponent x) := by exact_mod_cast hround
  exact mul_nonneg hcast (by positivity)

/-- A number of the format is not changed. -/
theorem Format.round_of_mul {k e : ℤ} (he : f.minExponent ≤ e)
    (hk : |(k : ℚ) * 2 ^ e| < 2 ^ (e + f.precision)) : f.round (k * 2 ^ e) = k * 2 ^ e := by
  rcases eq_or_ne k 0 with rfl | hne
  · simp [Format.round, roundEven]
  · have hx : (k : ℚ) * 2 ^ e ≠ 0 := by positivity
    have hle := Format.exponent_le he hx hk
    unfold Format.round
    generalize f.exponent ((k : ℚ) * 2 ^ e) = q at hle
    obtain ⟨d, rfl⟩ := Int.le.dest hle
    -- In units of its last bit the number is an integer.
    have hunits : (k : ℚ) * 2 ^ (q + d) / 2 ^ q = ((k * 2 ^ d : ℤ) : ℚ) := by
      rw [zpow_add₀ (by norm_num), zpow_natCast]
      push_cast
      field_simp
    rw [hunits, roundEven_intCast, ← hunits, div_mul_cancel₀]
    positivity

theorem Format.round_intCast {n : ℤ} (he : f.minExponent ≤ 0) (hn : |n| < 2 ^ f.precision) :
    f.round n = n := by
  have hround := Format.round_of_mul (f := f) (k := n) (e := 0) he (by
    rw [zpow_zero, mul_one, zero_add, zpow_natCast]
    exact_mod_cast hn)
  rwa [zpow_zero, mul_one] at hround

/-- A result is off by at most half a unit of its last bit. -/
theorem Format.abs_round_sub_le {e : ℤ} (he : f.minExponent ≤ e) (hx : |x| < 2 ^ (e + f.precision)) :
    |f.round x - x| ≤ 2 ^ e / 2 := by
  rcases eq_or_ne x 0 with rfl | hne
  · have hzero : f.round 0 = 0 := by simp [Format.round, roundEven]
    rw [hzero, sub_zero, abs_zero]
    positivity
  · have hle := Format.exponent_le he hne hx
    have hq : (0 : ℚ) < 2 ^ f.exponent x := by positivity
    have hpow : (2 : ℚ) ^ f.exponent x ≤ 2 ^ e := zpow_le_zpow_right₀ (by norm_num) hle
    have hscale : f.round x - x =
        (roundEven (x / 2 ^ f.exponent x) - x / 2 ^ f.exponent x) * 2 ^ f.exponent x := by
      rw [sub_mul, div_mul_cancel₀ x hq.ne']
      rfl
    rw [hscale, abs_mul, abs_of_pos hq]
    calc
      _ ≤ 1 / 2 * 2 ^ f.exponent x :=
        mul_le_mul_of_nonneg_right (abs_roundEven_sub_le _) hq.le
      _ ≤ 2 ^ e / 2 := by linarith

end CardPang.BinaryRounding
