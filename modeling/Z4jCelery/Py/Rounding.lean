import Z4jCelery.Py.Number
import Mathlib.Tactic.Linarith
import Mathlib.Tactic.Positivity
import Mathlib.Tactic.NormNum
import Mathlib.Tactic.Ring
/-!
# Where binary64 overflows

A rational rounds to a finite float exactly below `DOUBLE_MAX_EXCLUSIVE`,
half a unit in the last place above the largest float.
-/

namespace Z4jCelery.Py

/-- Rounding overflows from here on. -/
def DOUBLE_MAX_EXCLUSIVE : ℚ := 2 ^ 1024 - 2 ^ 970

def PyFloat.isFinite : PyFloat → Prop
  | .finite _ => True
  | .inf _ | .nan => False

/-! ## Rounding to an integer -/

theorem roundHalfEven_cases (q : ℚ) :
    (roundHalfEven q = ⌊q⌋ ∧ q - ⌊q⌋ ≤ 1 / 2) ∨ (roundHalfEven q = ⌊q⌋ + 1 ∧ 1 / 2 ≤ q - ⌊q⌋) := by
  unfold roundHalfEven
  split_ifs with hlt hgt heven
  · exact .inl ⟨rfl, hlt.le⟩
  · exact .inr ⟨rfl, hgt.le⟩
  · exact .inl ⟨rfl, not_lt.1 hgt⟩
  · exact .inr ⟨rfl, not_lt.1 hlt⟩

theorem roundHalfEven_near (q : ℚ) : q - 1 / 2 ≤ roundHalfEven q ∧ (roundHalfEven q : ℚ) ≤ q + 1 / 2 := by
  have hfloor := Int.floor_le q
  have hlt := Int.lt_floor_add_one q
  rcases roundHalfEven_cases q with ⟨h, hq⟩ | ⟨h, hq⟩
  · rw [h]
    constructor <;> linarith
  · rw [h]
    push_cast
    constructor <;> linarith

/-- An even integer takes the tie from below. -/
theorem le_roundHalfEven {n : ℤ} (hn : n % 2 = 0) {q : ℚ} (h : (n : ℚ) - 1 / 2 ≤ q) : n ≤ roundHalfEven q := by
  have hfloor : n - 1 ≤ ⌊q⌋ := by
    rw [Int.le_floor]
    push_cast
    linarith
  unfold roundHalfEven
  split_ifs with hlt hgt heven
  · -- less than half above the floor, so the floor is not `n - 1`
    rcases eq_or_lt_of_le hfloor with he | hl
    · rw [← he] at hlt
      push_cast at hlt
      linarith
    · omega
  · omega
  · omega
  · omega

/-- An even integer takes the tie from above. -/
theorem roundHalfEven_le {n : ℤ} (hn : n % 2 = 0) {q : ℚ} (h : q ≤ n + 1 / 2) : roundHalfEven q ≤ n := by
  have hfloor : ⌊q⌋ ≤ n := by
    rw [← Int.lt_add_one_iff, Int.floor_lt]
    push_cast
    linarith
  unfold roundHalfEven
  split_ifs with hlt hgt heven
  · exact hfloor
  · -- more than half above the floor, so the floor is not `n`
    rcases eq_or_lt_of_le hfloor with he | hl
    · rw [he] at hgt
      linarith
    · omega
  · exact hfloor
  · omega

theorem abs_roundHalfEven_lt {n : ℤ} (hn : n % 2 = 0) (q : ℚ) : |roundHalfEven q| < n ↔ |q| < (n : ℚ) - 1 / 2 := by
  obtain ⟨hlow, hhigh⟩ := roundHalfEven_near q
  rw [abs_lt, abs_lt]
  constructor
  · rintro ⟨hl, hu⟩
    constructor
    · by_contra hq
      have hround := roundHalfEven_le (n := -n) (by omega) (q := q) (by push_cast; linarith)
      omega
    · by_contra hq
      have hround := le_roundHalfEven hn (q := q) (not_lt.1 hq)
      omega
  · rintro ⟨hl, hu⟩
    constructor
    · have hcast : ((-n : ℤ) : ℚ) < roundHalfEven q := by
        push_cast
        linarith
      exact_mod_cast hcast
    · have hcast : (roundHalfEven q : ℚ) < n := by linarith
      exact_mod_cast hcast

/-! ## Rounding to a float -/

/-- The unit in the last place at `q`. -/
def ulp (q : ℚ) : ℚ := 2 ^ max (Int.log 2 |q| - 52) (-1074)

theorem ulp_pos (q : ℚ) : 0 < ulp q := zpow_pos (by norm_num) _

theorem roundDouble_eq (q : ℚ) : roundDouble q =
    if |(roundHalfEven (q / ulp q) : ℚ) * ulp q| < 2 ^ 1024 then .finite (roundHalfEven (q / ulp q) * ulp q)
    else .inf (decide (q < 0)) := rfl

theorem roundDouble_isFinite (q : ℚ) : (roundDouble q).isFinite ↔ |(roundHalfEven (q / ulp q) : ℚ)| * ulp q < 2 ^ 1024 := by
  have habs : |(roundHalfEven (q / ulp q) : ℚ) * ulp q| = |(roundHalfEven (q / ulp q) : ℚ)| * ulp q := by
    rw [abs_mul, abs_of_pos (ulp_pos q)]
  rw [roundDouble_eq, habs]
  split
  · rename_i h
    exact iff_of_true trivial h
  · rename_i h
    exact iff_of_false id h

/-! ## The last binade -/

theorem two_pow_1024 : (2 : ℚ) ^ 1024 = 2 ^ 54 * 2 ^ 970 := by rw [← pow_add]

theorem two_pow_1023 : (2 : ℚ) ^ 1023 = 2 ^ 53 * 2 ^ 970 := by rw [← pow_add]

/-- Within a binade of normal numbers, in units in the last place. -/
theorem isFinite_of_ulp {q : ℚ} {e : ℤ} (he : ulp q = 2 ^ e) {n : ℤ} (hn : n % 2 = 0) (hne : (n : ℚ) * 2 ^ e = 2 ^ 1024) :
    (roundDouble q).isFinite ↔ |q| < 2 ^ 1024 - 2 ^ e / 2 := by
  have hpos : (0 : ℚ) < 2 ^ e := zpow_pos (by norm_num) _
  rw [roundDouble_isFinite, he, ← hne, mul_lt_mul_iff_left₀ hpos, ← Int.cast_abs, Int.cast_lt,
    abs_roundHalfEven_lt hn, abs_div, abs_of_pos hpos, div_lt_iff₀ hpos]
  constructor <;> intro h <;> linarith

theorem ulp_of_binade {q : ℚ} {e : ℤ} (he : -1074 ≤ e) (hlow : (2 : ℚ) ^ (e + 52) ≤ |q|)
    (hhigh : |q| < (2 : ℚ) ^ (e + 53)) : ulp q = 2 ^ e := by
  have hpos : 0 < |q| := lt_of_lt_of_le (zpow_pos (by norm_num) _) hlow
  have hlog : e + 52 ≤ Int.log 2 |q| := (Int.zpow_le_iff_le_log (by norm_num) hpos).1 (by exact_mod_cast hlow)
  have hlog' : Int.log 2 |q| < e + 53 := (Int.lt_zpow_iff_log_lt (by norm_num) hpos).1 (by exact_mod_cast hhigh)
  rw [ulp, max_eq_left (by omega), show Int.log 2 |q| - 52 = e by omega]

/-- Below the last binade the unit in the last place is at most `2 ^ 970`. -/
theorem ulp_le {q : ℚ} (h : |q| < 2 ^ 1023) : ulp q ≤ 2 ^ 970 := by
  have hlog : Int.log 2 |q| < 1023 := by
    rcases (abs_nonneg q).eq_or_lt with hz | hpos
    · rw [← hz, Int.log_zero_right]
      norm_num
    · exact (Int.lt_zpow_iff_log_lt (by norm_num) hpos).1 (by exact_mod_cast h)
  have hexp : max (Int.log 2 |q| - 52) (-1074) ≤ (970 : ℤ) := by omega
  calc ulp q ≤ (2 : ℚ) ^ ((970 : ℕ) : ℤ) := zpow_le_zpow_right₀ (by norm_num) hexp
    _ = 2 ^ 970 := zpow_natCast 2 970

/-- From the first power of two that is not a float, rounding stays above it. -/
theorem not_isFinite_of_le {q : ℚ} (h : 2 ^ 1024 ≤ |q|) : ¬ (roundDouble q).isFinite := by
  have hpos : 0 < |q| := lt_of_lt_of_le (by positivity) h
  obtain ⟨e, he⟩ : ∃ e, Int.log 2 |q| = e + 52 := ⟨Int.log 2 |q| - 52, by omega⟩
  have hlow : (2 : ℚ) ^ (e + 52) ≤ |q| := by
    rw [← he]
    exact_mod_cast Int.zpow_log_le_self (by norm_num) hpos
  have hhigh : |q| < (2 : ℚ) ^ (e + 53) := by
    have hlt := Int.lt_zpow_succ_log_self (b := 2) (by norm_num) |q|
    rw [he, show e + 52 + 1 = e + 53 by omega] at hlt
    exact_mod_cast hlt
  have hlog : (1024 : ℤ) ≤ Int.log 2 |q| := (Int.zpow_le_iff_le_log (by norm_num) hpos).1 (by exact_mod_cast h)
  have hulp : ulp q = 2 ^ e := ulp_of_binade (by omega) hlow hhigh
  have hpos' : (0 : ℚ) < 2 ^ e := zpow_pos (by norm_num) _
  -- the quotient has fifty-three binary digits, and so has its rounding
  have hdigits : ¬ |roundHalfEven (q / ulp q)| < 2 ^ 52 := by
    have hiff := abs_roundHalfEven_lt (n := 2 ^ 52) (by norm_num) (q / ulp q)
    rw [hiff, hulp, abs_div, abs_of_pos hpos', not_lt, le_div_iff₀ hpos']
    rw [zpow_add₀ (by norm_num)] at hlow
    push_cast
    norm_num at hlow ⊢
    exact le_trans (by linarith) hlow
  rw [roundDouble_isFinite, hulp, not_lt]
  have hcast : (2 : ℚ) ^ 52 ≤ |(roundHalfEven (q / ulp q) : ℚ)| := by
    rw [← Int.cast_abs]
    exact_mod_cast not_lt.1 hdigits
  have hexp : (2 : ℚ) ^ ((1024 : ℕ) : ℤ) ≤ 2 ^ (e + 52) := zpow_le_zpow_right₀ (by norm_num) (by push_cast; omega)
  calc (2 : ℚ) ^ 1024 = (2 : ℚ) ^ ((1024 : ℕ) : ℤ) := (zpow_natCast 2 1024).symm
    _ ≤ 2 ^ (e + 52) := hexp
    _ = 2 ^ 52 * 2 ^ e := by
      rw [zpow_add₀ (by norm_num), mul_comm]
      norm_cast
    _ ≤ |(roundHalfEven (q / ulp q) : ℚ)| * 2 ^ e := mul_le_mul_of_nonneg_right hcast hpos'.le
    _ = |(roundHalfEven (q / 2 ^ e) : ℚ)| * 2 ^ e := by rw [hulp]

theorem roundDouble_isFinite_iff (q : ℚ) : (roundDouble q).isFinite ↔ |q| < DOUBLE_MAX_EXCLUSIVE := by
  have hpos970 : (0 : ℚ) < 2 ^ 970 := by positivity
  rw [DOUBLE_MAX_EXCLUSIVE]
  rcases lt_or_ge |q| (2 ^ 1023) with hsmall | hlarge
  · -- the rounding moves by half a unit at most
    have hpos := ulp_pos q
    have hulp := ulp_le hsmall
    have hnear := roundHalfEven_near (q / ulp q)
    have habs : |(roundHalfEven (q / ulp q) : ℚ)| ≤ |q / ulp q| + 1 / 2 := by
      have hself := abs_le.1 (le_refl |q / ulp q|)
      rw [abs_le]
      constructor <;> linarith
    have hmul : |(roundHalfEven (q / ulp q) : ℚ)| * ulp q ≤ |q| + ulp q / 2 := by
      calc |(roundHalfEven (q / ulp q) : ℚ)| * ulp q ≤ (|q / ulp q| + 1 / 2) * ulp q :=
            mul_le_mul_of_nonneg_right habs hpos.le
        _ = |q| + ulp q / 2 := by
          rw [abs_div, abs_of_pos hpos, add_mul, div_mul_cancel₀ _ hpos.ne', one_div_mul_eq_div]
    rw [two_pow_1023] at hsmall
    rw [roundDouble_isFinite, two_pow_1024]
    generalize (2 : ℚ) ^ 970 = p at hsmall hulp hpos970 ⊢
    exact iff_of_true (by linarith) (by linarith)
  · rcases lt_or_ge |q| (2 ^ 1024) with hlast | hover
    · have h971 : (2 : ℚ) ^ (971 : ℤ) = 2 * 2 ^ 970 := (zpow_natCast 2 971).trans (pow_succ' 2 970)
      have hulp : ulp q = 2 ^ (971 : ℤ) := by
        refine ulp_of_binade (by norm_num) ?_ ?_
        · exact (zpow_natCast 2 1023).trans_le hlarge
        · exact hlast.trans_eq (zpow_natCast 2 1024).symm
      have hlast' : ((2 ^ 53 : ℤ) : ℚ) * 2 ^ (971 : ℤ) = 2 ^ 1024 := by
        rw [h971, two_pow_1024]
        generalize (2 : ℚ) ^ 970 = p
        push_cast
        ring
      rw [isFinite_of_ulp hulp (n := 2 ^ 53) (by norm_num) hlast', h971, mul_div_cancel_left₀ _ (by norm_num)]
    · have hbelow : (2 : ℚ) ^ 1024 - 2 ^ 970 ≤ 2 ^ 1024 := sub_le_self _ hpos970.le
      exact iff_of_false (not_isFinite_of_le hover) (not_lt.2 (hbelow.trans hover))

end Z4jCelery.Py
