import Mathlib.Algebra.Order.Floor.Ring
import Mathlib.Data.Rat.Floor
import Mathlib.Tactic.FieldSimp
import Mathlib.Tactic.Linarith
import Mathlib.Tactic.Positivity

/-! Quotients of integers keep a distance from the integers they are not equal to,
so that a small error does not change their floor. Nothing here depends on a program. -/
namespace NearInteger

variable {K : Type*} [Field K] [LinearOrder K] [IsStrictOrderedRing K]

/-- Below the next integer there is room for one more `1 / b`. -/
theorem quotient_gap_above {a b : ℤ} (hb : 0 < b) : (a : K) / b + 1 / b ≤ (a / b : ℤ) + 1 := by
  have hbK : (0 : K) < b := by exact_mod_cast hb
  -- the remainder is at most `b - 1`
  have hlt : a + 1 ≤ (a / b + 1) * b := by
    have hmod := Int.emod_lt_of_pos a hb
    have hdiv := Int.mul_ediv_add_emod a b
    nlinarith
  have hltK : (a : K) + 1 ≤ ((a / b : ℤ) + 1) * b := by exact_mod_cast hlt
  calc (a : K) / b + 1 / b = (a + 1) / b := by rw [add_div]
    _ ≤ (a / b : ℤ) + 1 := (div_le_iff₀ hbK).mpr hltK

theorem quotient_gap_below {a b : ℤ} (hb : 0 < b) (hnot : ¬b ∣ a) :
    ((a / b : ℤ) : K) + 1 / b ≤ (a : K) / b := by
  have hbK : (0 : K) < b := by exact_mod_cast hb
  -- the remainder is at least 1
  have hle : (a / b) * b + 1 ≤ a := by
    have hmod := Int.emod_nonneg a hb.ne'
    have hne : a % b ≠ 0 := fun h => hnot (Int.dvd_of_emod_eq_zero h)
    have hdiv := Int.mul_ediv_add_emod a b
    nlinarith [lt_of_le_of_ne hmod hne.symm]
  have hleK : ((a / b : ℤ) : K) * b + 1 ≤ a := by exact_mod_cast hle
  calc ((a / b : ℤ) : K) + 1 / b = (((a / b : ℤ) : K) * b + 1) / b := by
        field_simp
    _ ≤ (a : K) / b := by gcongr

/-- A rounding that is exact on integers and whose relative error is less than one
part in the numerator does not carry a quotient up to or across an integer. -/
theorem floor_rounded_quotient [FloorRing K] {a b : ℤ} (hb : 0 < b) {ε r : K}
    (hε : |(a : K)| * ε < 1)
    (hexact : b ∣ a → r = a / b) (hrel : |r - a / b| ≤ |(a : K) / b| * ε) : ⌊r⌋ = a / b := by
  have hbK : (0 : K) < b := by exact_mod_cast hb
  rw [Int.floor_eq_iff]
  by_cases hdvd : b ∣ a
  · have hr : r = (a / b : ℤ) := by rw [hexact hdvd, Int.cast_div hdvd hbK.ne']
    rw [hr]
    constructor <;> linarith
  -- the error is smaller than the distance kept on either side
  · have herr : |r - a / b| < 1 / b := by
      calc |r - a / b| ≤ |(a : K) / b| * ε := hrel
        _ = |(a : K)| * ε / b := by rw [abs_div, abs_of_pos hbK]; ring
        _ < 1 / b := by gcongr
    have hlo := quotient_gap_below (K := K) hb hdvd
    have hhi := quotient_gap_above (K := K) (a := a) hb
    obtain ⟨hneg, hpos⟩ := abs_lt.mp herr
    constructor <;> linarith

end NearInteger
