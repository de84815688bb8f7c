import Mathlib.Algebra.Order.Field.Power
import Mathlib.Data.Nat.Log
import Mathlib.Tactic.FieldSimp
import Mathlib.Tactic.Linarith
import Mathlib.Tactic.Positivity
import MkCompiler.Numeral.Shortest

/-!
# Rounding

What rounding does to a fraction depends on the value of the fraction only, and a value that is a
binary number rounds to itself. The same holds for decimals.
-/

namespace MkCompiler

/-- Powers of a base greater than one leave room for one exponent below a value. -/
theorem zpow_exponent_unique {b v : ℚ} (hb : 1 < b) {i j : Int} (hi : b ^ i ≤ v)
    (hi' : v < b ^ (i + 1)) (hj : b ^ j ≤ v) (hj' : v < b ^ (j + 1)) : i = j := by
  have hij : i < j + 1 := (zpow_lt_zpow_iff_right₀ hb).mp (hi.trans_lt hj')
  have hji : j < i + 1 := (zpow_lt_zpow_iff_right₀ hb).mp (hj.trans_lt hi')
  omega

namespace Binary64

def ratio (num den : Nat) : ℚ :=
  num / den

theorem ratio_eq_iff {num den num' den' : Nat} (hden : den ≠ 0) (hden' : den' ≠ 0) :
    ratio num den = ratio num' den' ↔ num * den' = num' * den := by
  unfold ratio
  have hd : (den : ℚ) ≠ 0 := by exact_mod_cast hden
  have hd' : (den' : ℚ) ≠ 0 := by exact_mod_cast hden'
  rw [div_eq_div_iff hd hd']
  exact_mod_cast Iff.rfl

theorem scaleDown_den {den : Nat} (hden : den ≠ 0) (num : Nat) (e : Int) :
    (scaleDown num den e).2 ≠ 0 := by
  unfold scaleDown
  split
  · exact Nat.mul_ne_zero hden (Nat.pow_pos (by decide)).ne'
  · exact hden

theorem ratio_scaleDown (num den : Nat) (e : Int) :
    ratio (scaleDown num den e).1 (scaleDown num den e).2 = ratio num den / 2 ^ e := by
  unfold scaleDown ratio
  split
  · next he =>
    obtain ⟨n, rfl⟩ := Int.eq_ofNat_of_zero_le he
    simp only [Nat.pow_eq, Int.toNat_natCast, zpow_natCast]
    push_cast
    rw [div_div]
  · next he =>
    obtain ⟨n, hn⟩ := Int.eq_ofNat_of_zero_le (show 0 ≤ -e by omega)
    have he' : e = -(n : Int) := by omega
    subst he'
    simp only [Nat.pow_eq, Int.neg_neg, Int.toNat_natCast, zpow_neg, zpow_natCast]
    push_cast
    field_simp

theorem lt_iff_ratio_lt_one {num den : Nat} (hden : den ≠ 0) : num < den ↔ ratio num den < 1 := by
  have hd : (0 : ℚ) < den := by exact_mod_cast Nat.pos_of_ne_zero hden
  rw [ratio, div_lt_one hd]
  exact_mod_cast Iff.rfl

/-- The logarithms of numerator and denominator determine that of the fraction up to one. -/
theorem ratio_bounds {num den : Nat} (hnum : num ≠ 0) (hden : den ≠ 0) :
    (2 : ℚ) ^ ((num.log2 : Int) - den.log2 - 1) ≤ ratio num den ∧
      ratio num den < 2 ^ ((num.log2 : Int) - den.log2 + 1) := by
  have hn : ((2 : ℚ) ^ num.log2) ≤ num := by exact_mod_cast Nat.log2_self_le hnum
  have hn' : (num : ℚ) < 2 ^ (num.log2 + 1) := by exact_mod_cast Nat.lt_log2_self
  have hd : ((2 : ℚ) ^ den.log2) ≤ den := by exact_mod_cast Nat.log2_self_le hden
  have hd' : (den : ℚ) < 2 ^ (den.log2 + 1) := by exact_mod_cast Nat.lt_log2_self
  have hpos : (0 : ℚ) < den := by exact_mod_cast Nat.pos_of_ne_zero hden
  have htwo : (2 : ℚ) ≠ 0 := by norm_num
  constructor
  · rw [ratio, le_div_iff₀ hpos]
    calc (2 : ℚ) ^ ((num.log2 : Int) - den.log2 - 1) * den
        ≤ 2 ^ ((num.log2 : Int) - den.log2 - 1) * 2 ^ (den.log2 + 1) := by gcongr
      _ = 2 ^ num.log2 := by
        rw [← zpow_natCast, ← zpow_natCast, ← zpow_add₀ htwo]
        congr 1
        push_cast
        omega
      _ ≤ num := hn
  · rw [ratio, div_lt_iff₀ hpos]
    calc (num : ℚ) < 2 ^ (num.log2 + 1) := hn'
      _ = 2 ^ ((num.log2 : Int) - den.log2 + 1) * 2 ^ den.log2 := by
        rw [← zpow_natCast, ← zpow_natCast, ← zpow_add₀ htwo]
        congr 1
        push_cast
        omega
      _ ≤ 2 ^ ((num.log2 : Int) - den.log2 + 1) * den := by gcongr

theorem floorLog2_spec {num den : Nat} (hnum : num ≠ 0) (hden : den ≠ 0) :
    (2 : ℚ) ^ floorLog2 num den ≤ ratio num den ∧
      ratio num den < 2 ^ (floorLog2 num den + 1) := by
  obtain ⟨hlow, hhigh⟩ := ratio_bounds hnum hden
  have hlt : (scaleDown num den ((num.log2 : Int) - den.log2)).1 <
      (scaleDown num den ((num.log2 : Int) - den.log2)).2 ↔
        ratio num den < 2 ^ ((num.log2 : Int) - den.log2) := by
    rw [lt_iff_ratio_lt_one (scaleDown_den hden _ _), ratio_scaleDown, div_lt_one (by positivity)]
  unfold floorLog2
  dsimp only
  split
  · next h =>
    refine ⟨hlow, ?_⟩
    rw [Int.sub_add_cancel]
    exact hlt.mp h
  · next h => exact ⟨not_lt.mp fun h' => h (hlt.mpr h'), hhigh⟩

theorem floorLog2_eq {num den : Nat} (hnum : num ≠ 0) (hden : den ≠ 0) {e : Int}
    (hlow : (2 : ℚ) ^ e ≤ ratio num den) (hhigh : ratio num den < 2 ^ (e + 1)) :
    floorLog2 num den = e :=
  zpow_exponent_unique (by norm_num) (floorLog2_spec hnum hden).1 (floorLog2_spec hnum hden).2
    hlow hhigh

def workExponent (num den : Nat) : Int :=
  max leastExponent (floorLog2 num den - 52)

/-- The fraction, scaled to an exponent and rounded to an integer. -/
def significandAt (num den : Nat) (e : Int) : Nat :=
  roundHalfEven (scaleDown num den e).1 (scaleDown num den e).2

theorem round?_eq {num den : Nat} (hnum : num ≠ 0) {m : Nat} {e : Int}
    (he : workExponent num den = e) (hm : significandAt num den e = m) :
    round? num den =
      if m = 2 ^ 53 then
        if greatestExponent < e + 1 then none else some (2 ^ 52, e + 1)
      else
        if greatestExponent < e then none else some (m, e) := by
  subst he hm
  unfold round?
  rw [if_neg hnum]
  simp only [Nat.pow_eq]
  unfold significandAt workExponent
  split <;> rfl

/-! ## Dependence on the value -/

theorem roundHalfEven_mul {k : Nat} (hk : k ≠ 0) (num den : Nat) :
    roundHalfEven (k * num) (k * den) = roundHalfEven num den := by
  have hpos : 0 < k := Nat.pos_of_ne_zero hk
  have hless : 2 * (k * (num % den)) < k * den ↔ 2 * (num % den) < den := by
    rw [Nat.mul_left_comm]
    exact Nat.mul_lt_mul_left hpos
  have hmore : k * den < 2 * (k * (num % den)) ↔ den < 2 * (num % den) := by
    rw [Nat.mul_left_comm]
    exact Nat.mul_lt_mul_left hpos
  unfold roundHalfEven
  simp only [Nat.mul_div_mul_left _ _ hpos, Nat.mul_mod_mul_left, hless, hmore]

theorem roundHalfEven_congr {num den num' den' : Nat} (hden : den ≠ 0) (hden' : den' ≠ 0)
    (h : ratio num den = ratio num' den') : roundHalfEven num den = roundHalfEven num' den' := by
  rw [ratio_eq_iff hden hden'] at h
  calc roundHalfEven num den = roundHalfEven (den' * num) (den' * den) :=
        (roundHalfEven_mul hden' num den).symm
    _ = roundHalfEven (den * num') (den * den') := by
        rw [Nat.mul_comm den' num, h, Nat.mul_comm num' den, Nat.mul_comm den' den]
    _ = roundHalfEven num' den' := roundHalfEven_mul hden num' den'

theorem roundHalfEven_eq {num den m : Nat} (hden : den ≠ 0) (h : ratio num den = m) :
    roundHalfEven num den = m := by
  have hone : ratio num den = ratio m 1 := by
    rw [h, ratio]
    simp
  rw [roundHalfEven_congr hden Nat.one_ne_zero hone]
  simp [roundHalfEven, Nat.mod_one]

/-- Rounding depends on the value of a fraction only. -/
theorem round?_congr {num den num' den' : Nat} (hden : den ≠ 0) (hden' : den' ≠ 0)
    (h : ratio num den = ratio num' den') : round? num den = round? num' den' := by
  have hzero : num = 0 ↔ num' = 0 := by
    rw [ratio_eq_iff hden hden'] at h
    constructor
    · rintro rfl
      rw [Nat.zero_mul] at h
      exact (Nat.mul_eq_zero.mp h.symm).resolve_right hden
    · rintro rfl
      rw [Nat.zero_mul] at h
      exact (Nat.mul_eq_zero.mp h).resolve_right hden'
  by_cases hnum : num = 0
  · rw [round?, round?, if_pos hnum, if_pos (hzero.mp hnum)]
  · have hnum' : num' ≠ 0 := fun h' => hnum (hzero.mpr h')
    have hwork : workExponent num den = workExponent num' den' := by
      obtain ⟨hlow, hhigh⟩ := floorLog2_spec hnum' hden'
      rw [← h] at hlow hhigh
      rw [workExponent, workExponent, floorLog2_eq hnum hden hlow hhigh]
    have hsignificand (e : Int) : significandAt num den e = significandAt num' den' e := by
      refine roundHalfEven_congr (scaleDown_den hden _ _) (scaleDown_den hden' _ _) ?_
      rw [ratio_scaleDown, ratio_scaleDown, h]
    rw [round?_eq hnum hwork (hsignificand _), round?_eq hnum' rfl rfl]

/-! ## Binary numbers -/

/-- The significands and exponents of binary numbers. -/
structure Canonical (m : Nat) (e : Int) : Prop where
  significand_lt : m < 2 ^ 53
  least_le : leastExponent ≤ e
  le_greatest : e ≤ greatestExponent
  normal : 2 ^ 52 ≤ m ∨ e = leastExponent

theorem canonical_zero : Canonical 0 leastExponent :=
  ⟨by decide, Int.le_refl _, by decide, .inr rfl⟩

theorem roundHalfEven_bounds (num den : Nat) :
    num / den ≤ roundHalfEven num den ∧ roundHalfEven num den ≤ num / den + 1 := by
  unfold roundHalfEven
  dsimp only
  split
  · omega
  · split
    · omega
    · split <;> omega

/-- Scaled to the exponent that rounding works with, a fraction lies below the significands with 54
bits, and above those with 52 bits unless the exponent is the least. -/
theorem scaleDown_bounds {num den : Nat} {e : Int} (hnum : num ≠ 0) (hden : den ≠ 0)
    (he : workExponent num den = e) :
    (scaleDown num den e).1 / (scaleDown num den e).2 < 2 ^ 53 ∧
      (e ≠ leastExponent → 2 ^ 52 ≤ (scaleDown num den e).1 / (scaleDown num den e).2) := by
  obtain ⟨hlow, hhigh⟩ := floorLog2_spec hnum hden
  have hd := scaleDown_den hden num e
  have hdpos : (0 : ℚ) < (scaleDown num den e).2 := by exact_mod_cast Nat.pos_of_ne_zero hd
  have hvalue := ratio_scaleDown num den e
  rw [ratio] at hvalue
  unfold workExponent at he
  constructor
  · rw [Nat.div_lt_iff_lt_mul (Nat.pos_of_ne_zero hd)]
    have hbound : ((scaleDown num den e).1 : ℚ) / (scaleDown num den e).2 < 2 ^ 53 := by
      rw [hvalue, div_lt_iff₀ (by positivity)]
      calc ratio num den < 2 ^ (floorLog2 num den + 1) := hhigh
        _ ≤ 2 ^ (53 + e) := zpow_le_zpow_right₀ (by norm_num) (by omega)
        _ = 2 ^ 53 * 2 ^ e := by
          rw [zpow_add₀ (by norm_num)]
          norm_cast
    rw [div_lt_iff₀ hdpos] at hbound
    exact_mod_cast hbound
  · intro hne
    rw [Nat.le_div_iff_mul_le (Nat.pos_of_ne_zero hd)]
    have hbound : 2 ^ 52 ≤ ((scaleDown num den e).1 : ℚ) / (scaleDown num den e).2 := by
      rw [hvalue, le_div_iff₀ (by positivity)]
      calc (2 : ℚ) ^ 52 * 2 ^ e = 2 ^ (52 + e) := by
            rw [zpow_add₀ (by norm_num)]
            norm_cast
        _ = 2 ^ floorLog2 num den := by
          congr 1
          omega
        _ ≤ ratio num den := hlow
    rw [le_div_iff₀ hdpos] at hbound
    exact_mod_cast hbound

theorem round?_canonical {num den m : Nat} {e : Int} (hden : den ≠ 0)
    (h : round? num den = some (m, e)) : Canonical m e := by
  by_cases hnum : num = 0
  · rw [round?, if_pos hnum] at h
    obtain ⟨rfl, rfl⟩ := Prod.mk.inj (Option.some.inj h)
    exact canonical_zero
  · have hleast : leastExponent ≤ workExponent num den := Int.le_max_left _ _
    obtain ⟨hupper, hlower⟩ := scaleDown_bounds hnum hden rfl
    have hround := (roundHalfEven_bounds (scaleDown num den (workExponent num den)).1
      (scaleDown num den (workExponent num den)).2).1
    have hround' : significandAt num den (workExponent num den) ≤ _ + 1 :=
      (roundHalfEven_bounds _ _).2
    rw [round?_eq hnum rfl rfl] at h
    -- A significand of 54 bits is a power of two, which is halved.
    split at h
    · split at h
      · cases h
      · next hgreatest =>
        obtain ⟨rfl, rfl⟩ := Prod.mk.inj (Option.some.inj h)
        exact ⟨by decide, by omega, Int.not_lt.mp hgreatest, .inl (Nat.le_refl _)⟩
    · next hne =>
      split at h
      · cases h
      · next hgreatest =>
        obtain ⟨rfl, rfl⟩ := Prod.mk.inj (Option.some.inj h)
        refine ⟨by omega, hleast, Int.not_lt.mp hgreatest, ?_⟩
        by_cases he : workExponent num den = leastExponent
        · exact .inr he
        · exact .inl ((hlower he).trans hround)

theorem floorLog2_exact {num den m : Nat} {e : Int} (hnum : num ≠ 0) (hden : den ≠ 0)
    (hm : m ≠ 0) (hvalue : ratio num den = m * 2 ^ e) : floorLog2 num den = m.log2 + e := by
  have htwo : (2 : ℚ) ≠ 0 := by norm_num
  have hlow : ((2 : ℚ) ^ m.log2) ≤ m := by exact_mod_cast Nat.log2_self_le hm
  have hhigh : (m : ℚ) < 2 ^ (m.log2 + 1) := by exact_mod_cast Nat.lt_log2_self
  refine floorLog2_eq hnum hden ?_ ?_
  · rw [hvalue, zpow_add₀ htwo, zpow_natCast]
    gcongr
  · rw [hvalue, show (m.log2 : Int) + e + 1 = ((m.log2 + 1 : Nat) : Int) + e by omega,
      zpow_add₀ htwo, zpow_natCast]
    gcongr

theorem round?_exact {num den m : Nat} {e : Int} (hden : den ≠ 0) (hc : Canonical m e)
    (hvalue : ratio num den = m * 2 ^ e) : round? num den = some (m, e) := by
  obtain ⟨hlt, hleast, hgreatest, hnormal⟩ := hc
  by_cases hm : m = 0
  · subst hm
    have hnum : num = 0 := by
      have hzero : ratio num den = ratio 0 1 := by
        rw [hvalue, ratio]
        simp
      rw [ratio_eq_iff hden Nat.one_ne_zero] at hzero
      omega
    obtain rfl : e = leastExponent := hnormal.resolve_left (by decide)
    rw [round?, if_pos hnum]
  · have hnum : num ≠ 0 := by
      rintro rfl
      have hm' : (m : ℚ) ≠ 0 := by exact_mod_cast hm
      have hzero : (m : ℚ) * 2 ^ e = 0 := by
        rw [← hvalue, ratio]
        simp
      exact (mul_ne_zero hm' (zpow_ne_zero e (by norm_num))) hzero
    have hlog := floorLog2_exact hnum hden hm hvalue
    have hlog52 : m.log2 ≤ 52 := by
      have := (Nat.log2_lt hm).mpr hlt
      omega
    have hwork : workExponent num den = e := by
      rw [workExponent, hlog]
      rcases hnormal with hnormal | rfl
      · have : 52 ≤ m.log2 := (Nat.le_log2 hm).mpr hnormal
        omega
      · omega
    have hsignificand : significandAt num den e = m := by
      refine roundHalfEven_eq (scaleDown_den hden _ _) ?_
      rw [ratio_scaleDown, hvalue]
      field_simp
    rw [round?_eq hnum hwork hsignificand, if_neg hlt.ne, if_neg (Int.not_lt.mpr hgreatest)]

end Binary64

/-! ## Decimals -/

namespace Numeral

open Binary64

/-- The number of digits of a positive integer lies behind its logarithm. -/
theorem width_bounds {m : Nat} (hm : m ≠ 0) :
    (10 : ℚ) ^ (((Nat.toDigits 10 m).length : Int) - 1) ≤ m ∧
      (m : ℚ) < 10 ^ ((Nat.toDigits 10 m).length : Int) := by
  have hpos : 0 < (Nat.toDigits 10 m).length := Nat.length_toDigits_pos
  constructor
  · obtain ⟨w, hw⟩ := Nat.exists_eq_add_of_lt hpos
    rw [Nat.zero_add] at hw
    rw [hw, show ((w + 1 : Nat) : Int) - 1 = w by omega, zpow_natCast]
    have hle : 10 ^ w ≤ m := by
      by_cases hzero : w = 0
      · subst hzero
        exact Nat.pos_of_ne_zero hm
      · refine Nat.not_lt.mp fun hlt => ?_
        have := (Nat.length_toDigits_le_iff (by decide) (Nat.pos_of_ne_zero hzero)).mpr hlt
        omega
    exact_mod_cast hle
  · rw [zpow_natCast]
    have hlt : m < 10 ^ (Nat.toDigits 10 m).length :=
      (Nat.length_toDigits_le_iff (by decide) hpos).mp (Nat.le_refl _)
    exact_mod_cast hlt

/-- The order of magnitude of a decimal. -/
theorem decimal_bounds {m : Nat} (hm : m ≠ 0) (e : Int) :
    (10 : ℚ) ^ ((Nat.toDigits 10 m).length + e - 1) ≤ m * 10 ^ e ∧
      (m : ℚ) * 10 ^ e < 10 ^ ((Nat.toDigits 10 m).length + e) := by
  obtain ⟨hlow, hhigh⟩ := width_bounds hm
  have hten : (10 : ℚ) ≠ 0 := by norm_num
  constructor
  · rw [show ((Nat.toDigits 10 m).length : Int) + e - 1 =
      ((Nat.toDigits 10 m).length - 1) + e by omega, zpow_add₀ hten]
    gcongr
  · rw [zpow_add₀ hten]
    gcongr

theorem roundDecimal?_eq_round? {m num den : Nat} {e : Int} (hm : m ≠ 0)
    (hlow : ¬((Nat.toDigits 10 m).length : Int) + e < -330)
    (hhigh : ¬310 < ((Nat.toDigits 10 m).length : Int) + e) (hden : den ≠ 0)
    (h : ratio num den = m * 10 ^ e) : roundDecimal? m e = round? num den := by
  unfold roundDecimal?
  rw [if_neg (by simp [hm, hlow]), if_neg hhigh]
  split
  · next he =>
    obtain ⟨n, rfl⟩ := Int.eq_ofNat_of_zero_le he
    refine round?_congr Nat.one_ne_zero hden ?_
    rw [h, ratio]
    simp
  · next he =>
    obtain ⟨n, hn⟩ := Int.eq_ofNat_of_zero_le (show 0 ≤ -e by omega)
    obtain rfl : e = -(n : Int) := by omega
    refine round?_congr (Nat.pow_pos (by decide)).ne' hden ?_
    rw [h, ratio]
    simp [div_eq_mul_inv]

theorem exists_ratio_eq (m : Nat) (e : Int) :
    ∃ num den, den ≠ 0 ∧ ratio num den = m * 10 ^ e := by
  obtain ⟨n, rfl | rfl⟩ := Int.eq_nat_or_neg e
  · exact ⟨m * 10 ^ n, 1, Nat.one_ne_zero, by simp [ratio]⟩
  · exact ⟨m, 10 ^ n, (Nat.pow_pos (by decide)).ne', by simp [ratio, div_eq_mul_inv]⟩

theorem roundDecimal?_zero (e : Int) : roundDecimal? 0 e = some (0, leastExponent) := by
  simp [roundDecimal?]

theorem roundDecimal?_congr {m m' : Nat} {e e' : Int} (h : (m : ℚ) * 10 ^ e = m' * 10 ^ e') :
    roundDecimal? m e = roundDecimal? m' e' := by
  have hten (n : Int) : (10 : ℚ) ^ n ≠ 0 := zpow_ne_zero n (by norm_num)
  by_cases hm : m = 0
  · subst hm
    have hm' : m' = 0 := by
      rw [Nat.cast_zero, zero_mul] at h
      exact_mod_cast (mul_eq_zero.mp h.symm).resolve_right (hten e')
    rw [hm', roundDecimal?_zero, roundDecimal?_zero]
  · have hm' : m' ≠ 0 := by
      rintro rfl
      rw [Nat.cast_zero, zero_mul] at h
      have hzero := (mul_eq_zero.mp h).resolve_right (hten e)
      exact hm (by exact_mod_cast hzero)
    have hwidth : ((Nat.toDigits 10 m).length : Int) + e = (Nat.toDigits 10 m').length + e' := by
      obtain ⟨hlow, hhigh⟩ := decimal_bounds hm e
      obtain ⟨hlow', hhigh'⟩ := decimal_bounds hm' e'
      rw [← h] at hlow' hhigh'
      have hunique := zpow_exponent_unique (b := 10) (by norm_num) hlow (by simpa using hhigh)
        hlow' (by simpa using hhigh')
      omega
    by_cases hlow : ((Nat.toDigits 10 m).length : Int) + e < -330
    · rw [roundDecimal?, roundDecimal?, if_pos (.inr hlow), if_pos (.inr (hwidth ▸ hlow))]
    by_cases hhigh : 310 < ((Nat.toDigits 10 m).length : Int) + e
    · rw [roundDecimal?, roundDecimal?, if_neg (by simp [hm, hlow]), if_pos hhigh,
        if_neg (by simp [hm', ← hwidth, hlow]), if_pos (hwidth ▸ hhigh)]
    obtain ⟨num, den, hden, hratio⟩ := exists_ratio_eq m e
    rw [roundDecimal?_eq_round? hm hlow hhigh hden hratio,
      roundDecimal?_eq_round? hm' (hwidth ▸ hlow) (hwidth ▸ hhigh) hden (hratio.trans h)]

/-- The values of binary numbers lie well within the range of decimals that are rounded. -/
theorem canonical_bounds {m : Nat} {e : Int} (hc : Canonical m e) (hm : m ≠ 0) :
    (10 : ℚ) ^ (-331 : Int) ≤ m * 2 ^ e ∧ (m : ℚ) * 2 ^ e < 10 ^ (310 : Int) := by
  obtain ⟨hlt, hleast, hgreatest, -⟩ := hc
  have hone : (1 : ℚ) ≤ m := by exact_mod_cast Nat.pos_of_ne_zero hm
  have hlt' : (m : ℚ) < 2 ^ 53 := by exact_mod_cast hlt
  have hsmall : 2 ^ 1074 ≤ 10 ^ 331 := by decide +kernel
  have hlarge : 2 ^ 53 * 2 ^ 971 < 10 ^ 310 := by decide +kernel
  constructor
  · calc (10 : ℚ) ^ (-331 : Int) = (10 ^ 331)⁻¹ := rfl
      _ ≤ (2 ^ 1074)⁻¹ := inv_anti₀ (by positivity) (by exact_mod_cast hsmall)
      _ = 2 ^ (-1074 : Int) := rfl
      _ ≤ 2 ^ e := zpow_le_zpow_right₀ (by norm_num) hleast
      _ ≤ m * 2 ^ e := le_mul_of_one_le_left (by positivity) hone
  · calc (m : ℚ) * 2 ^ e < 2 ^ 53 * 2 ^ e := by gcongr
      _ ≤ 2 ^ 53 * 2 ^ (971 : Int) := by
        gcongr
        · norm_num
        · exact hgreatest
      _ = 2 ^ 53 * 2 ^ 971 := rfl
      _ < 10 ^ 310 := by exact_mod_cast hlarge
      _ = 10 ^ (310 : Int) := rfl

/-- The decimal that is exactly a binary number rounds to it. -/
theorem roundDecimal?_exact {m c : Nat} {e d : Int} (hc : Canonical m e)
    (h : (c : ℚ) * 10 ^ d = m * 2 ^ e) : roundDecimal? c d = some (m, e) := by
  have htwo : (2 : ℚ) ^ e ≠ 0 := zpow_ne_zero e (by norm_num)
  have hten : (10 : ℚ) ^ d ≠ 0 := zpow_ne_zero d (by norm_num)
  by_cases hm : m = 0
  · subst hm
    obtain rfl : c = 0 := by
      rw [Nat.cast_zero, zero_mul] at h
      exact_mod_cast (mul_eq_zero.mp h).resolve_right hten
    obtain rfl : e = leastExponent := hc.normal.resolve_left (by decide)
    exact roundDecimal?_zero d
  · have hc' : c ≠ 0 := by
      rintro rfl
      rw [Nat.cast_zero, zero_mul] at h
      have hzero := (mul_eq_zero.mp h.symm).resolve_right htwo
      exact hm (by exact_mod_cast hzero)
    obtain ⟨hlow, hhigh⟩ := canonical_bounds hc hm
    obtain ⟨hlow', hhigh'⟩ := decimal_bounds hc' d
    rw [h] at hlow' hhigh'
    have hten' : (1 : ℚ) < 10 := by norm_num
    have hleast := (zpow_lt_zpow_iff_right₀ hten').mp (hlow.trans_lt hhigh')
    have hgreatest := (zpow_lt_zpow_iff_right₀ hten').mp (hlow'.trans_lt hhigh)
    obtain ⟨num, den, hden, hratio⟩ := exists_ratio_eq c d
    rw [roundDecimal?_eq_round? hc' (by omega) (by omega) hden hratio]
    exact round?_exact hden hc (hratio.trans h)

end Numeral

end MkCompiler
