import Backpressure.Core.Fixed
import Mathlib.Data.Rat.Floor

/-!
# Ratios in fixed point

`Q16::from_ratio` of `fixed.hpp` scales the numerator and adds half the denominator in words of 64
bits. It rounds to nearest, ties upwards, exactly as long as this sum fits its word.
-/

namespace Backpressure

namespace Q16

/-- A numerator over a denominator that is not smaller, in 64-bit arithmetic. -/
def fromRatio (num den : UInt64) : Result Q16 :=
  if den = 0 then fail .invalidArgument "q16 ratio denominator" 0
  else if den < num then fail .outOfRange "q16 ratio numerator" num.toNat
  else
    let scaled := num * 65536
    let rounded := (scaled + den / 2) / den
    .ok (fromRawSaturating rounded.toNat)

/-- The ratio is converted to the integer nearest to it in units of `2 ^ -16`, ties upwards, which is
at most one. -/
def Nearest (num den : UInt64) : Prop :=
  ∃ q, fromRatio num den = .ok q ∧
    (q.raw : ℤ) = round ((num.toNat * 65536 : ℚ) / den.toNat) ∧ q.raw ≤ 65536

/-- Larger numerators over the denominator have no smaller ratios. -/
def Ascending (den : UInt64) : Prop :=
  ∀ num num' q q', num ≤ num' → num' ≤ den → fromRatio num den = .ok q →
    fromRatio num' den = .ok q' → q.raw ≤ q'.raw

/-- The scaled numerator and the half that rounds it fit one word. -/
def Fits (num den : UInt64) : Prop := num.toNat * 65536 + den.toNat / 2 < 2 ^ 64

/-! ## Rounding to nearest -/

/-- Adding half the denominator before the division rounds to nearest, ties upwards. -/
theorem round_div {n d : ℕ} (hd : 0 < d) : round ((n : ℚ) / d) = ((n + d / 2) / d : ℕ) := by
  have hd' : (d : ℚ) ≠ 0 := Nat.cast_ne_zero.mpr hd.ne'
  have hhalf : (n : ℚ) / d + 1 / 2 = ((2 * n + d : ℕ) : ℚ) / ((2 * d : ℕ) : ℚ) := by
    push_cast
    field_simp
  have hquotient : (2 * n + d) / (2 * d) = (n + d / 2) / d := by
    rw [← Nat.div_div_eq_div_mul]
    congr 1
    omega
  rw [round_eq, hhalf, Rat.floor_natCast_div_natCast]
  exact_mod_cast hquotient

/-- A ratio up to one is rounded to at most one. -/
theorem rounded_le {n d : ℕ} (hd : 0 < d) (h : n ≤ d) : (n * 65536 + d / 2) / d ≤ 65536 := by
  refine Nat.le_of_lt_succ ((Nat.div_lt_iff_lt_mul hd).mpr ?_)
  omega

/-- A sum that is cut to one word loses at least one whole denominator. -/
theorem wrapped_lt {sum d : ℕ} (hd : 0 < d) (hd' : d < 2 ^ 64) (h : 2 ^ 64 ≤ sum) :
    sum % 2 ^ 64 / d < sum / d := by
  have hcut : sum % 2 ^ 64 + d ≤ sum := by omega
  calc sum % 2 ^ 64 / d < sum % 2 ^ 64 / d + 1 := Nat.lt_succ_self _
    _ = (sum % 2 ^ 64 + d) / d := (Nat.add_div_right _ hd).symm
    _ ≤ sum / d := Nat.div_le_div_right hcut

/-! ## The conversion -/

variable {num den : UInt64}

theorem toNat_pos (h : 0 < den) : 0 < den.toNat := UInt64.lt_iff_toNat_lt.mp h

/-- The quotient that the 64-bit arithmetic of the source computes. -/
theorem fromRatio_eq (hden : 0 < den) (hnum : num ≤ den) : fromRatio num den =
    .ok (fromRawSaturating ((num.toNat * 65536 + den.toNat / 2) % 2 ^ 64 / den.toNat)) := by
  have hne : den ≠ 0 := fun h => by simp [h] at hden
  unfold fromRatio
  rw [if_neg hne, if_neg (UInt64.not_lt.mpr hnum)]
  dsimp only
  congr 2
  rw [UInt64.toNat_div, UInt64.toNat_add, UInt64.toNat_mul, UInt64.toNat_div]
  simp

theorem Fits.of_le {num' : UInt64} (h : Fits num' den) (hle : num ≤ num') : Fits num den :=
  (Nat.add_le_add_right (Nat.mul_le_mul_right _ (UInt64.le_iff_toNat_le.mp hle)) _).trans_lt h

/-- What fits is rounded as it should be. -/
theorem raw_of_fits (hden : 0 < den) (hnum : num ≤ den) (hfits : Fits num den) :
    ∃ q, fromRatio num den = .ok q ∧ q.raw = (num.toNat * 65536 + den.toNat / 2) / den.toNat := by
  refine ⟨_, fromRatio_eq hden hnum, ?_⟩
  rw [Nat.mod_eq_of_lt hfits]
  exact Nat.min_eq_left (rounded_le (toNat_pos hden) (UInt64.le_iff_toNat_le.mp hnum))

/-- What does not fit comes out too small. -/
theorem raw_of_wrapped (hden : 0 < den) (hnum : num ≤ den) (hfits : ¬Fits num den) :
    ∃ q, fromRatio num den = .ok q ∧ q.raw < (num.toNat * 65536 + den.toNat / 2) / den.toNat := by
  refine ⟨_, fromRatio_eq hden hnum, ?_⟩
  exact (Nat.min_le_left _ _).trans_lt
    (wrapped_lt (toNat_pos hden) den.toNat_lt (Nat.le_of_not_lt hfits))

theorem round_ratio (hden : 0 < den) : round ((num.toNat * 65536 : ℚ) / den.toNat) =
    ((num.toNat * 65536 + den.toNat / 2) / den.toNat : ℕ) := by
  have h := round_div (n := num.toNat * 65536) (toNat_pos hden)
  push_cast at h ⊢
  exact h

theorem nearest_iff (hden : 0 < den) (hnum : num ≤ den) : Nearest num den ↔ Fits num den := by
  unfold Nearest
  rw [round_ratio hden]
  constructor
  · rintro ⟨q, hq, hround, -⟩
    by_contra hfits
    obtain ⟨q', hq', hlt⟩ := raw_of_wrapped hden hnum hfits
    cases hq.symm.trans hq'
    omega
  · intro hfits
    obtain ⟨q, hq, hraw⟩ := raw_of_fits hden hnum hfits
    exact ⟨q, hq, by rw [hraw], q.le_one⟩

theorem one_iff (hden : 0 < den) : fromRatio den den = .ok one ↔ Fits den den := by
  have hone : (den.toNat * 65536 + den.toNat / 2) / den.toNat = 65536 := by
    have hpos := toNat_pos hden
    rw [Nat.mul_add_div hpos, Nat.div_eq_of_lt (by omega : den.toNat / 2 < _)]
  constructor
  · intro h
    by_contra hfits
    obtain ⟨q, hq, hlt⟩ := raw_of_wrapped hden UInt64.le_rfl hfits
    cases h.symm.trans hq
    rw [hone] at hlt
    exact lt_irrefl _ hlt
  · intro hfits
    obtain ⟨q, hq, hraw⟩ := raw_of_fits hden UInt64.le_rfl hfits
    rw [hone] at hraw
    exact hq.trans (congrArg Except.ok (Q16.ext hraw))

theorem ascending_of_fits (hden : 0 < den) (hfits : Fits den den) : Ascending den := by
  intro num num' q q' hle hnum hq hq'
  have hfits' := hfits.of_le hnum
  obtain ⟨r, hr, hraw⟩ := raw_of_fits hden (UInt64.le_trans hle hnum) (hfits'.of_le hle)
  obtain ⟨r', hr', hraw'⟩ := raw_of_fits hden hnum hfits'
  cases hq.symm.trans hr
  cases hq'.symm.trans hr'
  rw [hraw, hraw']
  exact Nat.div_le_div_right
    (Nat.add_le_add_right (Nat.mul_le_mul_right _ (UInt64.le_iff_toNat_le.mp hle)) _)

/-- The numerator `2 ^ 47` still fits and is worth something; the first one that does not fit is
worth nothing. -/
theorem fits_of_ascending (hden : 0 < den) (h : Ascending den) : Fits den den := by
  by_contra hfits
  unfold Fits at hfits
  have hlt := den.toNat_lt
  have hbig : 2 ^ 47 ≤ den.toNat := by omega
  set first := (2 ^ 64 - 1 - den.toNat / 2) / 65536 + 1 with hfirst
  have hle : first ≤ den.toNat := by omega
  have hnat : (UInt64.ofNat first).toNat = first := by
    rw [UInt64.toNat_ofNat']
    omega
  have hnat' : (UInt64.ofNat (2 ^ 47)).toNat = 2 ^ 47 := rfl
  have hnum : UInt64.ofNat first ≤ den := UInt64.le_iff_toNat_le.mpr (by rw [hnat]; exact hle)
  have hnum' : UInt64.ofNat (2 ^ 47) ≤ UInt64.ofNat first :=
    UInt64.le_iff_toNat_le.mpr (by rw [hnat, hnat']; omega)
  have hfew := fromRatio_eq hden (UInt64.le_trans hnum' hnum)
  have hmany := fromRatio_eq hden hnum
  have hraw := h _ _ _ _ hnum' hnum hfew hmany
  rw [hnat, hnat'] at hraw
  have hsome : 1 ≤ (2 ^ 47 * 65536 + den.toNat / 2) % 2 ^ 64 / den.toNat := by
    rw [Nat.le_div_iff_mul_le (toNat_pos hden)]
    omega
  have hnone : (first * 65536 + den.toNat / 2) % 2 ^ 64 / den.toNat = 0 :=
    Nat.div_eq_of_lt (by omega)
  rw [hnone] at hraw
  simp only [fromRawSaturating] at hraw
  omega

/-- The conversion is exact just where its sum fits a word, and just for the denominators for which
all of its sums fit is it monotone and is the whole converted to one. -/
theorem fromRatio_nearest_iff (num den : UInt64) (hden : 0 < den) (hnum : num ≤ den) :
    (Nearest num den ↔ Fits num den) ∧ (Ascending den ↔ Fits den den) ∧
      (fromRatio den den = .ok one ↔ Fits den den) :=
  ⟨nearest_iff hden hnum, ⟨fits_of_ascending hden, ascending_of_fits hden⟩, one_iff hden⟩

/-- One third is rounded to nearest. -/
theorem fromRatio_third : Nearest 1 3 ∧ Ascending 3 ∧ fromRatio 3 3 = .ok one :=
  have hfits : Fits 3 3 := by unfold Fits; decide
  have h := fromRatio_nearest_iff 1 3 (by decide) (by decide)
  ⟨h.1.mpr (by unfold Fits; decide), h.2.1.mpr hfits, h.2.2.mpr hfits⟩

/-- The whole of `2 ^ 63` units is converted to nothing. -/
theorem fromRatio_whole_lost :
    fromRatio 9223372036854775808 9223372036854775808 = .ok zero ∧
      ¬∀ num den : UInt64, 0 < den → num ≤ den → Nearest num den := by
  have hzero : fromRatio 9223372036854775808 9223372036854775808 = .ok zero := by decide
  refine ⟨hzero, fun h => ?_⟩
  obtain ⟨q, hq, hround, -⟩ := h 9223372036854775808 9223372036854775808 (by decide) (by decide)
  cases hzero.symm.trans hq
  have hone : round (((9223372036854775808 : UInt64).toNat * 65536 : ℚ) /
      (9223372036854775808 : UInt64).toNat) = 65536 := by
    rw [round_ratio (by decide)]
    rfl
  rw [hone] at hround
  exact absurd hround (by decide)

end Q16

end Backpressure
