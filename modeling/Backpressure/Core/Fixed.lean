import Backpressure.Core.Status

/-!
# Fixed-point pressure arithmetic

`fixed.hpp`: pressure is unsigned Q0.16 in `[0, 1]`, the potential that travels along edges
is unsigned Q0.32 in `[0, 1]`, and an amplification gain is Q0.16 in `[1, 8]`. Each type
carries the bound of its raw value.
-/

namespace Backpressure

@[ext] structure Q16 where
  raw : Nat
  le_one : raw ≤ 65536
  deriving DecidableEq, Repr

namespace Q16

def kOne : Nat := 65536

def zero : Q16 := ⟨0, by decide⟩
def one : Q16 := ⟨65536, Nat.le_refl _⟩

def fromRaw (raw : Nat) : Result Q16 :=
  if h : raw ≤ 65536 then .ok ⟨raw, h⟩ else fail .outOfRange "q16 raw" raw

def fromRawSaturating (raw : Nat) : Q16 := ⟨min raw 65536, Nat.min_le_right _ _⟩

def isZero (q : Q16) : Bool := q.raw == 0

/-- Rounded to parts per 100000. -/
def asPercentMilli (q : Q16) : Nat := (q.raw * 100000 + 32768) / 65536

end Q16

/-- Fraction of capacity under pressure at a resource. -/
abbrev Magnitude := Q16

/-- Per-edge multiplier, at most one. -/
abbrev Attenuation := Q16

/-- Authorized amplification multiplier, at least one and at most eight. -/
structure Gain where
  raw : Nat := 65536
  ge_unity : 65536 ≤ raw := by decide
  le_max : raw ≤ 524288 := by decide
  deriving DecidableEq, Repr

namespace Gain

def kUnityRaw : Nat := 65536
def kMaxRaw : Nat := 8 * kUnityRaw

def unity : Gain := {}

def fromRaw (raw : Nat) : Result Gain :=
  if h₁ : 65536 ≤ raw then
    if h₂ : raw ≤ 524288 then .ok ⟨raw, h₁, h₂⟩ else fail .outOfRange "gain above ceiling" raw
  else fail .outOfRange "gain below unity" raw

def isUnity (g : Gain) : Bool := g.raw == kUnityRaw

end Gain

/-- What attenuation acts upon while pressure travels. -/
structure Potential where
  raw : Nat
  le_one : raw ≤ 4294967296
  deriving DecidableEq, Repr

namespace Potential

def zero : Potential := ⟨0, by decide⟩

def fromMagnitude (m : Magnitude) : Potential :=
  ⟨m.raw * 65536, by have := m.le_one; omega⟩

def isZero (p : Potential) : Bool := p.raw == 0

theorem attenuated_le (p : Potential) (att : Attenuation) : p.raw * att.raw / 65536 ≤ p.raw := by
  have h : p.raw * att.raw ≤ p.raw * 65536 := Nat.mul_le_mul_left _ att.le_one
  omega

/-- Exact scaling, truncated. -/
def attenuated (p : Potential) (att : Attenuation) : Potential :=
  ⟨p.raw * att.raw / 65536, Nat.le_trans (attenuated_le p att) p.le_one⟩

/-- Authorized amplification; refuses what would pass the absolute ceiling. -/
def amplified (p : Potential) (gain : Gain) : Result Potential :=
  if gain.isUnity || p.isZero then .ok p
  else if 4294967296 * 65536 / gain.raw < p.raw then fail .overflow "potential amplification" p.raw
  else .ok ⟨min (p.raw * gain.raw / 65536) 4294967296, Nat.min_le_right _ _⟩

/-- Round to the nearest magnitude. -/
def toMagnitude (p : Potential) : Magnitude :=
  Q16.fromRawSaturating (min ((p.raw + 32768) / 65536) 65536)

@[simp] theorem raw_fromMagnitude (m : Magnitude) : (fromMagnitude m).raw = m.raw * 65536 := rfl

@[simp] theorem raw_attenuated (p : Potential) (att : Attenuation) :
    (p.attenuated att).raw = p.raw * att.raw / 65536 := rfl

theorem raw_toMagnitude (p : Potential) : p.toMagnitude.raw = (p.raw + 32768) / 65536 := by
  have h := p.le_one
  simp only [toMagnitude, Q16.fromRawSaturating]
  omega

/-- Attenuation never increases the potential. -/
theorem attenuated_raw_le (p : Potential) (att : Attenuation) : (p.attenuated att).raw ≤ p.raw :=
  attenuated_le p att

theorem toMagnitude_mono {p q : Potential} (h : p.raw ≤ q.raw) :
    p.toMagnitude.raw ≤ q.toMagnitude.raw := by
  rw [raw_toMagnitude, raw_toMagnitude]
  omega

/-- Rounding undoes the exact widening of a magnitude. -/
theorem toMagnitude_fromMagnitude (m : Magnitude) : (fromMagnitude m).toMagnitude.raw = m.raw := by
  rw [raw_toMagnitude, raw_fromMagnitude]
  omega

theorem isZero_fromMagnitude {m : Magnitude} (h : 0 < m.raw) : (fromMagnitude m).isZero = false := by
  rw [isZero, raw_fromMagnitude, beq_eq_false_iff_ne]
  omega

end Potential

end Backpressure
