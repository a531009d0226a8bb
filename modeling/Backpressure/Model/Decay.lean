import Backpressure.Lib.Floored
import Backpressure.Model.Policy

/-!
# Decay steps

`DecaySchedule::decay` of `policy.hpp` clamps once, after a loop of truncating multiplications. The
loop is an iteration of one shrinking map, so that a decay in two parts is a decay in one.
-/

namespace Backpressure

section Decay

variable {perStep : Q16} {a b n raw : Nat}

/-- One step of decay. -/
def decayStep (perStep : Q16) (raw : Nat) : Nat := raw * perStep.raw / 65536

theorem decayStep_le : decayStep perStep raw ≤ raw := by
  have hone := Nat.mul_le_mul_left raw perStep.le_one
  unfold decayStep
  omega

theorem monotone_decayStep : Monotone (decayStep perStep) := fun _ _ h =>
  Nat.div_le_div_right (Nat.mul_le_mul_right _ h)

/-- Nothing is left to decay at zero, so the loop may go on there. -/
theorem decaySteps_eq : decaySteps perStep n raw = (decayStep perStep)^[n] raw := by
  induction n generalizing raw with
  | zero => rfl
  | succ n ih =>
    rw [decaySteps, Function.iterate_succ_apply]
    split
    case isTrue hzero =>
      have hstep : decayStep perStep 0 = 0 := by simp [decayStep]
      rw [hzero, hstep, Function.iterate_fixed hstep]
    case isFalse => exact ih

theorem decaySteps_add : decaySteps perStep (a + b) raw =
    decaySteps perStep b (decaySteps perStep a raw) := by
  rw [decaySteps_eq, decaySteps_eq, decaySteps_eq, Nat.add_comm, Function.iterate_add_apply]

theorem monotone_decaySteps : Monotone (decaySteps perStep n) := fun x y h => by
  rw [decaySteps_eq, decaySteps_eq]
  exact monotone_decayStep.iterate n h

theorem decaySteps_le : decaySteps perStep n raw ≤ raw := by
  rw [decaySteps_eq]
  exact Lib.Floored.iterate_le fun _ => decayStep_le

/-- A step that decays takes off something while there is something. -/
theorem decaySteps_lt (hstep : perStep.raw < 65536) (hn : 0 < n) :
    decaySteps perStep n raw ≤ raw - 1 := by
  obtain ⟨k, rfl⟩ := Nat.exists_eq_add_of_le hn
  rw [decaySteps_add]
  refine decaySteps_le.trans ?_
  rw [decaySteps_eq, Function.iterate_one]
  unfold decayStep
  have hmul := Nat.mul_le_mul_left raw (Nat.le_pred_of_lt hstep)
  rw [Nat.pred_eq_sub_one] at hmul
  omega

end Decay

namespace DecaySchedule

open Lib.Floored (floored)

variable (d : DecaySchedule)

/-- The floor holds a decay up, and the start holds the floor down. -/
theorem raw_decay (start : Magnitude) (steps : Nat) : (d.decay start steps).raw =
    min start.raw (max d.floor.raw (decaySteps d.perStep (min steps d.maxSteps.toNat) start.raw)) := by
  have hle := @decaySteps_le d.perStep (min steps d.maxSteps.toNat) start.raw
  have hone := start.le_one
  unfold decay Q16.fromRawSaturating
  dsimp only
  split_ifs <;> omega

/-- The clamps of the source are those of a shrinking map above a floor. -/
theorem raw_decay_floored (m : Magnitude) (steps : Nat) : (d.decay m steps).raw =
    floored (decayStep d.perStep) d.floor.raw (min steps d.maxSteps.toNat) m.raw := by
  rw [raw_decay, decaySteps_eq]
  rfl

theorem decayStep_le_id : decayStep d.perStep ≤ id := fun _ => decayStep_le

theorem decay_decay {m : Magnitude} {a b : Nat} (h : a + b ≤ d.maxSteps.toNat) :
    d.decay (d.decay m a) b = d.decay m (a + b) := by
  refine Q16.ext ?_
  rw [raw_decay_floored, raw_decay_floored, raw_decay_floored, Nat.min_eq_left (by omega : a ≤ _),
    Nat.min_eq_left (by omega : b ≤ _), Nat.min_eq_left h,
    Lib.Floored.floored_floored d.decayStep_le_id]

/-- Decay in two parts is decay in one; it never falls below the floor or the start, never rises, and
keeps the order of magnitudes and reverses that of steps. -/
theorem decay_composes :
    (∀ (m : Magnitude) (a b : Nat), a + b ≤ d.maxSteps.toNat →
      d.decay (d.decay m a) b = d.decay m (a + b)) ∧
    (∀ (m : Magnitude) (s : Nat),
      min m.raw d.floor.raw ≤ (d.decay m s).raw ∧ (d.decay m s).raw ≤ m.raw) ∧
    (∀ (m m' : Magnitude) (s : Nat), m.raw ≤ m'.raw → (d.decay m s).raw ≤ (d.decay m' s).raw) ∧
    (∀ (m : Magnitude) (s s' : Nat), s ≤ s' → (d.decay m s').raw ≤ (d.decay m s).raw) := by
  refine ⟨fun m a b h => d.decay_decay h, fun m s => ⟨?_, d.decay_le m s⟩, fun m m' s h => ?_,
    fun m s s' h => ?_⟩
  · rw [raw_decay_floored]
    exact Lib.Floored.le_floored
  · rw [raw_decay_floored, raw_decay_floored]
    exact Lib.Floored.floored_mono monotone_decayStep h
  · rw [raw_decay_floored, raw_decay_floored]
    exact Lib.Floored.floored_antitone d.decayStep_le_id (min_le_min_right _ h)

/-- Halving above a floor of one sixteenth, which four steps reach and the fifth keeps. -/
theorem decay_composes_halving :
    let d : DecaySchedule := { perStep := .fromRawSaturating 32768, floor := .fromRawSaturating 4096 }
    d.decay (d.decay .one 3) 2 = d.decay .one 5 ∧ (d.decay .one 3).raw = 8192 ∧
      (d.decay .one 5).raw = 4096 :=
  ⟨(decay_composes _).1 .one 3 2 (by decide), by decide, by decide⟩

end DecaySchedule

end Backpressure
