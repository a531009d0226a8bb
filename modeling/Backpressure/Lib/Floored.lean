import Mathlib.Order.Iterate
import Mathlib.Order.MinMax

/-!
# A shrinking map above a floor

A map that never raises a value is iterated, the result is kept above a floor, and the floor does
not raise what starts below it. The clamps are made once, after the last step; all the same the
steps compose.
-/

namespace Lib.Floored

variable {α : Type*} [LinearOrder α] {f : α → α} {floor x y : α} {n m : ℕ}

/-- The value after some steps, neither below the floor nor above the start. -/
def floored (f : α → α) (floor : α) (n : ℕ) (x : α) : α := min x (max floor (f^[n] x))

theorem le_floored : min x floor ≤ floored f floor n x :=
  min_le_min_left x (le_max_left _ _)

/-- What starts below the floor stays where it is. -/
theorem floored_of_le (h : x ≤ floor) : floored f floor n x = x :=
  min_eq_left (h.trans (le_max_left _ _))

theorem iterate_le (hf : f ≤ id) : f^[n] x ≤ x := Function.iterate_le_id_of_le_id hf n x

/-- What starts above the floor is only stopped by it. -/
theorem floored_of_ge (hf : f ≤ id) (h : floor ≤ x) : floored f floor n x = max floor (f^[n] x) :=
  min_eq_right (max_le h (iterate_le hf))

/-- Steps compose, wherever the floor is reached. -/
theorem floored_floored (hf : f ≤ id) :
    floored f floor m (floored f floor n x) = floored f floor (n + m) x := by
  rcases le_total x floor with hlow | hhigh
  · rw [floored_of_le hlow, floored_of_le hlow, floored_of_le hlow]
  · have hsteps : f^[m] (f^[n] x) = f^[n + m] x := by
      rw [Nat.add_comm, Function.iterate_add_apply]
    rw [floored_of_ge hf hhigh, floored_of_ge hf hhigh]
    rcases le_total floor (f^[n] x) with habove | hbelow
    · rw [max_eq_right habove, floored_of_ge hf habove, hsteps]
    · -- the floor is reached in the first part, and the second part rests on it
      have hrest : f^[n + m] x ≤ floor := hsteps ▸ (iterate_le hf).trans hbelow
      rw [max_eq_left hbelow, floored_of_le le_rfl, max_eq_left hrest]

theorem floored_mono (hf : Monotone f) : Monotone (floored f floor n) :=
  fun _ _ hxy => min_le_min hxy (max_le_max_left floor (hf.iterate n hxy))

theorem floored_antitone (hf : f ≤ id) : Antitone fun n => floored f floor n x :=
  fun _ _ hnm => min_le_min_left x
    (max_le_max_left floor (Function.antitone_iterate_of_le_id hf hnm x))

end Lib.Floored
