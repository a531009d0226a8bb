import Mathlib.Data.List.Basic

/-!
# Events that must grow to follow each other closely

A list of events in order of time, in which an event that comes too soon after another exceeds it
by more than a given step. As sizes are bounded, few events fit into one span of time.
-/

namespace Lib

variable {α : Type} {time size : α → Nat} {span step : Nat} {l : List α} {x : α}

/-- In order of time, and an event within the span of an earlier one exceeds it by more than the
step. -/
def Spaced (time size : α → Nat) (span step : Nat) (l : List α) : Prop :=
  l.Pairwise fun a b => time a ≤ time b ∧ (time b < time a + span → size a + step < size b)

namespace Spaced

/-- It is enough that the new event keeps its distance to the last one. -/
theorem snoc (h : Spaced time size span step l)
    (hlast : ∀ a, l.getLast? = some a →
      time a ≤ time x ∧ (time x < time a + span → size a + step < size x)) :
    Spaced time size span step (l ++ [x]) := by
  refine List.pairwise_append.mpr ⟨h, List.pairwise_singleton _ _, fun a ha y hy => ?_⟩
  obtain rfl := List.mem_singleton.mp hy
  obtain ⟨front, last, rfl⟩ : ∃ front last, l = front ++ [last] :=
    ⟨_, _, (List.dropLast_concat_getLast (List.ne_nil_of_mem ha)).symm⟩
  obtain ⟨hle, hgrows⟩ := hlast last List.getLast?_concat
  rcases List.mem_append.mp ha with hfront | hend
  · -- an earlier event is within reach of the last one, which is within reach of the new one
    obtain ⟨hle', hgrows'⟩ :=
      (List.pairwise_append.mp h).2.2 a hfront last (List.mem_singleton.mpr rfl)
    refine ⟨by omega, fun hnear => ?_⟩
    have hlow := hgrows' (by omega)
    have hhigh := hgrows (by omega)
    omega
  · rw [List.mem_singleton.mp hend]
    exact ⟨hle, hgrows⟩

/-- Sizes that grow by more than the step leave room for few events. -/
theorem length_of_growing {bound : Nat} (h : l.Pairwise fun a b => size a + step < size b)
    (hbound : ∀ a ∈ l, size a ≤ bound) : l.length ≤ 1 + bound / (step + 1) := by
  have hroom : ∀ (l : List α) (a : α), (∀ b ∈ a :: l, size b ≤ bound) →
      (a :: l).Pairwise (fun a b => size a + step < size b) →
        size a + l.length * (step + 1) ≤ bound := by
    intro l
    induction l with
    | nil =>
      intro a hmax _
      simpa using hmax a List.mem_cons_self
    | cons b rest ih =>
      intro a hmax hpairs
      obtain ⟨hhead, htail⟩ := List.pairwise_cons.mp hpairs
      have hnext := ih b (fun c hc => hmax c (List.mem_cons_of_mem a hc)) htail
      have hgrows := hhead b List.mem_cons_self
      rw [List.length_cons, Nat.add_mul, Nat.one_mul]
      omega
  cases l with
  | nil => exact Nat.zero_le _
  | cons a rest =>
    have hfits := hroom rest a hbound h
    have hpos : 0 < step + 1 := Nat.succ_pos step
    have hle : rest.length ≤ bound / (step + 1) := (Nat.le_div_iff_mul_le hpos).mpr (by omega)
    rw [List.length_cons]
    omega

/-- Few events fit into one span of time. -/
theorem length_window {bound : Nat} (h : Spaced time size span step l)
    (hbound : ∀ a ∈ l, size a ≤ bound) (start : Nat) :
    (l.filter fun a => start ≤ time a ∧ time a < start + span).length ≤ 1 + bound / (step + 1) := by
  refine length_of_growing ?_ fun a ha => hbound a (List.mem_filter.mp ha).1
  have hwindow : (l.filter fun a => start ≤ time a ∧ time a < start + span).Pairwise
      fun a b => time a ≤ time b ∧ (time b < time a + span → size a + step < size b) :=
    List.Pairwise.sublist List.filter_sublist h
  refine hwindow.imp_of_mem fun {a b} ha hb hpair => hpair.2 ?_
  obtain ⟨hfrom, -⟩ : start ≤ time a ∧ time a < start + span := by
    simpa using (List.mem_filter.mp ha).2
  obtain ⟨-, hto⟩ : start ≤ time b ∧ time b < start + span := by
    simpa using (List.mem_filter.mp hb).2
  omega

end Spaced

end Lib
