import Mathlib.Data.List.Basic

/-!
# Loops whose accesses are checked

A loop over array accesses that fail outside the array runs to its end when an invariant keeps every
access inside.
-/

namespace Lib.Checked

variable {α β : Type*}

/-- `l[i] = a`, inside the array. -/
def write (l : List α) (i : Nat) (a : α) : Option (List α) :=
  if i < l.length then some (l.set i a) else none

/-- An update of `l[i]`, inside the array. -/
def update (l : List α) (i : Nat) (f : α → α) : Option (List α) :=
  if i < l.length then some (l.modify i f) else none

theorem write_of_lt {l : List α} {i : Nat} {a : α} (h : i < l.length) :
    write l i a = some (l.set i a) := if_pos h

theorem update_of_lt {l : List α} {i : Nat} {f : α → α} (h : i < l.length) :
    update l i f = some (l.modify i f) := if_pos h

/-- What each iteration establishes for the next, the loop establishes at its end. -/
theorem foldlM_invariant {step : β → α → Option β} {items : List α} {s : β}
    (Inv : List α → β → Prop)
    (hstep : ∀ done a rest s, items = done ++ a :: rest → Inv done s →
      ∃ s', step s a = some s' ∧ Inv (done ++ [a]) s') (hstart : Inv [] s) :
    ∃ s', items.foldlM step s = some s' ∧ Inv items s' := by
  have hrun : ∀ rest done s, items = done ++ rest → Inv done s →
      ∃ s', rest.foldlM step s = some s' ∧ Inv items s' := by
    intro rest
    induction rest with
    | nil =>
      intro done s hsplit hinv
      rw [List.append_nil] at hsplit
      exact ⟨s, rfl, hsplit ▸ hinv⟩
    | cons a rest ih =>
      intro done s hsplit hinv
      obtain ⟨s', hs', hinv'⟩ := hstep done a rest s hsplit hinv
      rw [List.foldlM_cons, hs']
      exact ih (done ++ [a]) s' (by simp [hsplit]) hinv'
  exact hrun items [] s rfl hstart

/-- The iteration after `done` is that of the index `done.length`. -/
theorem eq_length_of_range {n i : Nat} {done rest : List Nat}
    (h : List.range n = done ++ i :: rest) : i = done.length ∧ i < n := by
  have hget : (List.range n)[done.length]? = some i := by rw [h]; simp
  obtain ⟨hlt, hi⟩ := List.getElem?_eq_some_iff.mp hget
  rw [List.getElem_range] at hi
  rw [List.length_range] at hlt
  omega

end Lib.Checked
