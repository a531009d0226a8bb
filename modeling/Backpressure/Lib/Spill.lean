import Mathlib.Data.List.Induction

/-!
# A bounded window that spills into a fold

A window keeps the last elements pushed. What it cannot hold any longer is not lost: it goes, oldest
first, into a fold. The window and the fold together are a function of the whole history, and where
the steps of the fold can be undone, of that history alone.
-/

namespace Lib.Spill

variable {α σ : Type*} {cap : ℕ} {spill : σ → α → σ} {s : σ} {items items' : List α}

/-- Push to the back; a full window spills its oldest element. -/
def push (cap : ℕ) (spill : σ → α → σ) (w : List α × σ) (a : α) : List α × σ :=
  if w.1.length < cap then (w.1 ++ [a], w.2)
  else match w.1 ++ [a] with
    | [] => w
    | b :: rest => (rest, spill w.2 b)

/-- The window holds the last elements, the fold all those before them. -/
theorem foldl_push (items : List α) : items.foldl (push cap spill) ([], s) =
    (items.drop (items.length - cap), (items.take (items.length - cap)).foldl spill s) := by
  induction items using List.reverseRecOn with
  | nil => simp
  | append_singleton items a ih =>
    have hdrop : items.drop (items.length - cap) ++ [a] =
        (items ++ [a]).drop (items.length - cap) :=
      (List.drop_append_of_le_length (Nat.sub_le _ _)).symm
    rw [List.foldl_append, ih, List.foldl_cons, List.foldl_nil]
    unfold push
    simp only [List.length_drop]
    split
    case isTrue hroom =>
      have hkept : items.length - cap = 0 := by omega
      have hkept' : (items ++ [a]).length - cap = 0 := by
        rw [List.length_append, List.length_singleton]
        omega
      rw [hdrop, hkept, hkept', List.take_zero, List.take_zero]
    case isFalse hfull =>
      have hlt : items.length - cap < (items ++ [a]).length := by
        rw [List.length_append, List.length_singleton]
        omega
      have hnext : (items ++ [a]).length - cap = items.length - cap + 1 := by
        rw [List.length_append, List.length_singleton]
        omega
      rw [hdrop, List.drop_eq_getElem_cons hlt, hnext, List.take_succ_eq_append_getElem hlt,
        List.foldl_append, List.take_append_of_le_length (Nat.sub_le _ _)]
      rfl

/-- Two folds whose steps can be undone, and that never come back to their start, are equal only over
the same elements. -/
theorem foldl_injective (hfresh : ∀ t a, spill t a ≠ s)
    (hundo : ∀ l a, l ++ [a] <+: items → ∀ l' a', l' ++ [a'] <+: items' →
      spill (l.foldl spill s) a = spill (l'.foldl spill s) a' →
        l.foldl spill s = l'.foldl spill s ∧ a = a')
    (h : items.foldl spill s = items'.foldl spill s) : items = items' := by
  induction items using List.reverseRecOn generalizing items' with
  | nil =>
    cases items' using List.reverseRecOn with
    | nil => rfl
    | append_singleton l' a' =>
      rw [List.foldl_append] at h
      exact absurd h.symm (hfresh _ a')
  | append_singleton l a ih =>
    cases items' using List.reverseRecOn with
    | nil =>
      rw [List.foldl_append] at h
      exact absurd h (hfresh _ a)
    | append_singleton l' a' =>
      rw [List.foldl_append, List.foldl_append] at h
      obtain ⟨hfold, rfl⟩ := hundo l a List.prefix_rfl l' a' List.prefix_rfl h
      rw [ih (fun k b hk k' b' hk' => hundo k b (hk.trans (List.prefix_append _ _)) k' b'
        (hk'.trans (List.prefix_append _ _))) hfold]

end Lib.Spill
