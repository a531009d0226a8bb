import Mathlib.Data.List.Basic

/-!
# Logs that are written ahead

A state goes through a history, and each change of it is a record behind a log. A crash leaves the
records that were safe by then and some of those behind them. What is left always reads as a state
of the history, no older than the last one whose whole log was safe.
-/

namespace Lib

variable {ρ σ : Type*} {reads : List ρ → σ → Prop} {history : List σ} {floor safe : Nat}
  {log : List ρ} {r : ρ} {v : σ}

/-- What a crash leaves of the log reads as a state of the history from `floor` on. -/
structure WriteAhead (reads : List ρ → σ → Prop) (history : List σ) (floor : Nat) (log : List ρ)
    (safe : Nat) : Prop where
  floor_lt : floor < history.length
  safe_le : safe ≤ log.length
  leaves : ∀ n, safe ≤ n → ∃ i v, floor ≤ i ∧ history[i]? = some v ∧ reads (log.take n) v

namespace WriteAhead

theorem getElem?_front {i : Nat} {v' : σ} (h : history[i]? = some v') :
    (history ++ [v])[i]? = some v' :=
  (List.getElem?_append_left (List.getElem?_eq_some_iff.mp h).1).trans h

theorem getElem?_snoc {i : Nat} {v' : σ} (h : (history ++ [v])[i]? = some v') :
    i < history.length ∧ history[i]? = some v' ∨ i = history.length ∧ v' = v := by
  rcases Nat.lt_or_ge i history.length with hold | hnew
  · rw [List.getElem?_append_left hold] at h
    exact .inl ⟨hold, h⟩
  · have hbound := (List.getElem?_eq_some_iff.mp h).1
    rw [List.length_append, List.length_singleton] at hbound
    obtain rfl : i = history.length := by omega
    rw [List.getElem?_concat_length] at h
    exact .inr ⟨rfl, (Option.some.inj h).symm⟩

/-- A state whose whole log is safe. -/
theorem settled (h : reads log v) :
    WriteAhead reads (history ++ [v]) history.length log log.length where
  floor_lt := by simp
  safe_le := Nat.le_refl _
  leaves n hn := by
    refine ⟨history.length, v, Nat.le_refl _, List.getElem?_concat_length, ?_⟩
    rwa [List.take_of_length_le hn]

/-- One more state with the same log. -/
theorem idle (h : WriteAhead reads history floor log safe) :
    WriteAhead reads (history ++ [v]) floor log safe where
  floor_lt := by
    rw [List.length_append]
    exact Nat.lt_add_right _ h.floor_lt
  safe_le := h.safe_le
  leaves n hn := by
    obtain ⟨i, v', hi, hv', hleft⟩ := h.leaves n hn
    exact ⟨i, v', hi, getElem?_front hv', hleft⟩

/-- One more record, which is not safe yet. -/
theorem append (h : WriteAhead reads history floor log safe) (hreads : reads (log ++ [r]) v) :
    WriteAhead reads (history ++ [v]) floor (log ++ [r]) safe where
  floor_lt := h.idle.floor_lt
  safe_le := by
    rw [List.length_append]
    exact Nat.le_add_right_of_le h.safe_le
  leaves n hn := by
    rcases Nat.lt_or_ge log.length n with hlong | hshort
    · refine ⟨history.length, v, Nat.le_of_lt h.floor_lt, List.getElem?_concat_length, ?_⟩
      rwa [List.take_of_length_le (by rw [List.length_append]; exact hlong)]
    · rw [List.take_append_of_le_length hshort]
      exact h.idle.leaves n hn

/-- A state that is settled is settled for an older floor. -/
theorem mono {floor' : Nat} (h : WriteAhead reads history floor log safe) (hle : floor' ≤ floor) :
    WriteAhead reads history floor' log safe where
  floor_lt := Nat.lt_of_le_of_lt hle h.floor_lt
  safe_le := h.safe_le
  leaves n hn := by
    obtain ⟨i, v', hi, hleft⟩ := h.leaves n hn
    exact ⟨i, v', Nat.le_trans hle hi, hleft⟩

/-- A part of the log that holds everything safe. -/
theorem read {kept : List ρ} (h : WriteAhead reads history floor log safe) (hkept : kept <+: log)
    (hsafe : log.take safe <+: kept) :
    ∃ i v, floor ≤ i ∧ history[i]? = some v ∧ reads kept v := by
  have hlength := hsafe.length_le
  rw [List.length_take_of_le h.safe_le] at hlength
  have hleft := h.leaves kept.length hlength
  rwa [← List.prefix_iff_eq_take.mp hkept] at hleft

end WriteAhead

end Lib
