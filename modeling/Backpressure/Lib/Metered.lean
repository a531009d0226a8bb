import Backpressure.Lib.Turns

/-!
# Writing on a budget

A program that writes records carries a budget in its state and gives up when a record is due
and the budget is spent. `Writes` says what such a program does under every budget at once: it
writes a fixed number of records and ends in a fixed state when the budget covers them, and
gives up otherwise.
-/

namespace Lib

open Turns (Turn)

/-- Where a state keeps its budget, and when it has given up. -/
structure Meter (σ : Type) where
  set : σ → Nat → σ
  exhausted : σ → Prop

namespace Meter

variable {σ τ υ α : Type} {M : Meter σ} {N : Meter τ} {O : Meter υ}

/-- From `s` on any budget, `f` writes `k` records and ends in `t`, or gives up. -/
structure Writes (M : Meter σ) (N : Meter τ) (f : σ → τ) (s : σ) (k : Nat) (t : τ) : Prop where
  enough : ∀ b, k ≤ b → f (M.set s b) = N.set t (b - k)
  short : ∀ b, b < k → N.exhausted (f (M.set s b))

/-- A program that does not look at the budget writes nothing. -/
theorem Writes.neutral {f : σ → τ} {s : σ} {t : τ} (h : ∀ b, f (M.set s b) = N.set t b) :
    Writes M N f s 0 t :=
  ⟨fun b _ => h b, fun _ hb => absurd hb (Nat.not_lt_zero _)⟩

/-- A program that writes one record. -/
theorem Writes.one {f : σ → τ} {s : σ} {t : τ} (hsome : ∀ b, f (M.set s (b + 1)) = N.set t b)
    (hnone : N.exhausted (f (M.set s 0))) : Writes M N f s 1 t := by
  refine ⟨fun b hb => ?_, fun b hb => ?_⟩
  · obtain ⟨b, rfl⟩ := Nat.exists_eq_add_of_le' hb
    exact hsome b
  · obtain rfl : b = 0 := by omega
    exact hnone

theorem Writes.comp {f : σ → τ} {g : τ → υ} {s : σ} {t : τ} {u : υ} {k k' : Nat}
    (hf : Writes M N f s k t) (hg : Writes N O g t k' u)
    (hkeep : ∀ x, N.exhausted x → O.exhausted (g x)) : Writes M O (g ∘ f) s (k + k') u := by
  refine ⟨fun b hb => ?_, fun b hb => ?_⟩
  · rw [Function.comp_apply, hf.enough b (by omega), hg.enough (b - k) (by omega), Nat.sub_sub]
  · rw [Function.comp_apply]
    by_cases hk : k ≤ b
    · rw [hf.enough b hk]
      exact hg.short (b - k) (by omega)
    · exact hkeep _ (hf.short b (by omega))

/-- A program that does from one state what another does from another. -/
theorem Writes.congr {f g : σ → τ} {s s' : σ} {t : τ} {k : Nat} (h : Writes M N f s k t)
    (hfg : ∀ b, g (M.set s' b) = f (M.set s b)) : Writes M N g s' k t :=
  ⟨fun b hb => (hfg b).trans (h.enough b hb), fun b hb => by
    rw [hfg b]
    exact h.short b hb⟩

/-- The meter of a turn; a loop may go on after it has given up. -/
def turn (M : Meter σ) : Meter (Turn σ) where
  set
    | .stop s, b => .stop (M.set s b)
    | .again s, b => .again (M.set s b)
  exhausted r := M.exhausted r.state

section Loop

variable {body : σ → Turn σ} (keep : ∀ s, M.exhausted s → M.exhausted (body s).state)

include keep

theorem exhausted_run {fuel : Nat} {s : σ} (h : M.exhausted s) :
    M.exhausted (Turns.run body fuel s) := by
  induction fuel generalizing s with
  | zero => exact h
  | succ fuel ih =>
    have hnext := keep s h
    rw [Turns.run]
    cases hb : body s with
    | stop t =>
      rw [hb] at hnext
      exact hnext
    | again t =>
      rw [hb] at hnext
      exact ih hnext

variable (M) (body) in
/-- A loop whose turns write on a budget writes on a budget. `Q n s k t` is any relation that
`n` turns that write `k` records from `s` to `t` are known to keep. -/
theorem Writes.run {Q : Nat → σ → Nat → σ → Prop} (stay : ∀ n s, Q n s 0 s)
    (step : ∀ {n s k t k' u}, Q 1 s k t → Q n t k' u → Q (n + 1) s (k + k') u)
    (hbody : ∀ s, ∃ k r, Writes M M.turn body s k r ∧ Q 1 s k r.state) (fuel : Nat) (s : σ) :
    ∃ k t, Writes M M (Turns.run body fuel) s k t ∧ Q fuel s k t := by
  induction fuel generalizing s with
  | zero => exact ⟨0, s, .neutral fun _ => rfl, stay 0 s⟩
  | succ fuel ih =>
    obtain ⟨k, r, hwrites, hq⟩ := hbody s
    have hshort : ∀ b, b < k → M.exhausted (Turns.run body (fuel + 1) (M.set s b)) := by
      intro b hb
      have hout := hwrites.short b hb
      rw [Turns.run]
      cases hx : body (M.set s b) with
      | stop x =>
        rw [hx] at hout
        exact hout
      | again x =>
        rw [hx] at hout
        exact exhausted_run keep hout
    cases r with
    | stop t =>
      refine ⟨k, t, ⟨fun b hb => ?_, hshort⟩, step hq (stay fuel t)⟩
      rw [Turns.run, hwrites.enough b hb]
      rfl
    | again t =>
      obtain ⟨k', u, hrest, hq'⟩ := ih t
      refine ⟨k + k', u, ⟨fun b hb => ?_, fun b hb => ?_⟩, step hq hq'⟩
      · rw [Turns.run, hwrites.enough b (by omega)]
        exact (hrest.enough (b - k) (by omega)).trans (by rw [Nat.sub_sub])
      · by_cases hk : k ≤ b
        · rw [Turns.run, hwrites.enough b hk]
          exact hrest.short (b - k) (by omega)
        · exact hshort b (by omega)

end Loop

end Meter

end Lib
