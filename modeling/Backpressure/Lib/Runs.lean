import Mathlib.Data.Option.Basic

/-!
# Runs of partial steps

Steps that are taken or have to wait, in any order: their runs, and the invariant rule.
-/

namespace Lib.Runs

variable {σ α : Type} {step : σ → α → Option σ} {P : σ → Prop} {s t : σ} {a : α} {acts later : List α}

/-- The steps in their order; none if one of them has to wait. -/
def run (step : σ → α → Option σ) : σ → List α → Option σ
  | s, [] => some s
  | s, a :: rest => (step s a).bind fun s => run step s rest

theorem run_cons : run step s (a :: acts) = some t ↔ ∃ m, step s a = some m ∧ run step m acts = some t :=
  Option.bind_eq_some_iff

theorem run_append :
    run step s (acts ++ later) = some t ↔ ∃ m, run step s acts = some m ∧ run step m later = some t := by
  induction acts generalizing s with
  | nil => exact ⟨fun h => ⟨s, rfl, h⟩, fun ⟨_, hm, h⟩ => Option.some.inj hm ▸ h⟩
  | cons a rest ih =>
    rw [List.cons_append, run_cons]
    constructor
    · rintro ⟨m, hstep, hrest⟩
      obtain ⟨m', hm, hlater⟩ := ih.mp hrest
      exact ⟨m', run_cons.mpr ⟨m, hstep, hm⟩, hlater⟩
    · rintro ⟨m', hm, hlater⟩
      obtain ⟨m, hstep, hrest⟩ := run_cons.mp hm
      exact ⟨m, hstep, ih.mpr ⟨m', hrest, hlater⟩⟩

/-- What every step of the run keeps holds at its end. -/
theorem run_invariant (hstep : ∀ s a t, a ∈ acts → P s → step s a = some t → P t) (h : P s)
    (hrun : run step s acts = some t) : P t := by
  induction acts generalizing s with
  | nil =>
    cases hrun
    exact h
  | cons a rest ih =>
    obtain ⟨m, hm, hrest⟩ := run_cons.mp hrun
    apply ih (fun s b t hb => hstep s b t (List.mem_cons_of_mem _ hb)) _ hrest
    exact hstep s a m List.mem_cons_self h hm

/-- What every step that is not bad keeps holds at the end of a run without bad steps. -/
theorem run_invariant_of {bad : σ → α → Prop} (hstep : ∀ s a t, P s → ¬bad s a → step s a = some t → P t)
    (hgood : ∀ before a after m, acts = before ++ a :: after → run step s before = some m → ¬bad m a)
    (h : P s) (hrun : run step s acts = some t) : P t := by
  induction acts generalizing s with
  | nil =>
    cases hrun
    exact h
  | cons a rest ih =>
    obtain ⟨m, hm, hrest⟩ := run_cons.mp hrun
    refine ih (fun before b after m' hacts hbefore => ?_) ?_ hrest
    · exact hgood (a :: before) b after m' (congrArg (a :: ·) hacts) (run_cons.mpr ⟨m, hm, hbefore⟩)
    · exact hstep s a m h (hgood [] a rest s rfl rfl) hm

end Lib.Runs
