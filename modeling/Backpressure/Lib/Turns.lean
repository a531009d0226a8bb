import Mathlib.Logic.Relation

/-!
# Loops as turns

A loop body is a function that either leaves the loop with a final state or asks for
another turn. Running it on fuel, the invariant rule, and the measure that shows when the
fuel was enough.
-/

namespace Lib.Turns

variable {σ : Type}

/-- What one turn of a loop asks for. -/
inductive Turn (σ : Type)
  | stop (s : σ)
  | again (s : σ)

/-- The state that a turn leaves, whether or not the loop goes on. -/
def Turn.state : Turn σ → σ
  | .stop s => s
  | .again s => s

theorem Turn.again_ne_stop {s s' : σ} : Turn.again s ≠ .stop s' := nofun

/-- Run the body until it stops, for at most the given number of turns. -/
def run (body : σ → Turn σ) : Nat → σ → σ
  | 0, s => s
  | fuel + 1, s =>
    match body s with
    | .stop s' => s'
    | .again s' => run body fuel s'

/-- The state in which the loop stopped by itself. -/
inductive Stops (body : σ → Turn σ) : σ → σ → Prop
  | stop {s s' : σ} : body s = .stop s' → Stops body s s'
  | again {s s' f : σ} : body s = .again s' → Stops body s' f → Stops body s f

variable {body : σ → Turn σ} {s f : σ}

/-- A property kept by turns that go on, and turned into `Q` by a turn that stops, gives
`Q` when the loop has stopped. -/
theorem Stops.invariant {P Q : σ → Prop} (h : Stops body s f) (init : P s)
    (again : ∀ s s', P s → body s = .again s' → P s')
    (stop : ∀ s s', P s → body s = .stop s' → Q s') : Q f := by
  induction h with
  | stop hb => exact stop _ _ init hb
  | again hb _ ih => exact ih (again _ _ init hb)

/-- A measure that every continuing turn lowers bounds the fuel a loop needs. -/
theorem stops_run {m : σ → Nat} (dec : ∀ s s', body s = .again s' → m s' < m s) {fuel : Nat}
    (enough : m s < fuel) : Stops body s (run body fuel s) := by
  induction fuel generalizing s with
  | zero => exact absurd enough (Nat.not_lt_zero _)
  | succ fuel ih =>
    rw [run]
    split
    case h_1 s' hb => exact .stop hb
    case h_2 s' hb => exact .again hb (ih (by have := dec _ _ hb; omega))

/-- The states in which a turn of the loop begins. -/
inductive Reaches (body : σ → Turn σ) (s : σ) : σ → Prop
  | start : Reaches body s s
  | again {v w : σ} : Reaches body s v → body v = .again w → Reaches body s w

/-- A loop that has stopped had a last turn. -/
theorem Stops.last (h : Stops body s f) : ∃ v, Reaches body s v ∧ body v = .stop f := by
  have hreach : ∀ v, Reaches body s v → Stops body v f → ∃ v, Reaches body s v ∧ body v = .stop f := by
    intro v hv hstops
    induction hstops with
    | stop hb => exact ⟨_, hv, hb⟩
    | again hb _ ih => exact ih h (hv.again hb)
  exact hreach s .start h

theorem Reaches.stops {v : σ} (h : Reaches body s v) (hstops : Stops body v f) : Stops body s f := by
  induction h with
  | start => exact hstops
  | again _ hb ih => exact ih (.again hb hstops)

theorem Stops.unique {f' : σ} (h : Stops body s f) (h' : Stops body s f') : f = f' := by
  induction h with
  | stop hb =>
    cases h' with
    | stop hb' => simpa using hb.symm.trans hb'
    | again hb' _ => cases hb.symm.trans hb'
  | again hb _ ih =>
    cases h' with
    | stop hb' => cases hb.symm.trans hb'
    | again hb' hrest =>
      cases hb.symm.trans hb'
      exact ih hrest

/-! ## Loops that keep a log -/

section Log

variable {β : Type} {emit : σ → Option β}

/-- What the turns of a loop emit, in order. -/
def log (emit : σ → Option β) (body : σ → Turn σ) : Nat → σ → List β
  | 0, _ => []
  | fuel + 1, s =>
    (emit s).toList ++
      match body s with
      | .stop _ => []
      | .again s' => log emit body fuel s'

/-- A relation between the log so far and the state, kept by turns that go on and turned into
`Q` by a turn that stops, gives `Q` of the whole log when the fuel sufficed. -/
theorem log_invariant (emit : σ → Option β) (body : σ → Turn σ) {P Q : List β → σ → Prop} {m : σ → Nat}
    (dec : ∀ s s', body s = .again s' → m s' < m s)
    (again : ∀ l s s', P l s → body s = .again s' → P (l ++ (emit s).toList) s')
    (stop : ∀ l s s', P l s → body s = .stop s' → Q (l ++ (emit s).toList) s')
    (fuel : Nat) (enough : m s < fuel) {l : List β} (init : P l s) :
    Q (l ++ log emit body fuel s) (run body fuel s) := by
  induction fuel generalizing s l with
  | zero => exact absurd enough (Nat.not_lt_zero _)
  | succ fuel ih =>
    rw [log, run]
    cases hb : body s with
    | stop s' =>
      rw [List.append_nil]
      exact stop l s s' init hb
    | again s' =>
      have hlt := dec s s' hb
      rw [← List.append_assoc]
      exact ih (by omega) (again l s s' init hb)

/-- Two logs of one loop: what the first emits goes with what the second emits in the same turn. -/
theorem exists_mem_log {γ : Type} {emit' : σ → Option γ} {R : β → γ → Prop}
    (h : ∀ s b, emit s = some b → ∃ c, emit' s = some c ∧ R b c) {fuel : Nat} {b : β}
    (hb : b ∈ log emit body fuel s) : ∃ c ∈ log emit' body fuel s, R b c := by
  induction fuel generalizing s with
  | zero => cases hb
  | succ fuel ih =>
    rw [log] at hb ⊢
    rcases List.mem_append.mp hb with hb | hb
    · obtain ⟨c, hc, hbc⟩ := h s b (Option.mem_toList.mp hb)
      exact ⟨c, List.mem_append_left _ (Option.mem_toList.mpr hc), hbc⟩
    · cases hturn : body s with
      | stop s' =>
        rw [hturn] at hb
        cases hb
      | again s' =>
        rw [hturn] at hb
        obtain ⟨c, hc, hbc⟩ := ih hb
        exact ⟨c, List.mem_append_right _ hc, hbc⟩

/-- To rewrite every entry of a log, rewrite what the turns emit. -/
theorem map_log {γ : Type} (f : β → γ) (fuel : Nat) (s : σ) :
    (log emit body fuel s).map f = log (fun s => (emit s).map f) body fuel s := by
  induction fuel generalizing s with
  | zero => rfl
  | succ fuel ih =>
    have hhead : (emit s).toList.map f = ((emit s).map f).toList := by cases emit s <;> rfl
    rw [log, log, List.map_append, hhead]
    cases body s with
    | stop => rfl
    | again s' => exact congrArg (_ ++ ·) (ih s')

/-- What a log holds is emitted by the states in which the turns begin. -/
theorem mem_log {fuel : Nat} {b : β} :
    b ∈ log emit body fuel s ↔ ∃ v ∈ log some body fuel s, emit v = some b := by
  induction fuel generalizing s with
  | zero => exact ⟨nofun, fun ⟨v, hv, _⟩ => nomatch hv⟩
  | succ fuel ih =>
    rw [log, log, Option.toList_some, List.singleton_append, List.mem_append, Option.mem_toList]
    simp only [List.mem_cons, exists_eq_or_imp]
    cases body s with
    | stop s' => simp
    | again s' => exact or_congr_right ih

/-- What every turn of a loop keeps holds of the states after it. -/
theorem run_of_mem_log {P : σ → Prop} (kept : ∀ v, P v → P (body v).state) {fuel : Nat} {v : σ}
    (hv : v ∈ log some body fuel s) (h : P (body v).state) : P (run body fuel s) := by
  have hrun : ∀ fuel s, P s → P (run body fuel s) := by
    intro fuel
    induction fuel with
    | zero => exact fun s hs => hs
    | succ fuel ih =>
      intro s hs
      have hnext := kept s hs
      rw [run]
      cases hturn : body s with
      | stop s' =>
        rw [hturn] at hnext
        exact hnext
      | again s' =>
        rw [hturn] at hnext
        exact ih s' hnext
  induction fuel generalizing s with
  | zero => cases hv
  | succ fuel ih =>
    rw [log, Option.toList_some, List.singleton_append] at hv
    rw [run]
    rcases List.mem_cons.mp hv with rfl | hv
    · cases hturn : body v with
      | stop s' =>
        rw [hturn] at h
        exact h
      | again s' =>
        rw [hturn] at h
        exact hrun fuel s' h
    · cases hturn : body s with
      | stop s' =>
        rw [hturn] at hv
        cases hv
      | again s' =>
        rw [hturn] at hv
        exact ih hv

/-- The invariant rule for a loop whose turns all begin in states with some property. -/
theorem log_invariant_of (emit : σ → Option β) (body : σ → Turn σ) {P Q : List β → σ → Prop}
    {H : σ → Prop} {m : σ → Nat} (dec : ∀ s s', body s = .again s' → m s' < m s)
    (again : ∀ l s s', H s → P l s → body s = .again s' → P (l ++ (emit s).toList) s')
    (stop : ∀ l s s', H s → P l s → body s = .stop s' → Q (l ++ (emit s).toList) s')
    (fuel : Nat) (enough : m s < fuel) (all : ∀ v ∈ log some body fuel s, H v) (init : P [] s) :
    Q (log emit body fuel s) (run body fuel s) := by
  have hfilter : ∀ fuel s, (log some body fuel s).filterMap emit = log emit body fuel s := by
    intro fuel
    induction fuel with
    | zero => exact fun s => rfl
    | succ fuel ih =>
      intro s
      rw [log, log, Option.toList_some, List.singleton_append, List.filterMap_cons]
      cases emit s with
      | none =>
        cases body s with
        | stop s' => rfl
        | again s' => exact ih s'
      | some b =>
        cases body s with
        | stop s' => rfl
        | again s' => exact congrArg (b :: ·) (ih s')
  have hstep : ∀ (l : List σ) (s : σ),
      (l ++ (some s).toList).filterMap emit = l.filterMap emit ++ (emit s).toList := by
    intro l s
    rw [List.filterMap_append, Option.toList_some, List.filterMap_cons]
    cases emit s <;> rfl
  have hlast : ∀ (l : List σ) (s : σ), (∀ v ∈ l ++ (some s).toList, H v) → (∀ v ∈ l, H v) ∧ H s :=
    fun l s h => ⟨fun v hv => h v (List.mem_append_left _ hv),
      h s (List.mem_append_right l List.mem_cons_self)⟩
  have hlog := log_invariant some body (P := fun l s => (∀ v ∈ l, H v) → P (l.filterMap emit) s)
    (Q := fun l s => (∀ v ∈ l, H v) → Q (l.filterMap emit) s) dec
    (fun l s s' h hturn hall => hstep l s ▸ again _ s s' (hlast l s hall).2
      (h (hlast l s hall).1) hturn)
    (fun l s s' h hturn hall => hstep l s ▸ stop _ s s' (hlast l s hall).2
      (h (hlast l s hall).1) hturn)
    fuel enough (l := []) (fun _ => init)
  rw [List.nil_append, hfilter] at hlog
  exact hlog all

/-- A turn emits behind what the turns before it have emitted, in a state of which the invariant
holds. -/
theorem log_prefix {P : List β → σ → Prop}
    (again : ∀ l s s', P l s → body s = .again s' → P (l ++ (emit s).toList) s') {fuel : Nat} {v : σ}
    (hv : v ∈ log some body fuel s) {l : List β} (init : P l s) :
    ∃ l', P (l ++ l') v ∧ (l' ++ (emit v).toList) <+: log emit body fuel s := by
  induction fuel generalizing s l with
  | zero => cases hv
  | succ fuel ih =>
    rw [log, Option.toList_some, List.singleton_append] at hv
    rw [log]
    rcases List.mem_cons.mp hv with rfl | hv
    · refine ⟨[], by rwa [List.append_nil], ?_⟩
      rw [List.nil_append]
      exact List.prefix_append _ _
    · cases hturn : body s with
      | stop s' =>
        rw [hturn] at hv
        cases hv
      | again s' =>
        rw [hturn] at hv
        obtain ⟨l', hp, hpre⟩ := ih hv (again l s s' init hturn)
        refine ⟨(emit s).toList ++ l', by rwa [← List.append_assoc], ?_⟩
        rw [List.append_assoc]
        exact (List.prefix_append_right_inj _).mpr hpre

end Log

end Lib.Turns
