/-!
# Status codes and results

`status.hpp`: every fallible operation returns a status, or a value that is only
reachable when the status is `Ok`. `clock.hpp`: logical ticks.
-/

namespace Backpressure

inductive ErrorCode
  | ok | invalidArgument | malformedInput | truncatedInput | oversizedInput
  | integrityMismatch | overflow | outOfRange | notFound | duplicate | conflict
  | cycleDetected | staleGeneration | staleEpoch | staleIncarnation | expired
  | fenced | unauthorized | unknownPressure | budgetExhausted | limitExceeded
  | notReady | cancelled | shuttingDown | ioError | versionMismatch | ambiguous
  | revalidationRequired | unsupported | internal
  deriving DecidableEq, Repr

/-- `ErrorCode` as the `u16` the source stores. -/
def ErrorCode.toNat : ErrorCode → Nat := ErrorCode.ctorIdx

/-- The rejection is caused by stale or superseded evidence. -/
def isStaleness (code : ErrorCode) : Bool :=
  code == .staleGeneration || code == .staleEpoch || code == .staleIncarnation || code == .expired

/-- A code, a context string and a numeric detail. The source bounds the context at 96
bytes; every context of the modelled code is a shorter literal. -/
structure Status where
  code : ErrorCode := .ok
  context : String := ""
  detail : Nat := 0
  deriving DecidableEq, Repr

namespace Status

def success : Status := {}

def error (code : ErrorCode) (context : String) (detail : Nat) : Status :=
  { code, context, detail }

def ok (s : Status) : Bool := s.code == .ok

/-- `BPFAB_TRY`: stop with a failing status, go on otherwise. -/
def andThen (s next : Status) : Status := if s.ok then next else s

@[simp] theorem ok_success : success.ok = true := rfl

@[simp] theorem ok_error (code : ErrorCode) (context : String) (detail : Nat) :
    (error code context detail).ok = (code == .ok) := rfl

@[simp] theorem ok_andThen (s next : Status) : (s.andThen next).ok = (s.ok && next.ok) := by
  unfold andThen
  split <;> simp_all

/-- A chain of guards succeeds exactly when no guard fires. -/
theorem ok_guard {c : Prop} [Decidable c] {code : ErrorCode} {context : String} {detail : Nat}
    {next : Status} (hcode : code ≠ .ok) :
    (if c then error code context detail else next).ok = true ↔ ¬c ∧ next.ok = true := by
  by_cases hc : c <;> simp [hc, hcode]

end Status

/-- A value, or the status that refused it. -/
abbrev Result (α : Type) := Except Status α

def fail {α : Type} (code : ErrorCode) (context : String) (detail : Nat) : Result α :=
  .error (.error code context detail)

/-- A chain of guards gives a value exactly when no guard fires. -/
theorem guard_eq_ok {ε α : Type} {c : Prop} [Decidable c] {e : ε} {x : Except ε α} {a : α} :
    (if c then .error e else x) = .ok a ↔ ¬c ∧ x = .ok a := by
  by_cases hc : c <;> simp [hc]

/-- A guard in front keeps what follows from a value. -/
theorem guard_imp {ε α : Type} {c : Prop} [Decidable c] {e : ε} {x y : Except ε α} {a : α}
    (h : x = .ok a → y = .ok a) :
    (if c then .error e else x) = .ok a → (if c then .error e else y) = .ok a := by
  intro hx
  obtain ⟨hc, hx⟩ := guard_eq_ok.mp hx
  exact guard_eq_ok.mpr ⟨hc, h hx⟩

/-- An error that is not that of the guard comes from behind it. -/
theorem of_guard_error {ε α : Type} {c : Prop} [Decidable c] {e e' : ε} {x : Except ε α}
    (hne : e ≠ e') (h : (if c then .error e else x) = .error e') : x = .error e' := by
  by_cases hc : c
  · rw [if_pos hc] at h
    exact absurd (Except.error.inj h) hne
  · rwa [if_neg hc] at h

/-- The status of a result: `Ok` exactly when there is a value. -/
def Result.status {α : Type} : Result α → Status
  | .ok _ => .success
  | .error s => s

abbrev Tick := UInt64

/-- The tick that stands for "no tick". -/
def kNoTick : Tick := 0

end Backpressure
