import Backpressure.Core.Status

/-!
# Strong identities

`ids.hpp`: identities of different kinds are different types. The largest `u64` is the
sentinel that a default-constructed identity carries.
-/

namespace Backpressure

inductive IdTag
  | resource | edge | signal | propagation | policy | source | fence | attempt | observation
  deriving DecidableEq, Repr

@[ext] structure StrongId (tag : IdTag) where
  value : UInt64 := 0xFFFFFFFFFFFFFFFF
  deriving DecidableEq, Repr

namespace StrongId

variable {tag : IdTag}

def kInvalid : UInt64 := 0xFFFFFFFFFFFFFFFF

def invalid : StrongId tag := {}

def valid (id : StrongId tag) : Bool := id.value != kInvalid

/-- Build from an externally supplied integer; the sentinel is refused. -/
def fromU64 (raw : UInt64) : Result (StrongId tag) :=
  if raw = kInvalid then fail .outOfRange "id sentinel" raw.toNat else .ok ⟨raw⟩

instance : LawfulBEq (StrongId tag) := inferInstance

instance : LT (StrongId tag) := ⟨fun a b => a.value < b.value⟩
instance : LE (StrongId tag) := ⟨fun a b => a.value ≤ b.value⟩

instance (a b : StrongId tag) : Decidable (a < b) := inferInstanceAs (Decidable (a.value < b.value))
instance (a b : StrongId tag) : Decidable (a ≤ b) := inferInstanceAs (Decidable (a.value ≤ b.value))

theorem lt_iff (a b : StrongId tag) : a < b ↔ a.value.toNat < b.value.toNat := UInt64.lt_iff_toNat_lt

theorem le_iff (a b : StrongId tag) : a ≤ b ↔ a.value.toNat ≤ b.value.toNat := UInt64.le_iff_toNat_le

theorem ext_toNat {a b : StrongId tag} (h : a.value.toNat = b.value.toNat) : a = b := by
  cases a; cases b
  simpa only [mk.injEq] using UInt64.toNat_inj.mp h

/-- An identity survives the round trip through its integer exactly when it is valid. -/
theorem fromU64_value {id : StrongId tag} (h : id.valid = true) : fromU64 id.value = .ok id := by
  have hv : id.value ≠ kInvalid := by simpa [valid] using h
  simp [fromU64, hv]

theorem fromU64_sentinel {id : StrongId tag} (h : id.valid = false) :
    (fromU64 id.value : Result (StrongId tag)) = fail .outOfRange "id sentinel" id.value.toNat := by
  have hv : id.value = kInvalid := by simpa [valid] using h
  simp [fromU64, hv]

end StrongId

abbrev ResourceId := StrongId .resource
abbrev EdgeId := StrongId .edge
abbrev SignalId := StrongId .signal
abbrev PropagationId := StrongId .propagation
abbrev PolicyId := StrongId .policy
abbrev SourceId := StrongId .source
abbrev FenceId := StrongId .fence
abbrev AttemptId := StrongId .attempt
abbrev ObservationId := StrongId .observation

end Backpressure
