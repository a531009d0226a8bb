import Backpressure.Core.Ids
import Backpressure.Core.Digest

/-!
# Generations, epochs and incarnations

`generation.hpp`: the values that bind evidence to one revision of a definition, to one
authority epoch and to one running process.
-/

namespace Backpressure

/-- Monotone revision; zero means unknown. -/
@[ext] structure Generation where
  value : UInt64 := 0
  deriving DecidableEq, Repr

namespace Generation

def unknown : Generation := {}

def known (g : Generation) : Bool := g.value != 0

/-- Construction from an in-process digest; never unknown. -/
def fromRaw (raw : UInt64) : Generation := ⟨if raw = 0 then 1 else raw⟩

instance : LT Generation := ⟨fun a b => a.value < b.value⟩
instance (a b : Generation) : Decidable (a < b) := inferInstanceAs (Decidable (a.value < b.value))

end Generation

/-- Fabric-wide authority epoch; zero means no epoch. -/
@[ext] structure Epoch where
  value : UInt64 := 0
  deriving DecidableEq, Repr

namespace Epoch

def none : Epoch := {}

def known (e : Epoch) : Bool := e.value != 0

/-- The next epoch; refuses to wrap. -/
def next (e : Epoch) : Result Epoch :=
  if e.value = 0xFFFFFFFFFFFFFFFF then fail .overflow "epoch exhausted" e.value.toNat
  else .ok ⟨e.value + 1⟩

instance : LT Epoch := ⟨fun a b => a.value < b.value⟩
instance : LE Epoch := ⟨fun a b => a.value ≤ b.value⟩
instance (a b : Epoch) : Decidable (a < b) := inferInstanceAs (Decidable (a.value < b.value))
instance (a b : Epoch) : Decidable (a ≤ b) := inferInstanceAs (Decidable (a.value ≤ b.value))

theorem next_toNat {e e' : Epoch} (h : e.next = .ok e') : e'.value.toNat = e.value.toNat + 1 := by
  unfold next at h
  split at h
  · cases h
  case isFalse hne =>
    cases h
    have hlt := e.value.toNat_lt
    have hmax : e.value.toNat ≠ 2 ^ 64 - 1 := fun heq => hne (UInt64.toNat_inj.mp heq)
    rw [UInt64.toNat_add]
    simp only [UInt64.toNat_one]
    omega

theorem next_known {e e' : Epoch} (h : e.next = .ok e') : e'.known = true := by
  have hv := next_toNat h
  have hne : e'.value ≠ 0 := fun h0 => by simp [h0] at hv
  simpa [known] using hne

end Epoch

/-- Minted once per process boot. -/
structure BootId where
  hi : UInt64 := 0
  lo : UInt64 := 0
  deriving DecidableEq, Repr

namespace BootId

def valid (b : BootId) : Bool := b.hi != 0 || b.lo != 0

end BootId

/-- One running participant. -/
structure Incarnation where
  boot : BootId := {}
  pid : UInt32 := 0
  index : UInt32 := 0
  seq : UInt64 := 0
  deriving DecidableEq, Repr

namespace Incarnation

def valid (i : Incarnation) : Bool := i.boot.valid && i.seq != 0

end Incarnation

def digestIncarnation (b : DigestBuilder) (inc : Incarnation) : DigestBuilder :=
  let b := b.domain 0x11
  let b := (b.updateU64 inc.boot.hi.toNat).updateU64 inc.boot.lo.toNat
  ((b.updateU32 inc.pid.toNat).updateU32 inc.index.toNat).updateU64 inc.seq.toNat

def digestGeneration (b : DigestBuilder) (g : Generation) : DigestBuilder :=
  (b.domain 0x12).updateU64 g.value.toNat

def digestEpoch (b : DigestBuilder) (e : Epoch) : DigestBuilder :=
  (b.domain 0x13).updateU64 e.value.toNat

end Backpressure
