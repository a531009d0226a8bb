import Backpressure.Model.Policy

/-!
# Authority and pressure signals

`authority.hpp`, `signal.hpp` and `signal.cpp`: the grant under which a signal may travel,
its bounded chain of custody, and the validation that every signal passes before it may
start a propagation.
-/

namespace Backpressure

inductive AuthorityLevel
  | noAuthority | observer | localLevel | scopedLevel | globalLevel | count
  deriving DecidableEq, Repr

def AuthorityLevel.toNat : AuthorityLevel → Nat := AuthorityLevel.ctorIdx

def kMaxScopeEntries : Nat := 64

/-- Bounded set of resources an authority covers. -/
structure AuthorityScope where
  items : List ResourceId
  bounded : items.length ≤ kMaxScopeEntries
  deriving DecidableEq, Repr

def AuthorityScope.empty : AuthorityScope := ⟨[], Nat.zero_le _⟩

def AuthorityScope.contains (s : AuthorityScope) (id : ResourceId) : Bool := s.items.contains id

structure AuthorityVector where
  level : AuthorityLevel := .noAuthority
  epoch : Epoch := {}
  policyGeneration : Generation := {}
  scope : AuthorityScope := .empty
  maxHopsGranted : UInt32 := 0
  amplificationAuthorized : Bool := false
  maxGain : Gain := .unity
  expiresAt : Tick := kNoTick
  deriving DecidableEq, Repr

namespace AuthorityVector

def validate (a : AuthorityVector) : Status :=
  if a.level = .count then .error .invalidArgument "authority level" a.level.toNat
  else if a.level = .noAuthority then .error .unauthorized "authority is None" 0
  else if !a.epoch.known then .error .unauthorized "authority epoch unbound" 0
  else if a.level = .scopedLevel ∧ a.scope.items = [] then
    .error .unauthorized "scoped authority without scope" 0
  else if a.level ≠ .globalLevel ∧ a.maxHopsGranted = 0 then
    .error .unauthorized "authority without hop budget" 0
  else if a.amplificationAuthorized && a.maxGain.isUnity then
    .error .invalidArgument "amplification authorized without gain" 0
  else .success

def permitsPropagation (a : AuthorityVector) : Bool :=
  a.level == .localLevel || a.level == .scopedLevel || a.level == .globalLevel

/-- Does the grant cover an effect at the target? -/
def covers (a : AuthorityVector) (target : ResourceId) : Bool :=
  match a.level with
  | .globalLevel => true
  | .scopedLevel => a.scope.contains target
  -- an unscoped local grant covers nothing
  | .localLevel => a.scope.contains target
  | .observer | .noAuthority | .count => false

def expiredAt (a : AuthorityVector) (now : Tick) : Bool :=
  a.expiresAt != kNoTick && decide (a.expiresAt < now)

/-- Full authority decision, including epoch and expiry binding. -/
def check (a : AuthorityVector) (now : Tick) (liveEpoch : Epoch) (target : ResourceId) : Status :=
  a.validate.andThen <|
  if liveEpoch ≠ a.epoch then .error .staleEpoch "authority epoch" a.epoch.value.toNat
  else if a.expiredAt now then .error .expired "authority expired" a.expiresAt.toNat
  else if !a.covers target then .error .unauthorized "authority scope" target.value.toNat
  else .success

/-- The full decision refuses an expired grant. -/
theorem check_of_expired {a : AuthorityVector} {now : Tick} {liveEpoch : Epoch}
    {target : ResourceId} (h : a.expiredAt now = true) :
    (a.check now liveEpoch target).ok = false := by
  rw [← Bool.not_eq_true]
  simp [check, Status.ok_guard, h]

def digest (a : AuthorityVector) : Digest128 :=
  let b := (DigestBuilder.domain {} 0x20).updateU8 a.level.toNat
  let b := digestGeneration (digestEpoch b a.epoch) a.policyGeneration
  let b := b.updateU32 a.scope.items.length
  let b := a.scope.items.foldl (fun b id => b.updateU64 id.value.toNat) b
  let b := (b.updateU32 a.maxHopsGranted.toNat).updateBool a.amplificationAuthorized
  ((b.updateU32 a.maxGain.raw).updateU64 a.expiresAt.toNat).finish

end AuthorityVector

/-- One link in the chain of custody of a signal. -/
structure ProvenanceHop where
  publisher : Incarnation := {}
  epoch : Epoch := {}
  generation : Generation := {}
  tick : Tick := kNoTick
  propagation : PropagationId := {}
  parent : Digest128 := {}
  deriving DecidableEq, Repr

def kMaxChain : Nat := 16

/-- Bounded provenance chain; older hops are folded into a running digest. -/
structure Provenance where
  hops : List ProvenanceHop := []
  droppedPrefix : Digest128 := {}
  evictions : UInt64 := 0
  bounded : hops.length ≤ kMaxChain := by decide
  deriving DecidableEq, Repr

def Provenance.empty (p : Provenance) : Bool := p.hops.isEmpty

/-- An authoritative pressure observation. -/
structure PressureSignal where
  id : SignalId := {}
  source : SourceId := {}
  origin : ResourceId := {}
  observation : PressureObservation := {}
  originGeneration : Generation := {}
  topologyDigest : Digest128 := {}
  epoch : Epoch := {}
  publisher : Incarnation := {}
  issuedAt : Tick := kNoTick
  validUntil : Tick := kNoTick
  authority : AuthorityVector := {}
  provenance : Provenance := {}
  lineage : Digest128 := {}
  sourcePriority : UInt32 := 0
  weightQ16 : UInt32 := 65536
  deriving DecidableEq, Repr

namespace PressureSignal

def deadline (s : PressureSignal) (policy : PropagationPolicy) : Tick :=
  if s.validUntil ≠ kNoTick then s.validUntil
  else if 0xFFFFFFFFFFFFFFFF - policy.lifetimeTicks < s.issuedAt then 0xFFFFFFFFFFFFFFFF
  else s.issuedAt + policy.lifetimeTicks

def isExpired (s : PressureSignal) (now : Tick) (policy : PropagationPolicy) : Bool :=
  decide (s.deadline policy < now)

/-- Full validation against a policy, with generation and epoch binding. -/
def validate (s : PressureSignal) (policy : PropagationPolicy) (now : Tick) : Status :=
  policy.validate.andThen <|
  if !s.id.valid then .error .invalidArgument "signal id" 0
  else if !s.source.valid then .error .invalidArgument "signal source" 0
  else if !s.origin.valid then .error .invalidArgument "signal origin" 0
  else if !s.originGeneration.known then
    .error .staleGeneration "signal origin generation unbound" 0
  else if !s.epoch.known then .error .staleEpoch "signal epoch unbound" 0
  else if s.topologyDigest.isZero then .error .staleGeneration "signal topology unbound" 0
  else if !s.publisher.valid then .error .staleIncarnation "signal publisher unbound" 0
  else if s.provenance.empty then .error .invalidArgument "signal provenance empty" 0
  else if !s.observation.canAuthorizePropagation then
    .error .unknownPressure "signal observation unknown" 0
  else s.authority.validate.andThen <|
  if s.authority.epoch ≠ s.epoch then
    .error .staleEpoch "authority signal epoch mismatch" s.authority.epoch.value.toNat
  else if s.authority.policyGeneration ≠ policy.generation then
    .error .staleGeneration "authority policy generation mismatch"
      s.authority.policyGeneration.value.toNat
  else if !s.authority.permitsPropagation then
    .error .unauthorized "authority permits no propagation" s.authority.level.toNat
  else if 65536 < s.weightQ16 then .error .outOfRange "signal weight" s.weightQ16.toNat
  else if s.lineage.isZero then .error .invalidArgument "signal lineage unbound" 0
  else if s.isExpired now policy then
    .error .expired "signal expired" (s.deadline policy).toNat
  else .success

/-- What a validated signal guarantees to the engine. -/
theorem of_validate {s : PressureSignal} {policy : PropagationPolicy} {now : Tick}
    (h : (s.validate policy now).ok = true) :
    s.observation.canAuthorizePropagation = true ∧ s.weightQ16.toNat ≤ 65536 ∧
      s.source.valid = true ∧ s.lineage.isZero = false := by
  simp only [validate, Status.ok_andThen, Status.ok_guard, ne_eq, reduceCtorEq, not_false_eq_true,
    Bool.and_eq_true, Bool.not_eq_true', Bool.not_eq_false, Bool.not_eq_true] at h
  obtain ⟨-, -, source, -, -, -, -, -, -, observation, -, -, -, -, weight, lineage, -⟩ := h
  exact ⟨observation, by simpa using UInt32.le_iff_toNat_le.mp (UInt32.not_lt.mp weight), source,
    lineage⟩

end PressureSignal

end Backpressure
