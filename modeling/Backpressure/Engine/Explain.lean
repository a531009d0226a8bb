import Backpressure.Model.Signal

/-!
# Explanation records

`explain.hpp` and `explain.cpp`: what a propagation reports about every edge it considered,
every resource it reached, and the fingerprint over the report.
-/

namespace Backpressure

inductive HopVerdict
  | propagated | amplified | clamped | suppressed | fenced | loopPrevented | idempotent | stale
  | unauthorized
  deriving DecidableEq, Repr

def HopVerdict.toNat : HopVerdict → Nat := HopVerdict.ctorIdx

inductive SuppressionReason
  | noReason | belowFloor | maxHops | maxFanout | nodeAlreadySettled | duplicateLineage
  | protectedBoundary | sealedResource | observedOnlyResource | missingResource
  | staleDependencyGeneration | staleTopology | fenced | cooldownActive | hysteresisNotExceeded
  | unauthorizedScope | amplificationNotAuthorized | amplificationBudgetExhausted
  | lifetimeExpired | expansionBudgetExhausted | visitedBudgetExhausted | recordBudgetExhausted
  | recoveryOnlyEdge | zeroAttenuation | sourceLimitExceeded | duplicateSource
  deriving DecidableEq, Repr

namespace SuppressionReason

def toNat : SuppressionReason → Nat := SuppressionReason.ctorIdx

/-- The slots of the pending array, in index order. -/
def slots : List SuppressionReason :=
  [noReason, belowFloor, maxHops, maxFanout, nodeAlreadySettled, duplicateLineage,
    protectedBoundary, sealedResource, observedOnlyResource, missingResource,
    staleDependencyGeneration, staleTopology, fenced, cooldownActive, hysteresisNotExceeded,
    unauthorizedScope, amplificationNotAuthorized, amplificationBudgetExhausted,
    lifetimeExpired, expansionBudgetExhausted, visitedBudgetExhausted, recordBudgetExhausted,
    recoveryOnlyEdge, zeroAttenuation, sourceLimitExceeded, duplicateSource]

theorem mem_slots (r : SuppressionReason) : r ∈ slots := by cases r <;> decide

theorem nodup_slots : slots.Nodup := by decide

end SuppressionReason

/-- One considered traversal step. -/
structure HopRecord where
  src : ResourceId
  dst : ResourceId
  edge : EdgeId
  depth : Nat
  attenuation : Attenuation
  gain : Gain
  potentialBefore : Potential
  potentialAfter : Potential
  cumulativeGainQ16 : Nat
  verdict : HopVerdict
  reason : SuppressionReason
  deriving DecidableEq, Repr

/-- The hop carried pressure across its edge. -/
def HopRecord.accepted (h : HopRecord) : Bool :=
  h.verdict == .propagated || h.verdict == .amplified

/-- Edges refused at one resource for one reason. -/
structure SuppressedEdgeRecord where
  src : ResourceId
  dst : ResourceId
  edge : EdgeId
  depth : Nat
  count : Nat
  reason : SuppressionReason
  deriving DecidableEq, Repr

/-- One source's contribution to a resource. -/
structure Contribution where
  source : SourceId
  propagation : PropagationId
  signal : SignalId
  magnitude : Magnitude
  weighted : Magnitude
  depth : Nat
  sourcePriority : Nat
  deriving DecidableEq, Repr

/-- Aggregated result at one resource. -/
structure NodeOutcome where
  resource : ResourceId := {}
  applied : Magnitude := .zero
  severity : Severity := .unknown
  strongestSingle : Magnitude := .zero
  received : Bool := false
  forwarded : Bool := false
  recovery : Bool := false
  bestDepth : Nat := 0
  bestSource : SourceId := {}
  bestPropagation : PropagationId := {}
  parent : ResourceId := {}
  parentEdge : EdgeId := {}
  contributions : List Contribution := []
  contributionsTruncated : Bool := false
  contributionCount : Nat := 0
  blockedReason : SuppressionReason := .noReason
  governingFence : FenceId := {}
  deriving DecidableEq, Repr

structure EngineCounters where
  signalsReceived : Nat := 0
  signalsAccepted : Nat := 0
  signalsRejected : Nat := 0
  signalsIdempotent : Nat := 0
  propagations : Nat := 0
  nodesSettled : Nat := 0
  hopsConsidered : Nat := 0
  hopsPropagated : Nat := 0
  hopsSuppressed : Nat := 0
  loopPreventions : Nat := 0
  staleRejections : Nat := 0
  fenceRejections : Nat := 0
  unauthorizedRejections : Nat := 0
  amplifications : Nat := 0
  clamps : Nat := 0
  budgetExhaustions : Nat := 0
  recordTruncations : Nat := 0
  lineageEvictions : Nat := 0
  peakDepth : Nat := 0
  deriving DecidableEq, Repr

/-- Full explanation of one signal's propagation. -/
structure PropagationExplanation where
  id : PropagationId := {}
  signal : SignalId := {}
  source : SourceId := {}
  origin : ResourceId := {}
  sourceSeverity : Severity := .unknown
  sourceMagnitude : Magnitude := .zero
  lineage : Digest128 := {}
  topologyDigest : Digest128 := {}
  topologyGeneration : Generation := {}
  epoch : Epoch := {}
  authority : AuthorityVector := {}
  issuedAt : Tick := kNoTick
  deadline : Tick := kNoTick
  effectiveCeiling : Magnitude := .zero
  grantedGainQ16 : Nat := 65536
  amplificationGranted : Bool := false
  amplificationUsed : Bool := false
  maxDepthReached : Nat := 0
  hops : List HopRecord := []
  suppressed : List SuppressedEdgeRecord := []
  truncated : Bool := false
  counters : EngineCounters := {}
  fingerprint : Digest128 := {}
  deriving DecidableEq, Repr

def HopRecord.digestInto (h : HopRecord) (b : DigestBuilder) : DigestBuilder :=
  let b := [h.src.value, h.dst.value, h.edge.value].foldl (fun b v => b.updateU64 v.toNat) b
  let b := ((b.updateU32 h.depth).updateU32 h.attenuation.raw).updateU32 h.gain.raw
  let b := (b.updateU64 h.potentialBefore.raw).updateU64 h.potentialAfter.raw
  ((b.updateU32 h.cumulativeGainQ16).updateU8 h.verdict.toNat).updateU8 h.reason.toNat

/-- The count of a suppressed record is not part of the fingerprint. -/
def SuppressedEdgeRecord.digestInto (s : SuppressedEdgeRecord) (b : DigestBuilder) :
    DigestBuilder :=
  let b := [s.src.value, s.dst.value, s.edge.value].foldl (fun b v => b.updateU64 v.toNat) b
  (b.updateU32 s.depth).updateU8 s.reason.toNat

/-- The digest over the complete explanation. -/
def PropagationExplanation.fingerprintOf (e : PropagationExplanation) : Digest128 :=
  let b := [e.id.value, e.signal.value, e.source.value, e.origin.value].foldl
    (fun b v => b.updateU64 v.toNat) (DigestBuilder.domain {} 0x80)
  let b := (b.updateU8 e.sourceSeverity.toNat).updateU32 e.sourceMagnitude.raw
  let b := (b.updateDigest e.lineage).updateDigest e.topologyDigest
  let b := digestEpoch (digestGeneration b e.topologyGeneration) e.epoch
  let b := b.updateDigest e.authority.digest
  let b := (b.updateU64 e.issuedAt.toNat).updateU64 e.deadline.toNat
  let b := (b.updateU32 e.effectiveCeiling.raw).updateU32 e.grantedGainQ16
  let b := (b.updateBool e.amplificationGranted).updateBool e.amplificationUsed
  let b := (b.updateU32 e.maxDepthReached).updateBool e.truncated
  let b := e.hops.foldl (fun b h => h.digestInto b) b
  let b := e.suppressed.foldl (fun b s => s.digestInto b) b
  b.finish

def PropagationExplanation.seal (e : PropagationExplanation) (fingerprint : Digest128) :
    PropagationExplanation :=
  { e with fingerprint }

def PropagationExplanation.finalize (e : PropagationExplanation) : PropagationExplanation :=
  e.seal e.fingerprintOf

end Backpressure
