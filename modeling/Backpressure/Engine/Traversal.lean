import Backpressure.Engine.Explain
import Backpressure.Engine.Ledger
import Backpressure.Lib.PriorityQueue
import Backpressure.Lib.Turns
import Backpressure.Model.Fence
import Backpressure.Model.Topology

/-!
# The traversal of one signal

`Traversal` of `engine.cpp`: best-first settlement of resources under a record budget, an
expansion budget and a visited budget. The main loop is one `turn` per popped entry; every
edge of a settled resource passes the gates in source order before its target is queued.
-/

namespace Backpressure

open Lib (PriorityQueue)
open Lib.Turns (Turn)

def kUnityGainQ16 : Nat := 65536
def kMaxContributionsPerNode : Nat := 16
def kMaxDependencyPins : Nat := 4096

/-- One queued arrival, with the predecessor through which it came. -/
structure QueueEntry where
  potential : Potential
  node : Nat
  depth : Nat
  cumulativeGainQ16 : Nat
  parent : Option Nat
  parentEdge : Option Nat
  amplified : Bool
  deriving DecidableEq, Repr

/-- Highest potential first, then fewest hops, then lowest resource index. -/
def QueueEntry.less (a b : QueueEntry) : Bool :=
  if a.potential ≠ b.potential then decide (a.potential.raw < b.potential.raw)
  else if a.depth ≠ b.depth then decide (b.depth < a.depth)
  else decide (b.node < a.node)

theorem QueueEntry.less_iff {a b : QueueEntry} : a.less b = true ↔
    a.potential.raw < b.potential.raw ∨ a.potential.raw = b.potential.raw ∧
      (b.depth < a.depth ∨ b.depth = a.depth ∧ b.node < a.node) := by
  have hpotential : a.potential = b.potential ↔ a.potential.raw = b.potential.raw :=
    ⟨congrArg Potential.raw, fun h => by cases hp : a.potential; cases hq : b.potential; simp_all⟩
  unfold less
  split_ifs with h₁ h₂
  all_goals
    rw [decide_eq_true_iff]
    rw [ne_eq, hpotential] at h₁
    omega

abbrev EntryQueue := PriorityQueue QueueEntry QueueEntry.less

/-- A queue to run the traversal with. -/
def EntryQueue.scan : EntryQueue :=
  PriorityQueue.scan QueueEntry.less
    (fun a b h => by
      rw [QueueEntry.less_iff] at h
      rw [← Bool.not_eq_true, QueueEntry.less_iff]
      omega)
    fun a b c hab hbc => by
      rw [← Bool.not_eq_true, QueueEntry.less_iff] at hab hbc ⊢
      omega

structure NodeAccumulator where
  resource : ResourceId := {}
  bestPotential : Potential := .zero
  strongest : Magnitude := .zero
  received : Bool := false
  forwarded : Bool := false
  bestDepth : Nat := 0
  bestSource : SourceId := {}
  bestPropagation : PropagationId := {}
  parent : ResourceId := {}
  parentEdge : EdgeId := {}
  contributions : List Contribution := []
  contributionsTruncated : Bool := false
  contributionCount : Nat := 0
  blockedReason : SuppressionReason := .noReason
  governingFence : FenceId := {}
  deriving DecidableEq, Repr

abbrev Accumulators := AList fun _ : Nat => NodeAccumulator

namespace Accumulators

/-- The accumulator of a resource index, fresh when there is none yet. -/
def at' (acc : Accumulators) (index : Nat) (id : ResourceId) : NodeAccumulator :=
  (acc.lookup index).getD { resource := id }

def update (acc : Accumulators) (index : Nat) (id : ResourceId)
    (f : NodeAccumulator → NodeAccumulator) : Accumulators :=
  acc.insert index (f (acc.at' index id))

end Accumulators

/-- Refusals of one reason at the current resource. -/
structure SuppressionAggregate where
  src : ResourceId := {}
  dst : ResourceId := {}
  edge : EdgeId := {}
  depth : Nat := 0
  count : Nat := 0
  deriving DecidableEq, Repr

/-- Count one more refused edge; the first one names the example edge. -/
def SuppressionAggregate.add (a : SuppressionAggregate) (edge : DependencyEdge) (depth : Nat) :
    SuppressionAggregate :=
  let a :=
    if a.count = 0 then { a with src := edge.src, dst := edge.dst, edge := edge.id, depth } else a
  if a.count = 0xFFFFFFFF then a else { a with count := a.count + 1 }

def weightedMagnitude (signal : PressureSignal) (m : Magnitude) : Magnitude :=
  Q16.fromRawSaturating (min (m.raw * signal.weightQ16.toNat / 65536) 65536)

/-- Why a resource may not receive. -/
def Resource.blockReason (r : Resource) : SuppressionReason :=
  if r.protection = .sealed then .sealedResource else .observedOnlyResource

/-- What one traversal reads and never writes. -/
structure TraversalContext where
  topo : Topology
  ledger : PropagationLedger
  fences : Option FenceTable
  policy : PropagationPolicy
  now : Tick
  /-- The pinned generation of each edge index, if any. -/
  pins : List (Option Generation)
  signal : PressureSignal
  pid : PropagationId

namespace TraversalContext

variable (ctx : TraversalContext)

def governing (resource : ResourceId) : Option Fence :=
  ctx.fences.bind fun t => t.governing resource ctx.now

/-- The governing fence of a resource when it refuses ingress. -/
def ingressFence (resource : ResourceId) : Option Fence :=
  (ctx.governing resource).filter Fence.refusesIngress

/-- The governing fence of a resource when it refuses egress. -/
def egressFence (resource : ResourceId) : Option Fence :=
  (ctx.governing resource).filter Fence.refusesEgress

def seed : Potential := .fromMagnitude ctx.signal.observation.magnitude

def floorPotential : Potential := .fromMagnitude ctx.policy.minPropagatable

def authorityHops : Nat :=
  if ctx.signal.authority.maxHopsGranted = 0 then ctx.policy.maxHops.toNat
  else min ctx.signal.authority.maxHopsGranted.toNat ctx.policy.maxHops.toNat

def amplificationGranted : Bool :=
  ctx.policy.allowAmplification && ctx.signal.authority.amplificationAuthorized

def grantedGain : Nat :=
  if ctx.amplificationGranted then
    min ctx.policy.maxCumulativeGain.raw ctx.signal.authority.maxGain.raw
  else kUnityGainQ16

/-- The edge is pinned to a generation that it no longer has. -/
def pinRefuses (edgeIndex : Nat) (edge : DependencyEdge) : Bool :=
  match ctx.pins[edgeIndex]? with
  | some (some g) => g != edge.dependencyGeneration
  | _ => false

/-- The bound on the depth of an arrival over the edge. -/
def hopBound (edge : DependencyEdge) : Nat :=
  min (ctx.policy.effectiveMaxHops edge.maxHops) ctx.authorityHops

/-- The gates before any arithmetic, in source order: the index of the target, or the
refusal. -/
def admits (settled : List Nat) (expansions fanout : Nat) (entry : QueueEntry) (edgeIndex : Nat)
    (edge : DependencyEdge) : Except (SuppressionReason × HopVerdict) Nat :=
  if ctx.policy.maxFanout.toNat ≤ fanout then .error (.maxFanout, .suppressed)
  else if ctx.policy.maxExpansions.toNat ≤ expansions then
    .error (.expansionBudgetExhausted, .suppressed)
  else if ctx.pinRefuses edgeIndex edge then .error (.staleDependencyGeneration, .stale)
  else if edge.attenuation.isZero then .error (.zeroAttenuation, .suppressed)
  else if edge.flags.has .recoveryOnly then .error (.recoveryOnlyEdge, .suppressed)
  else match ctx.topo.indexOf edge.dst with
  | none => .error (.missingResource, .suppressed)
  | some toIndex =>
    match ctx.topo.resourceAt toIndex with
    | none => .error (.missingResource, .suppressed)
    | some toRes =>
      if !toRes.canReceive then .error (toRes.blockReason, .suppressed)
      else if toIndex ∈ settled then .error (.nodeAlreadySettled, .loopPrevented)
      else if !ctx.signal.authority.covers edge.dst then .error (.unauthorizedScope, .unauthorized)
      else if (ctx.ingressFence edge.dst).isSome then .error (.fenced, .fenced)
      else if ctx.hopBound edge < entry.depth + 1 then .error (.maxHops, .suppressed)
      else .ok toIndex

/-- The potential and the cumulative gain that arrive over the edge. -/
structure Carried where
  next : Potential
  gain : Nat
  amplified : Bool

/-- Attenuation and, on an amplifying edge, authorised amplification. -/
def carries (entry : QueueEntry) (edge : DependencyEdge) :
    Except (SuppressionReason × HopVerdict) Carried :=
  let next := entry.potential.attenuated edge.attenuation
  if edge.isAmplifying then
    if !ctx.policy.allowAmplification || !ctx.signal.authority.amplificationAuthorized then
      .error (.amplificationNotAuthorized, .unauthorized)
    else
      let requested := entry.cumulativeGainQ16 * edge.amplification.raw / 65536
      if ctx.grantedGain < requested then .error (.amplificationBudgetExhausted, .unauthorized)
      else match next.amplified edge.amplification with
      | .error _ => .error (.amplificationBudgetExhausted, .unauthorized)
      | .ok amplifiedPotential => .ok ⟨amplifiedPotential, requested, true⟩
  else .ok ⟨next, entry.cumulativeGainQ16, entry.amplified⟩

/-- Inside the cooldown window the arrival does not exceed the last accepted one by more
than the hysteresis. -/
def coolingDown (edge : DependencyEdge) (next : Potential) : Bool :=
  let cooldown := ctx.policy.effectiveCooldown edge.cooldownTicks
  let dr := ctx.ledger.damping edge.dst edge.id
  let elapsed := if dr.tick < ctx.now then ctx.now - dr.tick else 0
  let required := Q16.fromRawSaturating
    (min 65536 (dr.magnitude.raw + ctx.policy.hysteresisDelta.raw))
  decide (0 < cooldown) && dr.present && decide (elapsed < cooldown) &&
    decide (next.toMagnitude.raw ≤ required.raw)

/-- The floor and the damping gate. -/
def damps (edge : DependencyEdge) (next : Potential) : Option SuppressionReason :=
  if next.raw < ctx.floorPotential.raw then some .belowFloor
  else if ctx.coolingDown edge next then some .hysteresisNotExceeded
  else none

end TraversalContext

/-- The mutable state of a traversal and the outputs it writes. -/
structure Traversal (pq : EntryQueue) where
  recordBudget : Nat
  currentNode : Option Nat := none
  pending : SuppressionReason → SuppressionAggregate := fun _ => {}
  settled : List Nat := []
  queue : pq.Carrier := pq.empty
  visited : Nat := 0
  expansions : Nat := 0
  acc : Accumulators
  counters : EngineCounters
  expl : PropagationExplanation
  truncated : Bool

/-- The counters after one refused edge. -/
def EngineCounters.countRefusal (c : EngineCounters) (reason : SuppressionReason)
    (verdict : HopVerdict) : EngineCounters :=
  { c with
    hopsSuppressed := c.hopsSuppressed + 1
    loopPreventions := c.loopPreventions + if verdict = .loopPrevented then 1 else 0
    staleRejections := c.staleRejections + if reason = .staleDependencyGeneration then 1 else 0
    fenceRejections := c.fenceRejections + if reason = .fenced then 1 else 0
    unauthorizedRejections := c.unauthorizedRejections +
      if reason = .unauthorizedScope ∨ reason = .amplificationNotAuthorized ∨
        reason = .amplificationBudgetExhausted then 1 else 0
    budgetExhaustions := c.budgetExhaustions +
      if reason = .expansionBudgetExhausted ∨ reason = .visitedBudgetExhausted then 1 else 0 }

namespace Traversal

variable {pq : EntryQueue}

/-- A record budget stopped the explanation from being complete. -/
def noteTruncation (t : Traversal pq) : Traversal pq :=
  { t with
    truncated := true
    counters := { t.counters with recordTruncations := t.counters.recordTruncations + 1 } }

/-- Record a refused edge. -/
def reject (t : Traversal pq) (edge : DependencyEdge) (depth : Nat) (reason : SuppressionReason)
    (verdict : HopVerdict) : Traversal pq :=
  { t with
    pending := Function.update t.pending reason ((t.pending reason).add edge depth)
    counters := t.counters.countRefusal reason verdict }

/-- Emit the aggregated record of one slot, if it holds any refusal. -/
def flushSlot (s : Traversal pq × Bool) (slot : SuppressionReason) : Traversal pq × Bool :=
  let t := s.1
  let aggregate := t.pending slot
  let cleared := Function.update t.pending slot { aggregate with count := 0 }
  if aggregate.count = 0 then s
  else if t.recordBudget = 0 then ({ t with pending := cleared }, false)
  else
    let record : SuppressedEdgeRecord :=
      { src := aggregate.src, dst := aggregate.dst, edge := aggregate.edge
        depth := aggregate.depth, count := aggregate.count, reason := slot }
    ({ t with
      recordBudget := t.recordBudget - 1
      pending := cleared
      expl := { t.expl with suppressed := t.expl.suppressed ++ [record] } }, s.2)

/-- Emit one aggregated record per distinct reason, then reset. -/
@[irreducible] def flushSuppressions (t : Traversal pq) : Traversal pq × Bool :=
  SuppressionReason.slots.foldl flushSlot (t, true)

/-- Flush, and note the truncation when the budget did not suffice. -/
def flushOrTruncate (t : Traversal pq) : Traversal pq :=
  let flushed := t.flushSuppressions
  if flushed.2 then flushed.1 else flushed.1.noteTruncation

/-- Move the aggregation window to a newly settled resource. -/
def beginNode (t : Traversal pq) (node : Nat) : Traversal pq × Bool :=
  if t.currentNode = some node then (t, true)
  else ({ t.flushSuppressions.1 with currentNode := some node }, t.flushSuppressions.2)

def countConsidered (t : Traversal pq) : Traversal pq :=
  { t with counters := { t.counters with hopsConsidered := t.counters.hopsConsidered + 1 } }

/-- Refuse one out-edge for the reason that closes its whole resource. -/
def suppressEdge (ctx : TraversalContext) (depth : Nat) (reason : SuppressionReason)
    (t : Traversal pq) (edgeIndex : Nat) : Traversal pq :=
  let t := t.countConsidered
  match ctx.topo.edgeAt edgeIndex with
  | none => t
  | some edge => t.reject edge depth reason .suppressed

def suppressAll (ctx : TraversalContext) (t : Traversal pq) (node depth : Nat)
    (reason : SuppressionReason) : Traversal pq :=
  ((ctx.topo.outEdgeIndicesAt node).foldl (suppressEdge ctx depth reason) t).flushOrTruncate

/-- Append an accepted hop; nothing when the record budget is spent. -/
def pushHop (t : Traversal pq) (hop : HopRecord) : Option (Traversal pq) :=
  if t.recordBudget = 0 then none
  else some
    { t with
      recordBudget := t.recordBudget - 1
      expl := { t.expl with hops := t.expl.hops ++ [hop] } }

def pushQueue (t : Traversal pq) (entry : QueueEntry) : Traversal pq :=
  if entry.node ∈ t.settled then t else { t with queue := pq.push t.queue entry }

/-- The contribution of the signal that settles a resource. -/
def contributionOf (ctx : TraversalContext) (entry : QueueEntry) : Contribution :=
  { source := ctx.signal.source
    propagation := ctx.pid
    signal := ctx.signal.id
    magnitude := entry.potential.toMagnitude
    weighted := weightedMagnitude ctx.signal entry.potential.toMagnitude
    depth := entry.depth
    sourcePriority := ctx.signal.sourcePriority.toNat }

/-- The accumulator after the signal settled its resource. -/
def settleAccumulator (ctx : TraversalContext) (entry : QueueEntry) (a : NodeAccumulator) :
    NodeAccumulator :=
  let a :=
    if !a.received || decide (a.bestPotential.raw < entry.potential.raw) then
      { a with
        received := true
        bestPotential := entry.potential
        strongest := entry.potential.toMagnitude
        bestDepth := entry.depth
        bestSource := ctx.signal.source
        bestPropagation := ctx.pid
        parent := ((entry.parent.bind ctx.topo.resourceAt).map Resource.id).getD {}
        parentEdge := ((entry.parentEdge.bind ctx.topo.edgeAt).map DependencyEdge.id).getD {}
        blockedReason := .noReason }
    else a
  let a := { a with contributionCount := a.contributionCount + 1 }
  if a.contributions.length < kMaxContributionsPerNode then
    { a with contributions := a.contributions ++ [contributionOf ctx entry] }
  else { a with contributionsTruncated := true }

def recordSettlement (ctx : TraversalContext) (t : Traversal pq) (entry : QueueEntry)
    (res : Resource) : Traversal pq :=
  { t with acc := t.acc.update entry.node res.id (settleAccumulator ctx entry) }

/-- The counters of a settlement. -/
def countSettlement (t : Traversal pq) (depth : Nat) : Traversal pq :=
  { t with
    visited := t.visited + 1
    counters := { t.counters with
      nodesSettled := t.counters.nodesSettled + 1
      peakDepth := max t.counters.peakDepth depth }
    expl := { t.expl with maxDepthReached := max t.expl.maxDepthReached depth } }

def noteAmplification (t : Traversal pq) : Traversal pq :=
  { t with
    counters := { t.counters with amplifications := t.counters.amplifications + 1 }
    expl := { t.expl with amplificationUsed := true } }

/-- Close a resource for further travel, in its accumulator. -/
def block (t : Traversal pq) (node : Nat) (res : Resource) (reason : SuppressionReason) :
    Traversal pq :=
  { t with acc := t.acc.update node res.id fun a => { a with blockedReason := reason } }

/-- Close a resource behind a fence. -/
def fenceOff (t : Traversal pq) (node : Nat) (res : Resource) (fence : Fence) : Traversal pq :=
  { t with
    acc := t.acc.update node res.id fun a =>
      { a with blockedReason := .fenced, governingFence := fence.id }
    counters := { t.counters with fenceRejections := t.counters.fenceRejections + 1 } }

/-- The record of an accepted hop. -/
def acceptedHop (entry : QueueEntry) (res : Resource) (edge : DependencyEdge)
    (carried : TraversalContext.Carried) : HopRecord :=
  { src := res.id
    dst := edge.dst
    edge := edge.id
    depth := entry.depth
    attenuation := edge.attenuation
    gain := edge.amplification
    potentialBefore := entry.potential
    potentialAfter := carried.next
    cumulativeGainQ16 := carried.gain
    verdict := if carried.amplified then .amplified else .propagated
    reason := .noReason }

/-- The arrival that an accepted hop queues. -/
def arrival (entry : QueueEntry) (edgeIndex toIndex : Nat) (carried : TraversalContext.Carried) :
    QueueEntry :=
  { potential := carried.next
    node := toIndex
    depth := entry.depth + 1
    cumulativeGainQ16 := carried.gain
    parent := some entry.node
    parentEdge := some edgeIndex
    amplified := carried.amplified }

/-- After an accepted hop: the source forwards, the target is queued. -/
def cross (t : Traversal pq) (entry : QueueEntry) (res : Resource) (edgeIndex toIndex : Nat)
    (carried : TraversalContext.Carried) : Traversal pq :=
  let t := { t with acc := t.acc.update entry.node res.id fun a => { a with forwarded := true } }
  let t := t.pushQueue (arrival entry edgeIndex toIndex carried)
  { t with
    expansions := t.expansions + 1
    counters := { t.counters with hopsPropagated := t.counters.hopsPropagated + 1 } }

/-- What happened to one out-edge of the resource being expanded. -/
inductive EdgeStep (pq : EntryQueue)
  /-- Refused; the flag asks the loop to stop after this resource. -/
  | refused (t : Traversal pq) (budgetStop : Bool)
  | crossed (t : Traversal pq)
  /-- The record budget is spent. -/
  | exhausted (t : Traversal pq)

def expandEdge (ctx : TraversalContext) (entry : QueueEntry) (res : Resource) (fanout : Nat)
    (t : Traversal pq) (edgeIndex : Nat) : EdgeStep pq :=
  let t := t.countConsidered
  match ctx.topo.edgeAt edgeIndex with
  | none => .refused t false
  | some edge =>
    match ctx.admits t.settled t.expansions fanout entry edgeIndex edge with
    | .error (reason, verdict) =>
      .refused (t.reject edge entry.depth reason verdict) (reason == .expansionBudgetExhausted)
    | .ok toIndex =>
      match ctx.carries entry edge with
      | .error (reason, verdict) => .refused (t.reject edge entry.depth reason verdict) false
      | .ok carried =>
        let t := if edge.isAmplifying then t.noteAmplification else t
        match ctx.damps edge carried.next with
        | some reason => .refused (t.reject edge entry.depth reason .suppressed) false
        | none =>
          match t.pushHop (acceptedHop entry res edge carried) with
          | none => .exhausted t.noteTruncation
          | some t => .crossed (t.cross entry res edgeIndex toIndex carried)

/-- The out-edges in order; the result tells whether the loop goes on. -/
def expandEdges (ctx : TraversalContext) (entry : QueueEntry) (res : Resource) :
    List Nat → Nat → Bool → Traversal pq → Turn (Traversal pq)
  | [], _, budgetStop, t => if budgetStop then .stop t else .again t
  | edgeIndex :: rest, fanout, budgetStop, t =>
    match expandEdge ctx entry res fanout t edgeIndex with
    | .refused t stop => expandEdges ctx entry res rest fanout (budgetStop || stop) t
    | .crossed t => expandEdges ctx entry res rest (fanout + 1) budgetStop t
    | .exhausted t => .stop t

/-- What follows a settlement: the resource is closed, or its edges are expanded. -/
def expand (ctx : TraversalContext) (t : Traversal pq) (entry : QueueEntry) (res : Resource) :
    Turn (Traversal pq) :=
  if ctx.authorityHops ≤ entry.depth then
    .again (t.suppressAll ctx entry.node entry.depth .maxHops)
  else if !res.canForward then
    .again ((t.block entry.node res .protectedBoundary).suppressAll ctx entry.node entry.depth
      .protectedBoundary)
  else match ctx.egressFence res.id with
  | some fence =>
    .again ((t.fenceOff entry.node res fence).suppressAll ctx entry.node entry.depth .fenced)
  | none => expandEdges ctx entry res (ctx.topo.outEdgeIndicesAt entry.node) 0 false t

/-- One turn of the main loop. -/
def turn (ctx : TraversalContext) (t : Traversal pq) : Turn (Traversal pq) :=
  match pq.pop t.queue with
  | none => .stop t
  | some (entry, queue) =>
    if ctx.policy.maxVisited.toNat ≤ t.visited then
      .stop { t with
        counters := { t.counters with budgetExhaustions := t.counters.budgetExhaustions + 1 } }
    else
      let t := { t with queue }
      if ctx.topo.resources.length ≤ entry.node then .again t
      else if entry.node ∈ t.settled then .again t
      else
        let begun := { t with settled := entry.node :: t.settled }.beginNode entry.node
        if !begun.2 then .stop begun.1.noteTruncation
        else
          let t := begun.1.countSettlement entry.depth
          match ctx.topo.resourceAt entry.node with
          | none => .again t
          | some res => (t.recordSettlement ctx entry res).expand ctx entry res

/-- The loop empties its queue or stops within this many turns. -/
def fuel (ctx : TraversalContext) : Nat := ctx.policy.maxExpansions.toNat + 2

/-- The entry that seeds the traversal at its origin. -/
def originEntry (ctx : TraversalContext) (originIndex : Nat) : QueueEntry :=
  { potential := ctx.seed
    node := originIndex
    depth := 0
    cumulativeGainQ16 := kUnityGainQ16
    parent := none
    parentEdge := none
    amplified := false }

/-- The grants of the signal, written to its explanation. -/
def noteGrants (ctx : TraversalContext) (t : Traversal pq) : Traversal pq :=
  { t with
    expl := { t.expl with
      amplificationGranted := ctx.amplificationGranted
      grantedGainQ16 := ctx.grantedGain
      effectiveCeiling := ctx.policy.aggregationCeiling } }

/-- The origin itself may not receive: nothing travels. -/
def blockOrigin (ctx : TraversalContext) (t : Traversal pq) (originIndex : Nat)
    (origin : Resource) (reason : SuppressionReason) : Traversal pq :=
  let t := { t with acc := t.acc.update originIndex origin.id fun a =>
    { a with received := false, blockedReason := reason } }
  t.suppressAll ctx originIndex 0 reason

/-- The start of a traversal: over at once, or a seeded queue for the loop. -/
def enter (ctx : TraversalContext) (t : Traversal pq) :
    Except (Status × Traversal pq) (Traversal pq) :=
  match ctx.topo.indexOf ctx.signal.origin with
  | none => .error (.error .notFound "signal origin resource" ctx.signal.origin.value.toNat, t)
  | some originIndex =>
    match ctx.topo.resourceAt originIndex with
    | none => .error (.error .notFound "signal origin resource" ctx.signal.origin.value.toNat, t)
    | some origin =>
      if ctx.seed.isZero then .error (.error .unknownPressure "signal magnitude is zero" 0, t)
      else
        let t := t.noteGrants ctx
        let t := { t with acc := t.acc.update originIndex origin.id id }
        match ctx.ingressFence origin.id with
        | some fence =>
          let t := { t with
            acc := t.acc.update originIndex origin.id fun a => { a with governingFence := fence.id }
            counters := { t.counters with fenceRejections := t.counters.fenceRejections + 1 } }
          .error (.success, t.blockOrigin ctx originIndex origin .fenced)
        | none =>
          if !origin.canReceive then
            .error (.success, t.blockOrigin ctx originIndex origin origin.blockReason)
          else .ok (t.pushQueue (originEntry ctx originIndex))

/-- The main loop, and the records still due after it. -/
def loop (ctx : TraversalContext) (t : Traversal pq) : Traversal pq :=
  (Lib.Turns.run (turn ctx) (fuel ctx) t).flushOrTruncate

/-- The whole traversal of one signal. -/
def run (ctx : TraversalContext) (t : Traversal pq) : Status × Traversal pq :=
  match t.enter ctx with
  | .error done => done
  | .ok seeded => (.success, seeded.loop ctx)

end Traversal

end Backpressure
