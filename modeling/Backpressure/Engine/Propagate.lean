import Backpressure.Engine.Traversal
import Mathlib.Data.List.Sort

/-!
# One propagation request

`PropagationEngine::propagate` of `engine.cpp`: the request checks, the admission of each
signal, the traversal of every live signal over shared accumulators, the aggregation per
resource, and the commit to the ledger.
-/

namespace Backpressure

structure DependencyPin where
  edge : EdgeId
  generation : Generation
  deriving DecidableEq, Repr

structure PropagationRequest where
  id : PropagationId := {}
  policyId : PolicyId := {}
  policyGeneration : Generation := {}
  topologyDigest : Digest128 := {}
  epoch : Epoch := {}
  now : Tick := kNoTick
  signals : List PressureSignal := []
  pins : List DependencyPin := []
  dryRun : Bool := false
  recordBudgetOverride : UInt32 := 0
  deriving DecidableEq, Repr

structure RejectionRecord where
  signal : SignalId
  source : SourceId
  status : Status
  deriving DecidableEq, Repr

structure PropagationOutcome where
  status : Status := .success
  id : PropagationId := {}
  epoch : Epoch := {}
  topologyDigest : Digest128 := {}
  topologyGeneration : Generation := {}
  now : Tick := kNoTick
  explanations : List PropagationExplanation := []
  rejections : List RejectionRecord := []
  nodes : List NodeOutcome := []
  recoveryNodes : List NodeOutcome := []
  counters : EngineCounters := {}
  complete : Bool := true
  peakDepth : Nat := 0
  fingerprint : Digest128 := {}
  deriving DecidableEq, Repr

/-- Immutable inputs plus the ledger; absent where the source has a null pointer. -/
structure EngineContext where
  topology : Option Topology := none
  policy : Option PropagationPolicy := none
  ledger : Option PropagationLedger := none
  fences : Option FenceTable := none
  liveEpoch : Epoch := {}

/-- A context with every pointer set. -/
def EngineContext.of (topo : Topology) (policy : PropagationPolicy) (ledger : PropagationLedger)
    (fences : Option FenceTable) (liveEpoch : Epoch) : EngineContext :=
  { topology := some topo, policy := some policy, ledger := some ledger, fences, liveEpoch }

/-- The digest over the outcome. -/
def PropagationOutcome.fingerprintOf (o : PropagationOutcome) : Digest128 :=
  let b := (DigestBuilder.domain {} 0x81).updateU64 o.id.value.toNat
  let b := (digestEpoch b o.epoch).updateDigest o.topologyDigest
  let b := (digestGeneration b o.topologyGeneration).updateU64 o.now.toNat
  let b := ((b.updateU16 o.status.code.toNat).updateBool o.complete).updateU32 o.peakDepth
  let b := o.explanations.foldl (fun b e => b.updateDigest e.fingerprint) b
  let b := o.rejections.foldl (fun b r => ((b.updateU64 r.signal.value.toNat).updateU64
    r.source.value.toNat).updateU16 r.status.code.toNat) b
  let b := o.nodes.foldl (fun b n =>
    let b := (b.updateU64 n.resource.value.toNat).updateU32 n.applied.raw
    let b := ((b.updateBool n.received).updateBool n.forwarded).updateU32 n.bestDepth
    (b.updateU64 n.bestSource.value.toNat).updateU8 n.severity.toNat) b
  let b := o.recoveryNodes.foldl (fun b n =>
    ((b.updateU64 n.resource.value.toNat).updateU32 n.applied.raw).updateBool n.recovery) b
  let b := (b.updateU64 o.counters.signalsAccepted).updateU64 o.counters.signalsRejected
  let b := (b.updateU64 o.counters.hopsPropagated).updateU64 o.counters.hopsSuppressed
  b.finish

def PropagationOutcome.seal (o : PropagationOutcome) (fingerprint : Digest128) :
    PropagationOutcome :=
  { o with fingerprint }

def PropagationOutcome.finalize (o : PropagationOutcome) : PropagationOutcome :=
  o.seal o.fingerprintOf

/-! ## Aggregation -/

/-- Sum of the magnitudes, stopped at full. -/
def saturatingSum : Nat → List Contribution → Nat
  | sum, [] => sum
  | sum, c :: rest =>
    if 65536 < sum + c.magnitude.raw then 65536 else saturatingSum (sum + c.magnitude.raw) rest

/-- The winner of two contributions under the priority rule. -/
def priorityWinner (winner c : Contribution) : Contribution :=
  if c.sourcePriority < winner.sourcePriority then c
  else if c.sourcePriority = winner.sourcePriority then
    if winner.magnitude.raw < c.magnitude.raw then c
    else if c.magnitude.raw = winner.magnitude.raw ∧ c.source < winner.source then c
    else winner
  else winner

def largest (best m : Magnitude) : Magnitude := if best.raw < m.raw then m else best

def aggregateContributions (policy : PropagationPolicy) : List Contribution → Magnitude
  | [] => .zero
  | c :: rest =>
    match policy.aggregation with
    | .max => (rest.map Contribution.magnitude).foldl largest c.magnitude
    | .weightedMax => (rest.map Contribution.weighted).foldl largest c.weighted
    | .priorityFirst => (rest.foldl priorityWinner c).magnitude
    | .saturatingSum => Q16.fromRawSaturating (saturatingSum 0 (c :: rest))
    | .count => .zero

/-- The aggregate at a resource, clamped by the policy ceiling. -/
def clampedAggregate (policy : PropagationPolicy) (a : NodeAccumulator) : Magnitude :=
  let aggregated := aggregateContributions policy a.contributions
  if policy.aggregationCeiling.raw < aggregated.raw then policy.aggregationCeiling else aggregated

def clamps (policy : PropagationPolicy) (a : NodeAccumulator) : Bool :=
  decide (policy.aggregationCeiling.raw < (aggregateContributions policy a.contributions).raw)

def nodeOutcome (policy : PropagationPolicy) (a : NodeAccumulator) : NodeOutcome :=
  let applied := if a.received then clampedAggregate policy a else .zero
  { resource := a.resource
    applied
    severity := if a.received then severityFromMagnitude applied policy.thresholds else .unknown
    strongestSingle := a.strongest
    received := a.received
    forwarded := a.forwarded
    bestDepth := a.bestDepth
    bestSource := a.bestSource
    bestPropagation := a.bestPropagation
    parent := a.parent
    parentEdge := a.parentEdge
    contributions := a.contributions
    contributionsTruncated := a.contributionsTruncated
    contributionCount := a.contributionCount
    blockedReason := a.blockedReason
    governingFence := a.governingFence }

/-- One outcome per touched resource, in resource order. -/
def aggregateNodes (policy : PropagationPolicy) (acc : Accumulators) : List NodeOutcome :=
  (acc.entries.map fun e => nodeOutcome policy e.2).insertionSort fun a b => a.resource ≤ b.resource

/-! ## Request checks and admission -/

namespace PropagationEngine

/-- The checks that refuse a whole request before any signal is looked at. -/
def checkRequest (topo : Topology) (policy : PropagationPolicy) (liveEpoch : Epoch)
    (request : PropagationRequest) : Status :=
  policy.validate.andThen <|
  if !request.id.valid then .error .invalidArgument "propagation id" 0
  else if request.policyId ≠ policy.id then
    .error .notFound "policy id" request.policyId.value.toNat
  else if request.policyGeneration ≠ policy.generation then
    .error .staleGeneration "policy generation" request.policyGeneration.value.toNat
  else if request.topologyDigest ≠ topo.digest then
    .error .staleGeneration "topology digest mismatch" 0
  else if request.epoch ≠ liveEpoch then
    .error .staleEpoch "request epoch" request.epoch.value.toNat
  else if request.signals = [] then .error .invalidArgument "no signals" 0
  else .success

/-- Enter one pin; a later pin of the same edge replaces an earlier one. -/
def resolvePin (topo : Topology) (table : List (Option Generation)) (pin : DependencyPin) :
    Result (List (Option Generation)) :=
  match topo.edges.findIdx? fun e => e.id == pin.edge with
  | none => fail .notFound "pinned edge" pin.edge.value.toNat
  | some i => .ok (table.set i (some pin.generation))

/-- The pinned generations by edge index. -/
def resolvePins (topo : Topology) (pins : List DependencyPin) :
    Result (List (Option Generation)) :=
  pins.foldlM (resolvePin topo) (List.replicate topo.edges.length none)

/-- The decision on one signal, given those accepted before it. -/
def admitSignal (policy : PropagationPolicy) (request : PropagationRequest)
    (accepted : List PressureSignal) (signal : PressureSignal) : Status :=
  (signal.validate policy request.now).andThen <|
  if signal.topologyDigest ≠ request.topologyDigest then
    .error .staleGeneration "signal topology digest" signal.origin.value.toNat
  else if signal.epoch ≠ request.epoch then
    .error .staleEpoch "signal epoch" signal.epoch.value.toNat
  else if accepted.any fun other => other.source == signal.source then
    .error .conflict "duplicate source in request" signal.source.value.toNat
  else .success

structure Admission where
  accepted : List PressureSignal := []
  rejections : List RejectionRecord := []
  counters : EngineCounters

def rejectSignal (counters : EngineCounters) (st : Status) : EngineCounters :=
  { counters with
    signalsRejected := counters.signalsRejected + 1
    staleRejections := counters.staleRejections + if isStaleness st.code then 1 else 0
    fenceRejections := counters.fenceRejections + if st.code = .fenced then 1 else 0
    unauthorizedRejections := counters.unauthorizedRejections +
      if st.code = .unauthorized ∨ st.code = .unknownPressure then 1 else 0 }

def admitNext (policy : PropagationPolicy) (request : PropagationRequest) (a : Admission)
    (signal : PressureSignal) : Admission :=
  let st := admitSignal policy request a.accepted signal
  if st.ok then { a with accepted := a.accepted ++ [signal] }
  else
    { a with
      rejections := a.rejections ++ [⟨signal.id, signal.source, st⟩]
      counters := rejectSignal a.counters st }

/-! ## Traversals over shared accumulators -/

/-- The explanation of a signal before its traversal. -/
def baseExplanation (topo : Topology) (policy : PropagationPolicy) (request : PropagationRequest)
    (signal : PressureSignal) : PropagationExplanation :=
  { id := request.id
    signal := signal.id
    source := signal.source
    origin := signal.origin
    sourceSeverity := signal.observation.severity
    sourceMagnitude := signal.observation.magnitude
    lineage := signal.lineage
    topologyDigest := request.topologyDigest
    topologyGeneration := topo.generation
    epoch := request.epoch
    authority := signal.authority
    issuedAt := signal.issuedAt
    deadline := signal.deadline policy }

/-- What the traversals of a request have produced so far. -/
structure Progress where
  acc : Accumulators := ∅
  counters : EngineCounters
  explanations : List PropagationExplanation
  rejections : List RejectionRecord
  truncated : Bool := false

def recordBudget (policy : PropagationPolicy) (request : PropagationRequest) : Nat :=
  if request.recordBudgetOverride = 0 then policy.maxRecords.toNat
  else min request.recordBudgetOverride.toNat policy.maxRecords.toNat

/-- The share of the request's counters that one traversal accounts for. -/
def explanationCounters (before after : EngineCounters) : EngineCounters :=
  { signalsReceived := after.signalsReceived
    nodesSettled := after.nodesSettled - before.nodesSettled
    hopsConsidered := after.hopsConsidered - before.hopsConsidered
    hopsPropagated := after.hopsPropagated - before.hopsPropagated
    hopsSuppressed := after.hopsSuppressed - before.hopsSuppressed
    loopPreventions := after.loopPreventions - before.loopPreventions
    staleRejections := after.staleRejections - before.staleRejections
    fenceRejections := after.fenceRejections - before.fenceRejections
    unauthorizedRejections := after.unauthorizedRejections - before.unauthorizedRejections
    amplifications := after.amplifications - before.amplifications
    budgetExhaustions := after.budgetExhaustions - before.budgetExhaustions
    recordTruncations := after.recordTruncations - before.recordTruncations }

variable (pq : EntryQueue)

def traversalContext (topo : Topology) (policy : PropagationPolicy) (ledger : PropagationLedger)
    (fences : Option FenceTable) (pins : List (Option Generation)) (request : PropagationRequest)
    (signal : PressureSignal) : TraversalContext :=
  { topo, ledger, fences, policy, now := request.now, pins, signal, pid := request.id }

/-- The state in which the traversal of a signal starts. -/
def startTraversal (topo : Topology) (policy : PropagationPolicy) (request : PropagationRequest)
    (p : Progress) (signal : PressureSignal) : Traversal pq :=
  { recordBudget := recordBudget policy request
    acc := p.acc
    counters := p.counters
    expl := baseExplanation topo policy request signal
    truncated := p.truncated }

/-- Traverse one live signal. -/
def traverse (topo : Topology) (policy : PropagationPolicy) (ledger : PropagationLedger)
    (fences : Option FenceTable) (pins : List (Option Generation)) (request : PropagationRequest)
    (p : Progress) (signal : PressureSignal) : Progress :=
  let ctx := traversalContext topo policy ledger fences pins request signal
  let (st, t) := (startTraversal pq topo policy request p signal).run ctx
  if !st.ok then
    { p with
      acc := t.acc
      counters := { t.counters with signalsRejected := t.counters.signalsRejected + 1 }
      rejections := p.rejections ++ [⟨signal.id, signal.source, st⟩]
      truncated := t.truncated }
  else
    let counters := { t.counters with
      signalsAccepted := t.counters.signalsAccepted + 1
      propagations := t.counters.propagations + 1 }
    let expl := { t.expl with
      counters := explanationCounters p.counters counters
      truncated := t.truncated }
    { p with
      acc := t.acc
      counters
      explanations := p.explanations ++ [expl.finalize]
      truncated := t.truncated }

/-! ## Commit -/

/-- Record the applied pressure of the received resources; stop at the first refusal. -/
def commitApplications (now : Tick) : List NodeOutcome → PropagationLedger →
    Status × PropagationLedger
  | [], ledger => (.success, ledger)
  | n :: rest, ledger =>
    if !n.received || n.applied.isZero then commitApplications now rest ledger
    else
      let (st, ledger) := ledger.recordApplication n.bestSource n.resource n.applied now
      if st.ok then commitApplications now rest ledger else (st, ledger)

/-- Record the accepted hops of one explanation; stop at the first refusal. -/
def commitHops (now : Tick) : List HopRecord → PropagationLedger → PropagationLedger
  | [], ledger => ledger
  | hop :: rest, ledger =>
    if !hop.accepted then commitHops now rest ledger
    else
      let (st, ledger) := ledger.recordDamping hop.dst hop.edge hop.potentialAfter.toMagnitude now
      if st.ok then commitHops now rest ledger else ledger

def commitDamping (now : Tick) (explanations : List PropagationExplanation)
    (ledger : PropagationLedger) : PropagationLedger :=
  explanations.foldl (fun ledger e => commitHops now e.hops ledger) ledger

def markLineages (live : List PressureSignal) (ledger : PropagationLedger) : PropagationLedger :=
  live.foldl (fun ledger s => ledger.markLineage s.lineage) ledger

/-! ## The entry point -/

/-- A request past its checks: the outcome so far and the signals that traverse. -/
structure Plan where
  outcome : PropagationOutcome
  live : List PressureSignal
  truncated : Bool

/-- The outcome with the identity of the request. -/
def blankOutcome (request : PropagationRequest) : PropagationOutcome :=
  { id := request.id, epoch := request.epoch, topologyDigest := request.topologyDigest
    now := request.now }

/-- An accepted signal that the ledger does not know yet. -/
def isLive (ledger : PropagationLedger) (s : PressureSignal) : Bool := !ledger.hasLineage s.lineage

/-- All traversals of the live signals, after the replays have been set aside. -/
def traverseAll (topo : Topology) (policy : PropagationPolicy) (ledger : PropagationLedger)
    (fences : Option FenceTable) (pins : List (Option Generation)) (request : PropagationRequest)
    (a : Admission) : Progress :=
  let replays := a.accepted.filter fun s => !isLive ledger s
  let p : Progress :=
    { counters := { a.counters with
        signalsIdempotent := a.counters.signalsIdempotent + replays.length }
      explanations := replays.map fun s => (baseExplanation topo policy request s).finalize
      rejections := a.rejections }
  (a.accepted.filter (isLive ledger)).foldl
    (traverse pq topo policy ledger fences pins request) p

/-- The outcome after aggregation. -/
def assemble (policy : PropagationPolicy) (base : PropagationOutcome) (p : Progress) :
    PropagationOutcome :=
  let nodes := aggregateNodes policy p.acc
  { base with
    explanations := p.explanations
    rejections := p.rejections
    nodes
    counters := { p.counters with
      clamps := p.counters.clamps + (p.acc.entries.filter fun e => clamps policy e.2).length }
    complete := !p.truncated
    peakDepth := nodes.foldl (fun m n => if n.received then max m n.bestDepth else m) 0 }

/-- The signals of a request, each accepted or refused. -/
def admission (policy : PropagationPolicy) (request : PropagationRequest) : Admission :=
  request.signals.foldl (admitNext policy request)
    { counters := { signalsReceived := request.signals.length } }

/-- The outcome of a request that has passed its own checks. -/
def admittedOutcome (topo : Topology) (request : PropagationRequest) : PropagationOutcome :=
  { blankOutcome request with
    topologyGeneration := topo.generation
    counters := { signalsReceived := request.signals.length } }

/-- Admission, traversals and aggregation under resolved pins. -/
def planSignals (topo : Topology) (policy : PropagationPolicy) (ledger : PropagationLedger)
    (fences : Option FenceTable) (pins : List (Option Generation)) (request : PropagationRequest) :
    Except PropagationOutcome Plan :=
  let a := admission policy request
  if a.accepted = [] then
    .error { admittedOutcome topo request with
      rejections := a.rejections
      counters := a.counters
      status := match a.rejections with
        | [] => .error .unknownPressure "no admissible signals" 0
        | r :: _ => r.status }
  else
    let p := traverseAll pq topo policy ledger fences pins request a
    let outcome := assemble policy (admittedOutcome topo request) p
    match outcome.counters.signalsAccepted, outcome.rejections with
    -- every signal was refused: the first refusal is the status
    | 0, r :: _ => .error { outcome with status := r.status }
    | _, _ => .ok { outcome, live := a.accepted.filter (isLive ledger), truncated := p.truncated }

/-- Everything before the commit: a refused outcome, or the plan. -/
def plan (topo : Topology) (policy : PropagationPolicy) (ledger : PropagationLedger)
    (fences : Option FenceTable) (liveEpoch : Epoch) (request : PropagationRequest) :
    Except PropagationOutcome Plan :=
  let st := checkRequest topo policy liveEpoch request
  let n := request.signals.length
  if !st.ok then
    .error { blankOutcome request with topologyGeneration := topo.generation, status := st }
  else if policy.maxSources.toNat < n then
    .error { admittedOutcome topo request with
      counters := { signalsReceived := n, signalsRejected := n }
      status := .error .limitExceeded "source limit" n }
  else if kMaxDependencyPins < request.pins.length then
    .error { admittedOutcome topo request with
      status := .error .limitExceeded "dependency pins" request.pins.length }
  else match resolvePins topo request.pins with
  | .error st => .error { admittedOutcome topo request with status := st }
  | .ok pins => planSignals pq topo policy ledger fences pins request

/-- Write a plan to the ledger: lineages, then applications, then damping. -/
def commit (now : Tick) (p : Plan) (ledger : PropagationLedger) :
    PropagationOutcome × PropagationLedger :=
  let ledger := markLineages p.live ledger
  let (st, ledger) := commitApplications now p.outcome.nodes ledger
  let ledger := commitDamping now p.outcome.explanations ledger
  (if st.ok then p.outcome else { p.outcome with status := st, complete := false }, ledger)

def propagate (ctx : EngineContext) (request : PropagationRequest) :
    PropagationOutcome × Option PropagationLedger :=
  match ctx.topology, ctx.policy, ctx.ledger with
  | some topo, some policy, some ledger =>
    match plan pq topo policy ledger ctx.fences ctx.liveEpoch request with
    | .error outcome => (outcome.finalize, some ledger)
    | .ok p =>
      let (outcome, ledger) :=
        if !request.dryRun && !p.truncated then commit request.now p ledger
        else (p.outcome, ledger)
      let counters := { outcome.counters with lineageEvictions := ledger.lineageEvictions }
      ({ outcome with counters }.finalize, some ledger)
  | _, _, _ =>
    ({ blankOutcome request with
      status := .error .invalidArgument "engine context" 0 }.finalize, ctx.ledger)

end PropagationEngine

end Backpressure
