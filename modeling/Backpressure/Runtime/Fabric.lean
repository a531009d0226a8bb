import Backpressure.Engine.Propagate
import Backpressure.Model.TopologyBuild
import Backpressure.Store.DurableState

/-!
# The fabric

`fabric.hpp`, `fabric.cpp` without the worker pool: the host of the engine, its registry of
publishers and its durable store. Every operation is one critical section of the state mutex; it
takes the disk and gives it back. Tickets and the pool are in a module of their own; `recover` and
the status report are not modelled.
-/

namespace Backpressure

structure FabricConfig where
  /-- A state directory is set. -/
  durable : Bool := false
  journalLimits : JournalLimits := {}
  topologyLimits : TopologyLimits := {}
  maxPublishers : Nat := 64
  ledgerLineageCapacity : Nat := 65536
  ledgerApplicationCapacity : Nat := 65536
  ledgerDampingCapacity : Nat := 65536
  journalCompactionThreshold : Nat := 8192
  maxRevalidationEntries : Nat := 65536
  workerThreads : Nat := 0
  workerQueueCapacity : Nat := 256
  maxTickets : Nat := 4096
  deriving DecidableEq, Repr

inductive PublisherState
  | unknown | live | retired | count
  deriving DecidableEq, Repr

structure PublisherRecord where
  source : SourceId := {}
  incarnation : Incarnation := {}
  state : PublisherState := .unknown
  registeredAt : Tick := kNoTick
  lastHeartbeat : Tick := kNoTick
  accepted : Nat := 0
  rejected : Nat := 0
  restoredFromDurable : Bool := false
  deriving DecidableEq, Repr

structure Fabric where
  config : FabricConfig
  store : Option DurableStore := none
  topology : Option Topology := none
  policy : Option PropagationPolicy := none
  ledger : PropagationLedger
  fences : FenceTable := {}
  publishers : AList fun _ : SourceId => PublisherRecord
  revalidation : List ResourceId := []
  incarnation : Incarnation := {}
  epoch : Epoch := {}
  previousEpoch : Epoch := {}
  topologiesInstalled : Nat := 0
  policiesInstalled : Nat := 0
  signalsAccepted : Nat := 0
  signalsRejected : Nat := 0
  shuttingDown : Bool := false
  /-- The counter of propagations and attempts. -/
  attempts : UInt64 := 1

namespace Fabric

/-! ## Opening -/

def durableConfig (config : FabricConfig) : DurableConfig where
  journalLimits := config.journalLimits
  maxLineages := config.ledgerLineageCapacity
  maxFootprintEntries := min config.maxRevalidationEntries config.ledgerApplicationCapacity

/-- A new fabric, before it opens its store. -/
def blank (config : FabricConfig) (incarnation : Incarnation) : Fabric where
  config
  incarnation
  publishers := ∅
  ledger := .make config.ledgerLineageCapacity config.ledgerApplicationCapacity
    config.ledgerDampingCapacity

/-- The recovered fences, bound to the new epoch. -/
def restoreFences (epoch : Epoch) : List Fence → FenceTable → Result FenceTable
  | [], t => .ok t
  | fence :: rest, t =>
    let (st, t) := t.add { fence with epoch }
    if st.ok then restoreFences epoch rest t else .error st

/-- What a new fabric takes from its store once the epoch and the boot are recorded. -/
def restore (F : Fabric) (store : DurableStore) (previousEpoch : Epoch) : Result Fabric :=
  match restoreFences store.state.epoch store.state.fences F.fences with
  | .error st => .error st
  | .ok fences =>
    .ok { F with
      store := some store
      previousEpoch
      epoch := store.state.epoch
      policy := if store.state.hasPolicy then some store.state.policy else F.policy
      fences
      ledger := store.state.lineages.foldl PropagationLedger.markLineage F.ledger
      revalidation := store.state.revalidationRequired }

/-- `Fabric::open` of an incarnation that was minted for this process, without the worker pool. -/
def openAt (config : FabricConfig) (incarnation : Incarnation) (d : Disk) : Result Fabric × Disk :=
  let F := blank config incarnation
  if config.durable then
    match DurableStore.openAt (durableConfig config) d with
    | (.error st, d) => (.error st, d)
    | (.ok store, d) =>
      let previousEpoch := store.state.epoch
      let (st, store, d) := store.establishEpoch kNoTick d
      if !st.ok then (.error st, d)
      else
        let (st, store, d) := store.recordBoot incarnation kNoTick d
        if !st.ok then (.error st, d) else (F.restore store previousEpoch, d)
  else (.ok { F with epoch := ⟨1⟩ }, d)

/-! ## Configuration and publishers -/

/-- A change of the store, if there is one, and then of the fabric. -/
def withStore (F : Fabric) (change : DurableStore → Disk → Status × DurableStore × Disk) (d : Disk)
    (next : Fabric → Status × Fabric) : Status × Fabric × Disk :=
  match F.store with
  | none =>
    let (st, F) := next F
    (st, F, d)
  | some store =>
    let (st, store, d) := change store d
    let F := { F with store := some store }
    if !st.ok then (st, F, d)
    else
      let (st, F) := next F
      (st, F, d)

def installTopology (F : Fabric) (resources : List Resource) (edges : List DependencyEdge)
    (now : Tick) (d : Disk) : Status × Fabric × Disk :=
  if F.shuttingDown then (.error .shuttingDown "install topology" 0, F, d)
  else
    match Topology.build resources edges F.config.topologyLimits true with
    | .error st => (st, F, d)
    | .ok topology =>
      F.withStore (fun s d => s.bindTopology topology.digest topology.generation now d) d fun F =>
        (.success, { F with
          topology := some topology, topologiesInstalled := F.topologiesInstalled + 1 })

def installPolicy (F : Fabric) (policy : PropagationPolicy) (now : Tick) (d : Disk) :
    Status × Fabric × Disk :=
  if F.shuttingDown then (.error .shuttingDown "install policy" 0, F, d)
  else if !policy.validate.ok then (policy.validate, F, d)
  else
    let install : Status × Fabric × Disk :=
      F.withStore (fun s d => s.persistPolicy policy now d) d fun F =>
        (.success, { F with policy := some policy, policiesInstalled := F.policiesInstalled + 1 })
    match F.policy with
    | none => install
    | some live =>
      if live.id = policy.id ∧ policy.generation.value ≤ live.generation.value then
        if live.digest = policy.digest then (.success, F, d)
        else (.error .staleGeneration "policy generation" policy.generation.value.toNat, F, d)
      else install

def registerPublisher (F : Fabric) (source : SourceId) (incarnation : Incarnation) (now : Tick) :
    Status × Fabric :=
  let record : PublisherRecord :=
    { source, incarnation, state := .live, registeredAt := now, lastHeartbeat := now }
  if F.shuttingDown then (.error .shuttingDown "register publisher" 0, F)
  else if !source.valid ∨ !incarnation.valid then
    (.error .invalidArgument "publisher identity" 0, F)
  else
    match F.publishers.lookup source with
    | some known =>
      if known.incarnation = incarnation then
        let known := { known with state := .live, lastHeartbeat := now }
        (.success, { F with publishers := F.publishers.insert source known })
      else if known.incarnation.boot = incarnation.boot ∧
          incarnation.seq ≤ known.incarnation.seq then
        (.error .staleIncarnation "publisher incarnation" incarnation.seq.toNat, F)
      else (.success, { F with publishers := F.publishers.insert source record })
    | none =>
      if F.config.maxPublishers ≤ F.publishers.entries.length then
        (.error .limitExceeded "publisher registry" F.publishers.entries.length, F)
      else (.success, { F with publishers := F.publishers.insert source record })

def heartbeat (F : Fabric) (source : SourceId) (incarnation : Incarnation) (now : Tick) :
    Status × Fabric :=
  if F.shuttingDown then (.error .shuttingDown "heartbeat" 0, F)
  else
    match F.publishers.lookup source with
    | none => (.error .notFound "publisher" source.value.toNat, F)
    | some record =>
      if record.incarnation ≠ incarnation then
        (.error .staleIncarnation "publisher incarnation" incarnation.seq.toNat, F)
      else if record.state ≠ .live then (.error .notReady "publisher not live" 0, F)
      else if now < record.lastHeartbeat then
        (.error .invalidArgument "heartbeat regression" now.toNat, F)
      else
        (.success,
          { F with publishers := F.publishers.insert source { record with lastHeartbeat := now } })

def retirePublisher (F : Fabric) (source : SourceId) (incarnation : Incarnation) (now : Tick) :
    Status × Fabric :=
  match F.publishers.lookup source with
  | none => (.error .notFound "publisher" source.value.toNat, F)
  | some record =>
    if record.incarnation ≠ incarnation then
      (.error .staleIncarnation "publisher incarnation" incarnation.seq.toNat, F)
    else
      let record := { record with state := .retired, lastHeartbeat := now }
      (.success, { F with publishers := F.publishers.insert source record })

/-! ## Fences and revalidation -/

def putFence (F : Fabric) (fence : Fence) (now : Tick) (d : Disk) : Status × Fabric × Disk :=
  if F.shuttingDown then (.error .shuttingDown "put fence" 0, F, d)
  else
    let fence := if fence.epoch.known then fence else { fence with epoch := F.epoch }
    if fence.epoch ≠ F.epoch then (.error .staleEpoch "fence epoch" fence.epoch.value.toNat, F, d)
    else
      F.withStore (fun s d => s.putFence fence now d) d fun F =>
        let (st, fences) := F.fences.add fence
        (st, { F with fences })

def clearFence (F : Fabric) (id : FenceId) (now : Tick) (d : Disk) : Status × Fabric × Disk :=
  F.withStore (fun s d => s.removeFence id now d) d fun F =>
    let (st, fences) := F.fences.remove id
    (st, { F with fences })

def markRevalidationRequired (F : Fabric) (resource : ResourceId) (now : Tick) (d : Disk) :
    Status × Fabric × Disk :=
  if F.shuttingDown then (.error .shuttingDown "mark revalidation" 0, F, d)
  else
    F.withStore (fun s d => s.requestRevalidation resource now d) d fun F =>
      if resource ∈ F.revalidation then (.success, F)
      else if F.config.maxRevalidationEntries ≤ F.revalidation.length then
        (.error .limitExceeded "revalidation list" F.revalidation.length, F)
      else (.success, { F with revalidation := F.revalidation ++ [resource] })

def clearRevalidation (F : Fabric) (resource : ResourceId) (now : Tick) (d : Disk) :
    Status × Fabric × Disk :=
  F.withStore (fun s d => s.clearRevalidation resource now d) d fun F =>
    (.success, { F with revalidation := F.revalidation.erase resource })

/-! ## Publishing -/

/-- The engine's view of the fabric. -/
def context (F : Fabric) : EngineContext where
  topology := F.topology
  policy := F.policy
  ledger := some F.ledger
  fences := some F.fences
  liveEpoch := F.epoch

/-- The engine runs a request on the ledger of the fabric. -/
def propagate (pq : EntryQueue) (F : Fabric) (request : PropagationRequest) :
    PropagationOutcome × Fabric :=
  let (outcome, ledger) := PropagationEngine.propagate pq F.context request
  (outcome, { F with ledger := ledger.getD F.ledger })

/-- Number propagations and attempts from one counter. -/
def draw (F : Fabric) : UInt64 × Fabric := (F.attempts, { F with attempts := F.attempts + 1 })

/-- One more signal rejected. -/
def countRejected (F : Fabric) : Fabric := { F with signalsRejected := F.signalsRejected + 1 }

/-- One more signal of the source rejected. -/
def rejectFrom (F : Fabric) (source : SourceId) : Fabric :=
  { F.countRejected with
    publishers := match F.publishers.lookup source with
      | none => F.publishers
      | some record => F.publishers.insert source { record with rejected := record.rejected + 1 } }

/-- One more signal of the source accepted. -/
def acceptFrom (F : Fabric) (source : SourceId) : Fabric :=
  { F with
    signalsAccepted := F.signalsAccepted + 1
    publishers := match F.publishers.lookup source with
      | none => F.publishers
      | some record => F.publishers.insert source { record with accepted := record.accepted + 1 } }

/-- The lineages of an attempt that has begun; the attempt is aborted when one is refused. -/
def recordLineages (attempt : AttemptId) (now : Tick) :
    List Digest128 → DurableStore → Disk → Status × DurableStore × Disk
  | [], s, d => (.success, s, d)
  | lineage :: rest, s, d =>
    let (st, s, d) := s.recordLineage lineage now d
    if !st.ok then
      let (_, s, d) := s.abortAttempt attempt now d
      (st, s, d)
    else recordLineages attempt now rest s d

/-- Durable intent: the attempt and the lineages of its signals. -/
def recordIntent (attempt : AttemptId) (lineages : List Digest128) (now : Tick) (s : DurableStore)
    (d : Disk) : Status × DurableStore × Disk :=
  let (st, s, d) := s.beginAttempt attempt now d
  if !st.ok then (st, s, d) else recordLineages attempt now lineages s d

/-- An attempt that is given up; whether that can be recorded is ignored. -/
def abandon (F : Fabric) (attempt : Option AttemptId) (now : Tick) (d : Disk) : Fabric × Disk :=
  match attempt, F.store with
  | some attempt, some store =>
    let (_, store, d) := store.abortAttempt attempt now d
    ({ F with store := some store }, d)
  | _, _ => (F, d)

/-- How the durable part of a publish ends. -/
inductive Ending
  /-- The store has refused the attempt or one of its lineages. -/
  | refused (st : Status)
  /-- The engine has refused the request. -/
  | failed (outcome : PropagationOutcome)
  | mismatch
  /-- The store has refused to commit the attempt. -/
  | uncommitted (st : Status)
  | done (outcome : PropagationOutcome)

/-- Commit into the ledger, verify against the plan, and commit the attempt. -/
def apply (pq : EntryQueue) (F : Fabric) (attempt : Option AttemptId) (request : PropagationRequest)
    (planned : PropagationOutcome) (d : Disk) : Ending × Fabric × Disk :=
  let (outcome, F) := F.propagate pq { request with dryRun := false }
  if !outcome.status.ok then
    let (F, d) := F.abandon attempt request.now d
    (.failed outcome, F, d)
  else if outcome.fingerprint ≠ planned.fingerprint then
    let (F, d) := F.abandon attempt request.now d
    (.mismatch, F, d)
  else
    match attempt, F.store with
    | some attempt, some store =>
      let (st, store, d) := store.commitAttempt attempt request.now d
      let F := { F with store := some store }
      if !st.ok then (.uncommitted st, F, d) else (.done outcome, F, d)
    | _, _ => (.done outcome, F, d)

/-- From durable intent to the commit of the attempt; without a store or accepted signals there is
no attempt. -/
def transact (pq : EntryQueue) (F : Fabric) (request : PropagationRequest)
    (planned : PropagationOutcome) (durableIntent : Bool) (d : Disk) : Ending × Fabric × Disk :=
  match F.store with
  | none => F.apply pq none request planned d
  | some store =>
    if durableIntent && decide (0 < planned.counters.signalsAccepted) then
      let (id, F) := F.draw
      let lineages := request.signals.map PressureSignal.lineage
      let (st, store, d) := recordIntent ⟨id⟩ lineages request.now store d
      let F := { F with store := some store }
      if !st.ok then (.refused st, F, d) else F.apply pq (some ⟨id⟩) request planned d
    else F.apply pq none request planned d

/-- The request of a publish. -/
def requestOf (policy : PropagationPolicy) (topology : Topology) (epoch : Epoch) (id : UInt64)
    (signals : List PressureSignal) (now : Tick) : PropagationRequest where
  id := ⟨id⟩
  policyId := policy.id
  policyGeneration := policy.generation
  topologyDigest := topology.digest
  epoch
  now
  signals

/-- `journal_compaction_locked`: whether the compaction succeeds is ignored. -/
def journalCompactionLocked (F : Fabric) (d : Disk) : Fabric × Disk :=
  match F.store with
  | none => (F, d)
  | some store =>
    let (_, store, d) := store.compactIfNeeded F.config.journalCompactionThreshold d
    ({ F with store := some store }, d)

/-- A plan that is given up because its cancellation was asked for. -/
def cancelled (planned : PropagationOutcome) : PropagationOutcome :=
  { planned with status := .error .cancelled "publish cancelled" 0, complete := false }.finalize

def publishLocked (pq : EntryQueue) (F : Fabric) (signal : PressureSignal) (now : Tick)
    (durableIntent cancelFlag : Bool) (d : Disk) : Result PropagationOutcome × Fabric × Disk :=
  if F.shuttingDown then (fail .shuttingDown "publish" 0, F, d)
  else
    match F.topology, F.policy with
    | some topology, some policy =>
      match F.publishers.lookup signal.source with
      | none => (fail .notFound "publisher" signal.source.value.toNat, F, d)
      | some record =>
        if record.incarnation ≠ signal.publisher then
          (fail .staleIncarnation "publisher incarnation" signal.publisher.seq.toNat,
            F.rejectFrom signal.source, d)
        else if record.state ≠ .live then
          (fail .notReady "publisher not live" 0, F.rejectFrom signal.source, d)
        else if signal.epoch ≠ F.epoch then
          (fail .staleEpoch "signal epoch" signal.epoch.value.toNat, F.rejectFrom signal.source, d)
        else if signal.topologyDigest ≠ topology.digest then
          (fail .staleGeneration "signal topology" 0, F.rejectFrom signal.source, d)
        else
          let (id, F) := F.draw
          let request := requestOf policy topology F.epoch id [signal] now
          let (planned, F) := F.propagate pq { request with dryRun := true }
          if !planned.status.ok then (.ok planned, F.rejectFrom signal.source, d)
          else if cancelFlag then (.ok (cancelled planned), F.countRejected, d)
          else
            match F.transact pq request planned durableIntent d with
            | (.refused st, F, d) => (.error st, F.countRejected, d)
            | (.failed outcome, F, d) => (.ok outcome, F.rejectFrom signal.source, d)
            | (.mismatch, F, d) =>
              (fail .internal "plan/commit fingerprint mismatch" 0, F.countRejected, d)
            | (.uncommitted st, F, d) => (.error st, F.countRejected, d)
            | (.done outcome, F, d) =>
              let (F, d) := (F.acceptFrom signal.source).journalCompactionLocked d
              (.ok outcome, F, d)
    | _, _ => (fail .notReady "fabric not configured" 0, F, d)

def publish (pq : EntryQueue) (F : Fabric) (signal : PressureSignal) (now : Tick) (d : Disk) :
    Result PropagationOutcome × Fabric × Disk :=
  F.publishLocked pq signal now true false d

/-- The publisher of a signal of a batch. -/
def checkPublisher (F : Fabric) (signal : PressureSignal) : Status :=
  match F.publishers.lookup signal.source with
  | none => .error .notFound "publisher" signal.source.value.toNat
  | some record =>
    if record.incarnation ≠ signal.publisher then
      .error .staleIncarnation "publisher incarnation" signal.publisher.seq.toNat
    else if record.state ≠ .live then .error .notReady "publisher not live" 0
    else .success

/-- The publishers of a batch, up to the first that is refused. -/
def checkPublishers (F : Fabric) : List PressureSignal → Status
  | [] => .success
  | signal :: rest => (F.checkPublisher signal).andThen (F.checkPublishers rest)

def publishBatch (pq : EntryQueue) (F : Fabric) (signals : List PressureSignal) (now : Tick)
    (d : Disk) : Result PropagationOutcome × Fabric × Disk :=
  if F.shuttingDown then (fail .shuttingDown "publish batch" 0, F, d)
  else
    match F.topology, F.policy with
    | some topology, some policy =>
      if signals = [] then (fail .invalidArgument "empty signal batch" 0, F, d)
      else if !(F.checkPublishers signals).ok then (.error (F.checkPublishers signals), F, d)
      else
        let (id, F) := F.draw
        let request := requestOf policy topology F.epoch id signals now
        let (planned, F) := F.propagate pq { request with dryRun := true }
        if !planned.status.ok then (.ok planned, F.countRejected, d)
        else
          match F.transact pq request planned true d with
          | (.refused st, F, d) => (.error st, F, d)
          | (.failed outcome, F, d) => (.ok outcome, F.countRejected, d)
          | (.mismatch, F, d) => (fail .internal "plan/commit fingerprint mismatch" 0, F, d)
          | (.uncommitted st, F, d) => (.error st, F, d)
          | (.done outcome, F, d) =>
            let F := { F with
              signalsAccepted := F.signalsAccepted + outcome.counters.signalsAccepted
              signalsRejected := F.signalsRejected + outcome.counters.signalsRejected }
            let (F, d) := F.journalCompactionLocked d
            (.ok outcome, F, d)
    | _, _ => (fail .notReady "fabric not configured" 0, F, d)

/-! ## Flush and shutdown -/

/-- The pairs that carry pressure, in the order of the ledger's table. -/
def footprint (ledger : PropagationLedger) : List (SourceId × ResourceId) :=
  ledger.applications.entries.filterMap fun entry =>
    if entry.2.present && !entry.2.magnitude.isZero then some (entry.1.source, entry.1.resource)
    else none

/-- How many entries go into one record. -/
def footprintChunk (limits : JournalLimits) : Nat :=
  let perRecord := if 16 < limits.maxRecordBytes then (limits.maxRecordBytes - 16) / 16 else 1
  if perRecord = 0 then 1 else perRecord

/-- The footprint in records of bounded size, up to the first that is refused. -/
def recordFootprints (now : Tick) :
    List (List (SourceId × ResourceId)) → DurableStore → Disk → Status × DurableStore × Disk
  | [], s, d => (.success, s, d)
  | slice :: rest, s, d =>
    let (st, s, d) := s.recordPressureFootprint slice now d
    if !st.ok then (st, s, d) else recordFootprints now rest s d

def flushLocked (F : Fabric) (now : Tick) (d : Disk) : Status × Fabric × Disk :=
  match F.store with
  | none => (.success, F, d)
  | some store =>
    let slices := (footprint F.ledger).toChunks (footprintChunk F.config.journalLimits)
    let (st, store, d) := recordFootprints now slices store d
    let F := { F with store := some store }
    if !st.ok then (st, F, d)
    else
      let (st, d) := store.journal.sync d
      (st, F, d)

/-- The last part of `shutdown`, once no worker runs any more. -/
def shutdownLocked (F : Fabric) (now : Tick) (d : Disk) : Status × Fabric × Disk :=
  let (st, F, d) := F.flushLocked now d
  let retire := fun entry : (_ : SourceId) × PublisherRecord =>
    (⟨entry.1, { entry.2 with state := .retired }⟩ : (_ : SourceId) × PublisherRecord)
  (st,
    { F with
      publishers :=
        ⟨F.publishers.entries.map retire, by
          have hkeys : (F.publishers.entries.map retire).keys = F.publishers.entries.keys := by
            simp [List.keys, retire, Function.comp_def]
          rw [List.NodupKeys, hkeys]
          exact F.publishers.nodupKeys⟩
      ledger := F.ledger.clear },
    d)

end Fabric

end Backpressure
