import Backpressure.Model.Fence
import Backpressure.Model.Policy
import Backpressure.Store.Journal

/-!
# Durable fabric state

`durable_state.hpp`, `durable_state.cpp`: every change is a journal record first and takes effect
in memory once the record is written, and mostly synced. An open replays the records; a compaction
rewrites the journal from the state in memory. The directory and its lock file are not modelled.
-/

namespace Backpressure

def kPolicyFormat : UInt16 := 1
def kFenceFormat : UInt16 := 1
def kMaxPolicyBytes : Nat := 512
def kMaxFenceBytes : Nat := 256
def kMaxJournalPayload : Nat := 4096

/-! ## Codecs -/

/-- A Q16 number as the `u32` the source stores. -/
def encodeRaw (raw : Nat) : Encoder := ByteWriter.u32 (.ofNat raw)

def encodePolicy (p : PropagationPolicy) : Encoder := do
  ByteWriter.u16 kPolicyFormat
  ByteWriter.u64 p.id.value
  ByteWriter.u64 p.generation.value
  ByteWriter.u32 p.maxHops
  ByteWriter.u32 p.maxFanout
  ByteWriter.u32 p.maxExpansions
  ByteWriter.u32 p.maxVisited
  ByteWriter.u32 p.maxSources
  ByteWriter.u32 p.maxRecords
  ByteWriter.u32 p.maxPathRecords
  encodeRaw p.minPropagatable.raw
  ByteWriter.u64 p.lifetimeTicks
  ByteWriter.u8 (.ofNat p.aggregation.toNat)
  encodeRaw p.aggregationCeiling.raw
  ByteWriter.boolean p.allowAmplification
  encodeRaw p.maxCumulativeGain.raw
  ByteWriter.u64 p.defaultCooldownTicks
  encodeRaw p.hysteresisDelta.raw
  encodeRaw p.recoveryDecay.perStep.raw
  ByteWriter.u64 p.recoveryDecay.stepTicks
  encodeRaw p.recoveryDecay.floor.raw
  ByteWriter.u32 p.recoveryDecay.maxSteps
  ByteWriter.u32 p.thresholds.elevatedMilli
  ByteWriter.u32 p.thresholds.highMilli
  ByteWriter.u32 p.thresholds.criticalMilli
  ByteWriter.u32 p.thresholds.exhaustedMilli
  ByteWriter.boolean p.requireKnownPressure

def serializePolicy (p : PropagationPolicy) (maxBytes : Nat) : Result Bytes :=
  ByteWriter.take (min maxBytes kMaxPolicyBytes) (encodePolicy p)

/-- A stored Q16 number; one above 1.0 is refused. -/
def readQ16 (context : String) : Decoder Q16 := do
  let raw ← ByteReader.u32
  ByteReader.refuse (Q16.kOne < raw.toNat) .outOfRange context raw.toNat
  return .fromRawSaturating raw.toNat

def AggregationRule.ofRaw : Nat → AggregationRule
  | 0 => .max
  | 1 => .saturatingSum
  | 2 => .weightedMax
  | 3 => .priorityFirst
  | _ => .count

def decodePolicy : Decoder PropagationPolicy := do
  let format ← ByteReader.u16
  ByteReader.refuse (format ≠ kPolicyFormat) .versionMismatch "policy format" format.toNat
  let rawId ← ByteReader.u64
  let id ← ByteReader.accept (StrongId.fromU64 rawId)
  let generation ← ByteReader.u64
  let maxHops ← ByteReader.u32
  let maxFanout ← ByteReader.u32
  let maxExpansions ← ByteReader.u32
  let maxVisited ← ByteReader.u32
  let maxSources ← ByteReader.u32
  let maxRecords ← ByteReader.u32
  let maxPathRecords ← ByteReader.u32
  let minPropagatable ← readQ16 "policy floor"
  let lifetimeTicks ← ByteReader.u64
  let rule ← ByteReader.u8
  ByteReader.refuse (AggregationRule.count.toNat ≤ rule.toNat) .malformedInput "policy aggregation"
    rule.toNat
  let aggregationCeiling ← readQ16 "policy ceiling"
  let allowAmplification ← ByteReader.boolean
  let rawGain ← ByteReader.u32
  let maxCumulativeGain ← ByteReader.accept (Gain.fromRaw rawGain.toNat)
  let defaultCooldownTicks ← ByteReader.u64
  let hysteresisDelta ← readQ16 "policy hysteresis"
  let perStep ← readQ16 "policy decay"
  let stepTicks ← ByteReader.u64
  let floor ← readQ16 "policy decay floor"
  let maxSteps ← ByteReader.u32
  let elevatedMilli ← ByteReader.u32
  let highMilli ← ByteReader.u32
  let criticalMilli ← ByteReader.u32
  let exhaustedMilli ← ByteReader.u32
  let requireKnownPressure ← ByteReader.boolean
  ByteReader.expectEnd
  let p : PropagationPolicy :=
    { id, generation := ⟨generation⟩, maxHops, maxFanout, maxExpansions, maxVisited, maxSources
      maxRecords, maxPathRecords, minPropagatable, lifetimeTicks
      aggregation := .ofRaw rule.toNat
      aggregationCeiling, allowAmplification, maxCumulativeGain, defaultCooldownTicks
      hysteresisDelta
      recoveryDecay := { perStep, stepTicks, floor, maxSteps }
      thresholds := { elevatedMilli, highMilli, criticalMilli, exhaustedMilli }
      requireKnownPressure }
  ByteReader.accept (if p.validate.ok then .ok p else .error p.validate)

def deserializePolicy (bytes : Bytes) : Result PropagationPolicy :=
  ByteReader.decode decodePolicy bytes

def encodeFence (f : Fence) : Encoder := do
  ByteWriter.u16 kFenceFormat
  ByteWriter.u64 f.id.value
  ByteWriter.u64 f.resource.value
  ByteWriter.u8 (.ofNat f.kind.toNat)
  ByteWriter.u64 f.epoch.value
  ByteWriter.u64 f.dependencyGeneration.value
  ByteWriter.u64 f.expiresAt
  ByteWriter.boolean f.durable
  ByteWriter.digest f.provenance

def serializeFence (f : Fence) : Result Bytes := ByteWriter.take kMaxFenceBytes (encodeFence f)

def FenceKind.ofRaw : Nat → FenceKind
  | 0 => .refuseIngress
  | 1 => .refuseEgress
  | 2 => .barrier
  | _ => .count

def decodeFence : Decoder Fence := do
  let format ← ByteReader.u16
  ByteReader.refuse (format ≠ kFenceFormat) .versionMismatch "fence format" format.toNat
  let rawId ← ByteReader.u64
  let id ← ByteReader.accept (StrongId.fromU64 rawId)
  let rawResource ← ByteReader.u64
  let resource ← ByteReader.accept (StrongId.fromU64 rawResource)
  let kind ← ByteReader.u8
  ByteReader.refuse (FenceKind.count.toNat ≤ kind.toNat) .malformedInput "fence kind" kind.toNat
  let epoch ← ByteReader.u64
  let generation ← ByteReader.u64
  let expiresAt ← ByteReader.u64
  let durable ← ByteReader.boolean
  let provenance ← ByteReader.digest
  ByteReader.expectEnd
  let f : Fence :=
    { id, resource, kind := .ofRaw kind.toNat, epoch := ⟨epoch⟩
      dependencyGeneration := ⟨generation⟩, expiresAt, durable, provenance }
  ByteReader.accept (if f.validate.ok then .ok f else .error f.validate)

def deserializeFence (bytes : Bytes) : Result Fence := ByteReader.decode decodeFence bytes

/-! ## State -/

structure DurableConfig where
  journalLimits : JournalLimits := {}
  maxLineages : Nat := 65536
  maxFootprintEntries : Nat := 65536
  deriving DecidableEq, Repr

structure RecoveredState where
  previousEpoch : Epoch := {}
  epoch : Epoch := {}
  boot : BootId := {}
  incarnation : Incarnation := {}
  bootRecorded : Bool := false
  hasPolicy : Bool := false
  policy : PropagationPolicy := {}
  hasTopologyBinding : Bool := false
  topologyDigest : Digest128 := {}
  topologyGeneration : Generation := {}
  fences : List Fence := []
  lineages : List Digest128 := []
  lineageEvictions : Nat := 0
  revalidationRequired : List ResourceId := []
  footprintEntries : Nat := 0
  footprintOverflow : Nat := 0
  attemptsOpen : Nat := 0
  attemptsAmbiguous : Nat := 0
  attemptsCommitted : Nat := 0
  attemptsAborted : Nat := 0
  recordsReplayed : Nat := 0
  corruptRecords : Nat := 0
  journalRepaired : Bool := false
  deriving DecidableEq, Repr

structure DurableStore where
  config : DurableConfig := {}
  journal : Journal := {}
  state : RecoveredState := {}
  openAttempts : List AttemptId := []
  deriving DecidableEq, Repr

def kRevalidationRequest : UInt8 := 1
def kRevalidationClear : UInt8 := 2
def kRevalidationFootprint : UInt8 := 3

namespace RecoveredState

/-- The lineage goes to the back of the queue unless it is there. -/
def rememberLineage (s : RecoveredState) (maxLineages : Nat) (lineage : Digest128) :
    RecoveredState :=
  if lineage ∈ s.lineages then s
  else if maxLineages ≤ s.lineages.length then
    { s with
      lineages := s.lineages.tail ++ [lineage]
      lineageEvictions := s.lineageEvictions + 1 }
  else { s with lineages := s.lineages ++ [lineage] }

/-- A fence of the same identity is replaced where it is; another one is put at the end. -/
def putFence (s : RecoveredState) (f : Fence) (context : String) : Result RecoveredState :=
  if s.fences.any fun existing => existing.id == f.id then
    .ok { s with
      fences := s.fences.replaceF fun existing => if existing.id = f.id then some f else none }
  else if kMaxFences ≤ s.fences.length then fail .limitExceeded context s.fences.length
  else .ok { s with fences := s.fences ++ [f] }

/-- The first fence of that identity is taken out. -/
def eraseFence (s : RecoveredState) (id : FenceId) : RecoveredState :=
  { s with fences := s.fences.eraseP fun f => f.id == id }

/-- One entry of a stored footprint. -/
def requireFootprint (maxEntries : Nat) (s : RecoveredState) (resource : ResourceId) :
    RecoveredState :=
  if maxEntries ≤ s.revalidationRequired.length then
    { s with footprintOverflow := s.footprintOverflow + 1 }
  else if resource ∈ s.revalidationRequired then s
  else { s with revalidationRequired := s.revalidationRequired ++ [resource] }

end RecoveredState

/-! ## Replay -/

namespace DurableStore

/-- An identity in a record; the sentinel is refused. -/
def readId {tag : IdTag} : Decoder (StrongId tag) := do
  let raw ← ByteReader.u64
  ByteReader.accept (StrongId.fromU64 raw)

def readIncarnation : Decoder Incarnation := do
  let hi ← ByteReader.u64
  let lo ← ByteReader.u64
  let pid ← ByteReader.u32
  let index ← ByteReader.u32
  let seq ← ByteReader.u64
  ByteReader.expectEnd
  return { boot := ⟨hi, lo⟩, pid, index, seq }

/-- The entries of a stored footprint, taken into the state one after the other. -/
def readFootprint (maxEntries : Nat) : Nat → RecoveredState → Decoder RecoveredState
  | 0, s => return s
  | count + 1, s => do
    let rawSource ← ByteReader.u64
    let rawResource ← ByteReader.u64
    let _source : SourceId ← ByteReader.accept (StrongId.fromU64 rawSource)
    let resource ← ByteReader.accept (StrongId.fromU64 rawResource)
    readFootprint maxEntries count (s.requireFootprint maxEntries resource)

def readRevalidation (maxEntries : Nat) (s : RecoveredState) : Decoder RecoveredState := do
  let op ← ByteReader.u8
  if op = kRevalidationRequest ∨ op = kRevalidationClear then
    let resource ← readId
    if op = kRevalidationClear then
      ByteReader.expectEnd
      return { s with revalidationRequired := s.revalidationRequired.erase resource }
    else if resource ∈ s.revalidationRequired then
      ByteReader.expectEnd
      return s
    else if maxEntries ≤ s.revalidationRequired.length then
      return { s with footprintOverflow := s.footprintOverflow + 1 }
    else
      ByteReader.expectEnd
      return { s with revalidationRequired := s.revalidationRequired ++ [resource] }
  else if op = kRevalidationFootprint then
    let count ← ByteReader.u32
    ByteReader.refuse (maxEntries < count.toNat) .oversizedInput "footprint entries" count.toNat
    let s ← readFootprint maxEntries count.toNat s
    ByteReader.expectEnd
    return { s with footprintEntries := s.revalidationRequired.length }
  else ByteReader.accept (fail .malformedInput "revalidation op" op.toNat)

/-- What the payload of a record says, by the type of the record. -/
def readEffect (s : DurableStore) (r : JournalRecord) : Decoder DurableStore :=
  match r.type with
  | .epoch =>
    return { s with state := { s.state with previousEpoch := s.state.epoch, epoch := r.epoch } }
  | .boot => do
    let incarnation ← readIncarnation
    return { s with
      state := { s.state with boot := incarnation.boot, incarnation, bootRecorded := true } }
  | .policy => do
    let policy ← decodePolicy
    return { s with state := { s.state with policy, hasPolicy := true } }
  | .topologyBinding => do
    let topologyDigest ← ByteReader.digest
    let generation ← ByteReader.u64
    ByteReader.expectEnd
    return { s with
      state := { s.state with
        topologyDigest, topologyGeneration := ⟨generation⟩, hasTopologyBinding := true } }
  | .fencePut => do
    let fence ← decodeFence
    let state ← ByteReader.accept (s.state.putFence fence "recovered fences")
    return { s with state }
  | .fenceRemove => do
    let id : FenceId ← readId
    ByteReader.refuse (¬s.state.fences.any fun f => f.id == id) .notFound "fence removal"
      id.value.toNat
    ByteReader.expectEnd
    return { s with state := s.state.eraseFence id }
  | .lineage => do
    let lineage ← ByteReader.digest
    return { s with state := s.state.rememberLineage s.config.maxLineages lineage }
  | .revalidation => do
    let state ← readRevalidation s.config.maxFootprintEntries s.state
    return { s with state }
  | .attemptBegin => do
    let id ← readId
    ByteReader.refuse (id ∈ s.openAttempts) .duplicate "attempt begin" id.value.toNat
    ByteReader.expectEnd
    return { s with openAttempts := s.openAttempts ++ [id] }
  | .attemptCommit => do
    let id ← readId
    ByteReader.refuse (id ∉ s.openAttempts) .notFound "attempt commit" id.value.toNat
    ByteReader.expectEnd
    return { s with
      openAttempts := s.openAttempts.erase id
      state := { s.state with attemptsCommitted := s.state.attemptsCommitted + 1 } }
  | .attemptAbort => do
    let id ← readId
    ByteReader.refuse (id ∉ s.openAttempts) .notFound "attempt abort" id.value.toNat
    ByteReader.expectEnd
    return { s with
      openAttempts := s.openAttempts.erase id
      state := { s.state with attemptsAborted := s.state.attemptsAborted + 1 } }
  | .compaction => do
    let previousEpoch ← ByteReader.u64
    ByteReader.expectEnd
    return { s with state := { s.state with previousEpoch := ⟨previousEpoch⟩ } }
  | .count => ByteReader.accept (fail .malformedInput "record type" RecordType.count.toNat)

def applyRecord (s : DurableStore) (r : JournalRecord) : Result DurableStore :=
  ByteReader.decode (readEffect s r) r.payload

/-- One more record replayed. -/
def countReplayed (s : DurableStore) : DurableStore :=
  { s with state := { s.state with recordsReplayed := s.state.recordsReplayed + 1 } }

/-- The records of the journal, one after the other. -/
def applyAll : List JournalRecord → DurableStore → Result DurableStore
  | [], s => .ok s
  | r :: rest, s =>
    match s.applyRecord r with
    | .error st => .error st
    | .ok s => applyAll rest s.countReplayed

def replay (s : DurableStore) : Result DurableStore :=
  match applyAll s.journal.records s with
  | .error st => .error st
  | .ok s =>
    .ok { s with
      state := { s.state with
        corruptRecords := s.journal.stats.truncatedTailRecords
        journalRepaired := s.journal.stats.repaired
        attemptsOpen := s.openAttempts.length
        attemptsAmbiguous := s.openAttempts.length } }

/-- `DurableStore::open` once it holds the lock of its directory. -/
def openAt (config : DurableConfig) (d : Disk) : Result DurableStore × Disk :=
  if config.journalLimits.maxRecordBytes < kMaxJournalPayload then
    (fail .invalidArgument "journal record bound below payload bound" 0, d)
  else
    match Journal.openAt config.journalLimits true d with
    | (.error st, d) => (fail st.code st.context 0, d)
    | (.ok journal, d) => (replay { config, journal }, d)

/-! ## Changes -/

/-- A record is appended, mostly synced, and then takes effect. -/
def write (s : DurableStore) (type : RecordType) (now : Tick) (epoch : Epoch)
    (payload : Result Bytes) (sync : Bool) (effect : DurableStore → Status × DurableStore)
    (d : Disk) : Status × DurableStore × Disk :=
  match payload with
  | .error st => (st, s, d)
  | .ok payload =>
    let (st, journal, d) := s.journal.append type now epoch payload d
    let s := { s with journal }
    if !st.ok then (st, s, d)
    else
      let (st, d) := if sync then s.journal.sync d else (.success, d)
      if !st.ok then (st, s, d)
      else
        let (st, s) := effect s
        (st, s, d)

/-- An effect that cannot fail. -/
def succeed (f : DurableStore → DurableStore) (s : DurableStore) : Status × DurableStore :=
  (.success, f s)

/-- The guard of every change that needs an epoch. -/
def withEpoch (s : DurableStore) (d : Disk) (next : Status × DurableStore × Disk) :
    Status × DurableStore × Disk :=
  if !s.state.epoch.known then (.error .notReady "epoch not established" 0, s, d) else next

def establishEpoch (s : DurableStore) (now : Tick) (d : Disk) : Status × DurableStore × Disk :=
  match if s.state.epoch.known then s.state.epoch.next else .ok ⟨1⟩ with
  | .error st => (st, s, d)
  | .ok next =>
    s.write .epoch now next (ByteWriter.take 32 (ByteWriter.u64 next.value)) true
      (succeed fun s =>
        { s with state := { s.state with previousEpoch := s.state.epoch, epoch := next } }) d

def encodeIncarnation (i : Incarnation) : Encoder := do
  ByteWriter.u64 i.boot.hi
  ByteWriter.u64 i.boot.lo
  ByteWriter.u32 i.pid
  ByteWriter.u32 i.index
  ByteWriter.u64 i.seq

def recordBoot (s : DurableStore) (incarnation : Incarnation) (now : Tick) (d : Disk) :
    Status × DurableStore × Disk :=
  if !incarnation.valid then (.error .invalidArgument "boot incarnation" 0, s, d)
  else s.withEpoch d <|
    s.write .boot now s.state.epoch (ByteWriter.take 64 (encodeIncarnation incarnation)) true
      (succeed fun s =>
        { s with
          state := { s.state with boot := incarnation.boot, incarnation, bootRecorded := true } }) d

def persistPolicy (s : DurableStore) (policy : PropagationPolicy) (now : Tick) (d : Disk) :
    Status × DurableStore × Disk :=
  if !policy.validate.ok then (policy.validate, s, d)
  else s.withEpoch d <|
    if s.state.hasPolicy ∧ s.state.policy.id = policy.id ∧
        policy.generation.value ≤ s.state.policy.generation.value then
      if s.state.policy.digest = policy.digest then (.success, s, d)
      else (.error .staleGeneration "policy generation" policy.generation.value.toNat, s, d)
    else
      s.write .policy now s.state.epoch
        (serializePolicy policy s.config.journalLimits.maxRecordBytes) true
        (succeed fun s => { s with state := { s.state with policy, hasPolicy := true } }) d

def encodeBinding (digest : Digest128) (generation : Generation) : Encoder := do
  ByteWriter.digest digest
  ByteWriter.u64 generation.value

def bindTopology (s : DurableStore) (digest : Digest128) (generation : Generation) (now : Tick)
    (d : Disk) : Status × DurableStore × Disk :=
  if digest.isZero ∨ !generation.known then (.error .invalidArgument "topology binding" 0, s, d)
  else s.withEpoch d <|
    s.write .topologyBinding now s.state.epoch
      (ByteWriter.take 32 (encodeBinding digest generation)) true
      (succeed fun s =>
        { s with
          state := { s.state with
            topologyDigest := digest, topologyGeneration := generation
            hasTopologyBinding := true } }) d

def putFence (s : DurableStore) (fence : Fence) (now : Tick) (d : Disk) :
    Status × DurableStore × Disk :=
  if !fence.validate.ok then (fence.validate, s, d)
  else s.withEpoch d <|
    match serializeFence fence with
    | .error st => (st, s, d)
    | .ok payload =>
      if s.config.journalLimits.maxRecordBytes < payload.length then
        (.error .oversizedInput "fence record" payload.length, s, d)
      else
        s.write .fencePut now s.state.epoch (.ok payload) true
          (fun s =>
            match s.state.putFence fence "fence capacity" with
            | .error st => (st, s)
            | .ok state => (.success, { s with state })) d

def removeFence (s : DurableStore) (id : FenceId) (now : Tick) (d : Disk) :
    Status × DurableStore × Disk :=
  s.withEpoch d <|
    if ¬s.state.fences.any fun f => f.id == id then
      (.error .notFound "fence remove" id.value.toNat, s, d)
    else
      s.write .fenceRemove now s.state.epoch (ByteWriter.take 16 (ByteWriter.u64 id.value)) true
        (succeed fun s => { s with state := s.state.eraseFence id }) d

def recordLineage (s : DurableStore) (lineage : Digest128) (now : Tick) (d : Disk) :
    Status × DurableStore × Disk :=
  if lineage.isZero then (.error .invalidArgument "lineage digest" 0, s, d)
  else s.withEpoch d <|
    s.write .lineage now s.state.epoch (ByteWriter.take 24 (ByteWriter.digest lineage)) false
      (succeed fun s =>
        { s with state := s.state.rememberLineage s.config.maxLineages lineage }) d

def encodeRevalidation (op : UInt8) (resource : ResourceId) : Encoder := do
  ByteWriter.u8 op
  ByteWriter.u64 resource.value

def requestRevalidation (s : DurableStore) (resource : ResourceId) (now : Tick) (d : Disk) :
    Status × DurableStore × Disk :=
  if !resource.valid then (.error .invalidArgument "revalidation resource" 0, s, d)
  else s.withEpoch d <|
    s.write .revalidation now s.state.epoch
      (ByteWriter.take 16 (encodeRevalidation kRevalidationRequest resource)) true
      (fun s =>
        if resource ∈ s.state.revalidationRequired then (.success, s)
        else if s.config.maxFootprintEntries ≤ s.state.revalidationRequired.length then
          (.error .limitExceeded "revalidation footprint" s.state.revalidationRequired.length,
            { s with
              state := { s.state with footprintOverflow := s.state.footprintOverflow + 1 } })
        else
          (.success, { s with
            state := { s.state with
              revalidationRequired := s.state.revalidationRequired ++ [resource] } })) d

def clearRevalidation (s : DurableStore) (resource : ResourceId) (now : Tick) (d : Disk) :
    Status × DurableStore × Disk :=
  s.withEpoch d <|
    s.write .revalidation now s.state.epoch
      (ByteWriter.take 16 (encodeRevalidation kRevalidationClear resource)) true
      (succeed fun s =>
        { s with
          state := { s.state with
            revalidationRequired := s.state.revalidationRequired.erase resource } }) d

def encodeFootprint (entries : List (SourceId × ResourceId)) : Encoder := do
  ByteWriter.u8 kRevalidationFootprint
  ByteWriter.u32 (.ofNat entries.length)
  entries.forM fun entry => do
    ByteWriter.u64 entry.1.value
    ByteWriter.u64 entry.2.value

/-- The resources of a footprint, up to the first one for which there is no room. -/
def requireAll (maxEntries : Nat) : List (SourceId × ResourceId) → RecoveredState → RecoveredState
  | [], s => s
  | entry :: rest, s =>
    if entry.2 ∈ s.revalidationRequired then requireAll maxEntries rest s
    else if maxEntries ≤ s.revalidationRequired.length then
      { s with footprintOverflow := s.footprintOverflow + 1 }
    else
      requireAll maxEntries rest
        { s with revalidationRequired := s.revalidationRequired ++ [entry.2] }

def recordPressureFootprint (s : DurableStore) (entries : List (SourceId × ResourceId)) (now : Tick)
    (d : Disk) : Status × DurableStore × Disk :=
  s.withEpoch d <|
    if s.config.maxFootprintEntries < entries.length then
      (.error .oversizedInput "footprint entries" entries.length, s, d)
    else if s.config.journalLimits.maxRecordBytes < 5 + entries.length * 16 then
      (.error .oversizedInput "footprint record" (5 + entries.length * 16), s, d)
    else
      s.write .revalidation now s.state.epoch
        (ByteWriter.take s.config.journalLimits.maxRecordBytes (encodeFootprint entries)) true
        (succeed fun s =>
          let state := requireAll s.config.maxFootprintEntries entries s.state
          { s with
            state := { state with footprintEntries := state.revalidationRequired.length } }) d

/-- The payload of the records of an attempt. -/
def attemptPayload (id : AttemptId) : Result Bytes := ByteWriter.take 16 (ByteWriter.u64 id.value)

def beginAttempt (s : DurableStore) (id : AttemptId) (now : Tick) (d : Disk) :
    Status × DurableStore × Disk :=
  if !id.valid then (.error .invalidArgument "attempt id" 0, s, d)
  else s.withEpoch d <|
    if id ∈ s.openAttempts then (.error .duplicate "attempt already open" id.value.toNat, s, d)
    else
      s.write .attemptBegin now s.state.epoch (attemptPayload id) true
        (succeed fun s =>
          { s with
            openAttempts := s.openAttempts ++ [id]
            state := { s.state with attemptsOpen := s.openAttempts.length + 1 } }) d

/-- The attempt is over. -/
def closeAttempt (s : DurableStore) (id : AttemptId) : DurableStore :=
  let openAttempts := s.openAttempts.erase id
  { s with
    openAttempts
    state := { s.state with
      attemptsOpen := openAttempts.length, attemptsAmbiguous := openAttempts.length } }

def commitAttempt (s : DurableStore) (id : AttemptId) (now : Tick) (d : Disk) :
    Status × DurableStore × Disk :=
  if id ∉ s.openAttempts then (.error .notFound "attempt commit" id.value.toNat, s, d)
  else
    s.write .attemptCommit now s.state.epoch (attemptPayload id) true
      (succeed fun s =>
        let s := s.closeAttempt id
        { s with state := { s.state with attemptsCommitted := s.state.attemptsCommitted + 1 } }) d

def abortAttempt (s : DurableStore) (id : AttemptId) (now : Tick) (d : Disk) :
    Status × DurableStore × Disk :=
  if id ∉ s.openAttempts then (.error .notFound "attempt abort" id.value.toNat, s, d)
  else
    s.write .attemptAbort now s.state.epoch (attemptPayload id) true
      (succeed fun s =>
        let s := s.closeAttempt id
        { s with state := { s.state with attemptsAborted := s.state.attemptsAborted + 1 } }) d

/-! ## Compaction -/

/-- The records of one kind in a compacted journal. -/
def compactedRecords {α : Type} (s : DurableStore) (type : RecordType) (payload : α → Result Bytes)
    (xs : List α) : Result (List JournalRecord) :=
  xs.mapM fun x => do
    let bytes ← payload x
    return { type, tick := kNoTick, epoch := s.state.epoch, payload := bytes }

/-- The records that a compaction keeps; the marker comes last. -/
def compacted (s : DurableStore) : Result (List JournalRecord) := do
  let epoch ← s.compactedRecords .epoch (fun v => ByteWriter.take 16 (ByteWriter.u64 v))
    [s.state.epoch.value]
  let boot ← s.compactedRecords .boot (fun i => ByteWriter.take 64 (encodeIncarnation i))
    (if s.state.bootRecorded then [s.state.incarnation] else [])
  let policy ← s.compactedRecords .policy
    (fun p => serializePolicy p s.config.journalLimits.maxRecordBytes)
    (if s.state.hasPolicy then [s.state.policy] else [])
  let topology ← s.compactedRecords .topologyBinding
    (fun t => ByteWriter.take 32 (encodeBinding t.1 t.2))
    (if s.state.hasTopologyBinding then [(s.state.topologyDigest, s.state.topologyGeneration)]
      else [])
  let fences ← s.compactedRecords .fencePut serializeFence s.state.fences
  let revalidation ← s.compactedRecords .revalidation
    (fun resource => ByteWriter.take 16 (encodeRevalidation kRevalidationRequest resource))
    s.state.revalidationRequired
  let lineages ← s.compactedRecords .lineage
    (fun lineage => ByteWriter.take 24 (ByteWriter.digest lineage)) s.state.lineages
  let attempts ← s.compactedRecords .attemptBegin attemptPayload s.openAttempts
  let marker ← s.compactedRecords .compaction (fun v => ByteWriter.take 16 (ByteWriter.u64 v))
    [s.state.epoch.value]
  return epoch ++ boot ++ policy ++ topology ++ fences ++ revalidation ++ lineages ++ attempts ++
    marker

def compact (s : DurableStore) (d : Disk) : Status × DurableStore × Disk :=
  match s.compacted with
  | .error st => (st, s, d)
  | .ok records =>
    let (st, journal, d) := s.journal.rewrite records d
    let s := { s with journal }
    if !st.ok then (st, s, d)
    else
      (.success, { s with state := { s.state with recordsReplayed := s.journal.records.length } }, d)

def compactIfNeeded (s : DurableStore) (recordThreshold : Nat) (d : Disk) :
    Nat × DurableStore × Disk :=
  if recordThreshold = 0 ∨ s.journal.records.length < recordThreshold then (0, s, d)
  else
    let (st, s, d) := s.compact d
    (if st.ok then 1 else 0, s, d)

end DurableStore

end Backpressure
