import Backpressure.Engine.Probe
import Backpressure.Runtime.Books

/-!
# A batch of one

`publish_batch` of one signal plans, commits and verifies as `publish` does, so that it reports the
same outcome and leaves the same ledger and store. The books differ on every exit: it does not count
the signal for its publisher, and not as rejected when the store refuses it.
-/

namespace Backpressure

namespace Fabric

variable {pq : EntryQueue} {F F' : Fabric} {d : Disk} {signal : PressureSignal} {now : Tick}
  {topology : Topology} {policy : PropagationPolicy} {record : PublisherRecord}

/-- Both calls get past their checks of the publisher, the epoch and the topology. -/
structure Checked (F : Fabric) (signal : PressureSignal) (topology : Topology)
    (policy : PropagationPolicy) (record : PublisherRecord) : Prop where
  serving : F.shuttingDown = false
  hasTopology : F.topology = some topology
  hasPolicy : F.policy = some policy
  known : F.publishers.lookup signal.source = some record
  incarnation : record.incarnation = signal.publisher
  live : record.state = .live
  epoch : signal.epoch = F.epoch
  digest : signal.topologyDigest = topology.digest

/-- The counters of the fabric and of its publishers are the same. -/
structure SameCounts (F F' : Fabric) : Prop where
  accepted : F'.signalsAccepted = F.signalsAccepted
  rejected : F'.signalsRejected = F.signalsRejected
  publishers : ∀ source,
    (F'.publishers.lookup source).map (fun r => (r.accepted, r.rejected)) =
      (F.publishers.lookup source).map fun r => (r.accepted, r.rejected)

/-- The dry run of a single signal. -/
def plan (pq : EntryQueue) (F : Fabric) (topology : Topology) (policy : PropagationPolicy)
    (signal : PressureSignal) (now : Tick) : PropagationRequest × PropagationOutcome × Fabric :=
  let (id, F) := F.draw
  let request := requestOf policy topology F.epoch id [signal] now
  (request, F.propagate pq { request with dryRun := true })

theorem books_plan : SameBooks F (F.plan pq topology policy signal now).2.2 :=
  ⟨rfl, rfl, rfl, rfl, rfl⟩

/-- How both calls go on once a plan has been made. -/
theorem publish_checked (h : F.Checked signal topology policy record) :
    F.publish pq signal now d =
      let (request, planned, F₁) := F.plan pq topology policy signal now
      if !planned.status.ok then (.ok planned, F₁.rejectFrom signal.source, d)
      else
        match F₁.transact pq request planned true d with
        | (.refused st, F₂, d) => (.error st, F₂.countRejected, d)
        | (.failed outcome, F₂, d) => (.ok outcome, F₂.rejectFrom signal.source, d)
        | (.mismatch, F₂, d) =>
          (fail .internal "plan/commit fingerprint mismatch" 0, F₂.countRejected, d)
        | (.uncommitted st, F₂, d) => (.error st, F₂.countRejected, d)
        | (.done outcome, F₂, d) =>
          let (F₂, d) := (F₂.acceptFrom signal.source).journalCompactionLocked d
          (.ok outcome, F₂, d) := by
  unfold publish publishLocked
  rw [h.serving, h.hasTopology, h.hasPolicy, if_neg Bool.false_ne_true]
  dsimp only
  rw [h.known]
  dsimp only
  rw [if_neg (not_not.mpr h.incarnation), if_neg (not_not.mpr h.live),
    if_neg (not_not.mpr h.epoch), if_neg (not_not.mpr h.digest)]
  rfl

theorem publishBatch_checked (h : F.Checked signal topology policy record) :
    F.publishBatch pq [signal] now d =
      let (request, planned, F₁) := F.plan pq topology policy signal now
      if !planned.status.ok then (.ok planned, F₁.countRejected, d)
      else
        match F₁.transact pq request planned true d with
        | (.refused st, F₂, d) => (.error st, F₂, d)
        | (.failed outcome, F₂, d) => (.ok outcome, F₂.countRejected, d)
        | (.mismatch, F₂, d) => (fail .internal "plan/commit fingerprint mismatch" 0, F₂, d)
        | (.uncommitted st, F₂, d) => (.error st, F₂, d)
        | (.done outcome, F₂, d) =>
          let F₂ := { F₂ with
            signalsAccepted := F₂.signalsAccepted + outcome.counters.signalsAccepted
            signalsRejected := F₂.signalsRejected + outcome.counters.signalsRejected }
          let (F₂, d) := F₂.journalCompactionLocked d
          (.ok outcome, F₂, d) := by
  have hpublisher : F.checkPublishers [signal] = .success := by
    unfold checkPublishers checkPublisher
    rw [h.known]
    dsimp only
    rw [if_neg (not_not.mpr h.incarnation), if_neg (not_not.mpr h.live)]
    rfl
  unfold publishBatch
  rw [h.serving, h.hasTopology, h.hasPolicy, if_neg Bool.false_ne_true]
  dsimp only
  rw [if_neg (List.cons_ne_nil _ _), hpublisher]
  rfl

/-- The exits of both calls in pairs: the publisher's count of rejections, the fabric's, or the
counts of what was accepted. -/
theorem exits (pq : EntryQueue) (now : Tick) (d : Disk)
    (h : F.Checked signal topology policy record) :
    ∃ result F₂ d₂, F₂.publishers.lookup signal.source = some record ∧
      (F.publish pq signal now d = (result, F₂.rejectFrom signal.source, d₂) ∧
          F.publishBatch pq [signal] now d = (result, F₂.countRejected, d₂) ∨
        F.publish pq signal now d = (result, F₂.countRejected, d₂) ∧
          F.publishBatch pq [signal] now d = (result, F₂, d₂) ∨
        ∃ accepted rejected,
          F.publish pq signal now d =
            (result, (F₂.acceptFrom signal.source).journalCompactionLocked d₂) ∧
          F.publishBatch pq [signal] now d = (result, { F₂ with
            signalsAccepted := accepted, signalsRejected := rejected }.journalCompactionLocked d₂)) := by
  rw [publish_checked h, publishBatch_checked h]
  generalize hplan : F.plan pq topology policy signal now = plan
  have hbooks₁ : SameBooks F plan.2.2 := hplan ▸ books_plan
  obtain ⟨request, planned, F₁⟩ := plan
  have hknown₁ : F₁.publishers.lookup signal.source = some record :=
    (congrArg (·.lookup signal.source) hbooks₁.publishers).trans h.known
  dsimp only
  split
  · exact ⟨.ok planned, F₁, d, hknown₁, .inl ⟨rfl, rfl⟩⟩
  · generalize htransact : F₁.transact pq request planned true d = after
    have hbooks₂ : SameBooks F₁ after.2.1 := htransact ▸ books_transact
    obtain ⟨ending, F₂, d₂⟩ := after
    have hknown₂ : F₂.publishers.lookup signal.source = some record :=
      (congrArg (·.lookup signal.source) hbooks₂.publishers).trans hknown₁
    cases ending with
    | refused st => exact ⟨.error st, F₂, d₂, hknown₂, .inr (.inl ⟨rfl, rfl⟩)⟩
    | failed outcome => exact ⟨.ok outcome, F₂, d₂, hknown₂, .inl ⟨rfl, rfl⟩⟩
    | mismatch => exact ⟨_, F₂, d₂, hknown₂, .inr (.inl ⟨rfl, rfl⟩)⟩
    | uncommitted st => exact ⟨.error st, F₂, d₂, hknown₂, .inr (.inl ⟨rfl, rfl⟩)⟩
    | done outcome => exact ⟨.ok outcome, F₂, d₂, hknown₂, .inr (.inr ⟨_, _, rfl, rfl⟩)⟩

/-! ## The books -/

theorem differ_reject (h : F.publishers.lookup signal.source = some record) :
    ¬SameCounts (F.rejectFrom signal.source) F.countRejected := by
  intro hsame
  have hsource := hsame.publishers signal.source
  have hone : (F.rejectFrom signal.source).publishers.lookup signal.source =
      some { record with rejected := record.rejected + 1 } := by
    unfold rejectFrom
    dsimp only
    rw [h]
    exact AList.lookup_insert _
  have hbatch : F.countRejected.publishers.lookup signal.source = some record := h
  rw [hone, hbatch] at hsource
  simp at hsource

theorem differ_count : ¬SameCounts F.countRejected F := by
  intro hsame
  have hrejected : F.signalsRejected = F.signalsRejected + 1 := hsame.rejected
  omega

theorem differ_accept (h : F.publishers.lookup signal.source = some record) {accepted rejected : Nat}
    {d' : Disk} :
    ¬SameCounts ((F.acceptFrom signal.source).journalCompactionLocked d).1
      ({ F with signalsAccepted := accepted, signalsRejected := rejected }.journalCompactionLocked
        d').1 := by
  intro hsame
  have hsource := hsame.publishers signal.source
  have hone : (F.acceptFrom signal.source).publishers.lookup signal.source =
      some { record with accepted := record.accepted + 1 } := by
    unfold acceptFrom
    dsimp only
    rw [h]
    exact AList.lookup_insert _
  rw [books_journalCompactionLocked.publishers, books_journalCompactionLocked.publishers, hone,
    h] at hsource
  simp at hsource

/-! ## What the calls leave -/

/-- What two calls return and leave, but for the books. -/
structure Twins (one batch : Result PropagationOutcome × Fabric × Disk) : Prop where
  result : batch.1 = one.1
  ledger : batch.2.1.ledger = one.2.1.ledger
  store : batch.2.1.store = one.2.1.store
  disk : batch.2.2 = one.2.2

/-- Compaction does not look at the books. -/
theorem twins_compacted {result : Result PropagationOutcome} (hconfig : F'.config = F.config)
    (hledger : F'.ledger = F.ledger) (hstore : F'.store = F.store) :
    Twins (result, F.journalCompactionLocked d) (result, F'.journalCompactionLocked d) := by
  unfold journalCompactionLocked
  rw [hstore, hconfig]
  split
  · exact ⟨rfl, hledger, hstore, rfl⟩
  · exact ⟨rfl, hledger, rfl, rfl⟩

theorem twins (pq : EntryQueue) (now : Tick) (d : Disk)
    (h : F.Checked signal topology policy record) :
    Twins (F.publish pq signal now d) (F.publishBatch pq [signal] now d) := by
  obtain ⟨result, F₂, d₂, -, ⟨hone, hbatch⟩ | ⟨hone, hbatch⟩ | ⟨accepted, rejected, hone, hbatch⟩⟩ :=
    exits pq now d h
  · rw [hone, hbatch]
    exact ⟨rfl, rfl, rfl, rfl⟩
  · rw [hone, hbatch]
    exact ⟨rfl, rfl, rfl, rfl⟩
  · rw [hone, hbatch]
    exact twins_compacted rfl rfl rfl

theorem counts_differ (pq : EntryQueue) (now : Tick) (d : Disk)
    (h : F.Checked signal topology policy record) :
    ¬SameCounts (F.publish pq signal now d).2.1 (F.publishBatch pq [signal] now d).2.1 := by
  obtain ⟨result, F₂, d₂, hknown, ⟨hone, hbatch⟩ | ⟨hone, hbatch⟩ |
    ⟨accepted, rejected, hone, hbatch⟩⟩ := exits pq now d h
  · rw [hone, hbatch]
    exact differ_reject hknown
  · rw [hone, hbatch]
    exact differ_count
  · rw [hone, hbatch]
    exact differ_accept hknown

/-- Past the checks a batch of one signal returns and leaves what a publish of the signal does, and
the books never agree. -/
theorem batch_of_one (pq : EntryQueue) (now : Tick) (d : Disk)
    (h : F.Checked signal topology policy record) :
    Twins (F.publish pq signal now d) (F.publishBatch pq [signal] now d) ∧
      ¬SameCounts (F.publish pq signal now d).2.1 (F.publishBatch pq [signal] now d).2.1 :=
  ⟨twins pq now d h, counts_differ pq now d h⟩

/-- One resource, a policy and one publisher, without a store. -/
def soloFabric (F : Fabric) : Fabric :=
  let F := (F.installTopology [probeResource ⟨1⟩] [] 1 {}).2.1
  let F := (F.installPolicy probePolicy 2 {}).2.1
  (F.registerPublisher ⟨1⟩ { boot := { lo := 1 }, seq := 1 } 3).2

theorem checked_soloFabric : ∃ F, (openAt {} {} {}).1 = .ok F ∧ ∃ topology policy record,
    F.soloFabric.Checked (probeSignal policy topology ⟨1⟩ 5) topology policy record := by
  refine ⟨{ blank {} {} with epoch := ⟨1⟩ }, rfl, ?_⟩
  generalize hsolo : soloFabric { blank {} {} with epoch := ⟨1⟩ } = solo
  obtain ⟨topology, htopology⟩ : ∃ topology, solo.topology = some topology :=
    Option.isSome_iff_exists.mp (hsolo ▸ by decide +kernel)
  obtain ⟨policy, hpolicy⟩ : ∃ policy, solo.policy = some policy :=
    Option.isSome_iff_exists.mp (hsolo ▸ by decide +kernel)
  have hknown : solo.publishers.lookup ⟨1⟩ = some {
      source := ⟨1⟩, incarnation := { boot := { lo := 1 }, seq := 1 }, state := .live,
      registeredAt := 3, lastHeartbeat := 3 } := hsolo ▸ by decide +kernel
  have hserving : solo.shuttingDown = false := hsolo ▸ by decide +kernel
  have hepoch : (⟨1⟩ : Epoch) = solo.epoch := hsolo ▸ by decide +kernel
  exact ⟨topology, policy, _, hserving, htopology, hpolicy, hknown, rfl, rfl, hepoch, rfl⟩

/-- The signal of the only publisher is reported alike. -/
theorem solo_twins : ∃ F, (openAt {} {} {}).1 = .ok F ∧ ∃ topology policy,
    let signal := probeSignal policy topology ⟨1⟩ 5
    Twins (F.soloFabric.publish .scan signal 5 {}) (F.soloFabric.publishBatch .scan [signal] 5 {}) := by
  obtain ⟨F, hopen, topology, policy, record, hchecked⟩ := checked_soloFabric
  exact ⟨F, hopen, topology, policy, (batch_of_one .scan 5 {} hchecked).1⟩

/-- It is not counted alike. -/
theorem solo_counted : ∃ F, (openAt {} {} {}).1 = .ok F ∧ ∃ topology policy record,
    let signal := probeSignal policy topology ⟨1⟩ 5
    F.soloFabric.Checked signal topology policy record ∧
      ¬SameCounts (F.soloFabric.publish .scan signal 5 {}).2.1
        (F.soloFabric.publishBatch .scan [signal] 5 {}).2.1 := by
  obtain ⟨F, hopen, topology, policy, record, hchecked⟩ := checked_soloFabric
  exact ⟨F, hopen, topology, policy, record, hchecked, counts_differ .scan 5 {} hchecked⟩

end Fabric

end Backpressure
