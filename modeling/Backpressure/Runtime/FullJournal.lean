import Backpressure.Engine.Crossable
import Backpressure.Engine.Replay
import Backpressure.Engine.Traces
import Backpressure.Runtime.Restart
import Backpressure.Store.Reopening

/-!
# A full journal

An open writes an epoch and a boot under the limits that the calls before it may have used up, and
does not compact: only an accepted publish does. A fabric is opened again exactly when the journal
as it stands has room for the two records.
-/

namespace Backpressure

/-! ## The footprint -/

/-- The pairs that the ledger knows have valid identities. -/
def PropagationLedger.Identified (l : PropagationLedger) : Prop :=
  ∀ key ∈ l.applications, key.source.valid = true ∧ key.resource.valid = true

theorem PropagationLedger.Identified.congr {l l' : PropagationLedger} (h : l.Identified)
    (happ : l'.applications = l.applications) : l'.Identified := by
  intro key hkey
  rw [happ] at hkey
  exact h key hkey

namespace PropagationEngine

variable {pq : EntryQueue} {ctx : EngineContext} {request : PropagationRequest}
  {ledger : PropagationLedger}

/-- What the engine writes belongs to an accepted signal and a resource of the topology. -/
theorem identified_propagate (htopo : ∀ topo, ctx.topology = some topo → topo.Built)
    (h : ∀ l, ctx.ledger = some l → l.Identified) :
    ∀ l, (propagate pq ctx request).2 = some l → l.Identified := by
  have hcase := propagate_cases pq ctx request
  revert hcase
  generalize propagate pq ctx request = r
  intro hcase l hl
  cases hcase with
  | refused => exact h l hl
  | allRefused _ _ hledger =>
    cases hl
    exact h _ hledger
  | kept _ _ hledger =>
    cases hl
    exact h _ hledger
  | @committed topo policy before after pins st counters ht _ hledger _ _ _ hcommit =>
    cases hl
    have hafter : after = (commitApplications request.now
        (assembled pq topo policy before ctx.fences pins request).nodes
        (markLineages (liveSignals policy before request) before)).2 :=
      (congrArg Prod.snd hcommit).symm
    have hmarked := (applications_markLineages (liveSignals policy before request) before).1
    refine PropagationLedger.Identified.congr (l := after) ?_ applications_commitDamping
    intro key hkey
    by_cases hsame : after.applications.lookup key = before.applications.lookup key
    · have hold : key ∈ before.applications := by
        rw [← AList.lookup_isSome, ← hsame, AList.lookup_isSome]
        exact hkey
      exact h before hledger key hold
    · rw [hafter, ← hmarked] at hsame
      obtain ⟨n, hn, hrecv, rfl⟩ := application_written hsame
      constructor
      · obtain ⟨s, hs, hsource⟩ := bestSource_from n hn hrecv
        have haccepted := accepted_of_mem (List.mem_filter.mp hs).1
        rw [hsource]
        exact (PressureSignal.of_validate haccepted.valid).2.2.1
      · obtain ⟨i, a, ha, rfl⟩ := mem_aggregateNodes.mp hn
        obtain ⟨r, hr, hid⟩ := keyed_progress i a ha
        show a.resource.valid = true
        rw [hid]
        exact Topology.valid_of_built (htopo topo ht) (List.mem_of_getElem? hr)

end PropagationEngine

namespace Fabric

open DurableStore (Kept)

variable {pq : EntryQueue} {config : FabricConfig} {F F' : Fabric} {s : DurableStore} {d d' : Disk}
  {st : Status} {now : Tick}

theorem identified_footprint (h : F.ledger.Identified) :
    ∀ e ∈ footprint F.ledger, e.1.valid = true ∧ e.2.valid = true := by
  intro e he
  obtain ⟨entry, hentry, hsome⟩ := List.mem_filterMap.mp he
  split at hsome
  · cases hsome
    exact h entry.1 (List.mem_map_of_mem hentry)
  · cases hsome

/-- The slices of a list have no elements of their own. -/
theorem mem_of_mem_toChunks {α : Type} {l slice : List α} {n : Nat} {x : α}
    (h : slice ∈ l.toChunks n) (hx : x ∈ slice) : x ∈ l := by
  have hgo : ∀ (n : Nat) (l : List α) (acc : Array α) (done : Array (List α)),
      slice ∈ List.toChunks.go n l acc done → x ∈ l ∨ x ∈ acc ∨ slice ∈ done := by
    intro n l
    induction l with
    | nil =>
      intro acc done hmem
      rw [List.toChunks.go] at hmem
      simp only [Array.toList_push, List.mem_append, Array.mem_toList_iff,
        List.mem_singleton] at hmem
      rcases hmem with hdone | rfl
      · exact .inr (.inr hdone)
      · exact .inr (.inl (Array.mem_toList_iff.mp hx))
    | cons y rest ih =>
      intro acc done hmem
      rw [List.toChunks.go] at hmem
      split at hmem
      · rcases ih _ _ hmem with hrest | hacc | hdone
        · exact .inl (List.mem_cons_of_mem y hrest)
        · simp at hacc
          exact .inl (hacc ▸ List.mem_cons_self)
        · rcases Array.mem_push.mp hdone with hdone | rfl
          · exact .inr (.inr hdone)
          · exact .inr (.inl (Array.mem_toList_iff.mp hx))
      · rcases ih _ _ hmem with hrest | hacc | hdone
        · exact .inl (List.mem_cons_of_mem y hrest)
        · rcases Array.mem_push.mp hacc with hacc | rfl
          · exact .inr (.inl hacc)
          · exact .inl List.mem_cons_self
        · exact .inr (.inr hdone)
  unfold List.toChunks at h
  split at h
  · cases h
  · rw [List.mem_singleton.mp h] at hx
    exact hx
  case h_3 n y rest _ =>
    rcases hgo _ _ _ _ h with hrest | hacc | hdone
    · exact List.mem_cons_of_mem y hrest
    · simp at hacc
      exact hacc ▸ List.mem_cons_self
    · simp at hdone

/-! ## One call -/

/-- A fabric whose store can be opened again, with a topology that was built and a ledger that knows
valid identities only. -/
structure Resting (config : FabricConfig) (F : Fabric) (d : Disk) : Prop where
  same : F.config = config
  store : ∃ s, F.store = some s ∧ Kept (durableConfig config) s d
  topology : ∀ topo, F.topology = some topo → topo.Built
  ledger : F.ledger.Identified

namespace Resting

/-- A change of neither the store nor what the ledger is made of. -/
theorem of_same (h : F.Resting config d) (hconfig : F'.config = F.config)
    (hstore : F'.store = F.store) (htopology : F'.topology = F.topology)
    (hledger : F'.ledger = F.ledger) : F'.Resting config d where
  same := hconfig.trans h.same
  store := by rw [hstore]; exact h.store
  topology := by rw [htopology]; exact h.topology
  ledger := by rw [hledger]; exact h.ledger

/-- A change of the store that keeps it. -/
theorem of_store (h : F.Resting config d) (hkept : Kept (durableConfig config) s d') :
    ({ F with store := some s } : Fabric).Resting config d' where
  same := h.same
  store := ⟨s, rfl, hkept⟩
  topology := h.topology
  ledger := h.ledger

theorem propagate (h : F.Resting config d) {request : PropagationRequest} :
    (F.propagate pq request).2.Resting config d where
  same := h.same
  store := h.store
  topology := h.topology
  ledger := by
    show ((PropagationEngine.propagate pq F.context request).2.getD F.ledger).Identified
    cases hl : (PropagationEngine.propagate pq F.context request).2 with
    | none => exact h.ledger
    | some l =>
      refine PropagationEngine.identified_propagate h.topology (fun l' hl' => ?_) l hl
      cases hl'
      exact h.ledger

/-- A call that changes the store and then the fabric. -/
theorem withStore (h : F.Resting config d)
    {change : DurableStore → Disk → Status × DurableStore × Disk} {next : Fabric → Status × Fabric}
    (hchange : ∀ s st s' d', F.store = some s → Kept (durableConfig config) s d →
      change s d = (st, s', d') → Kept (durableConfig config) s' d')
    (hnext : ∀ F : Fabric, F.Resting config d' → (next F).2.Resting config d')
    (hcall : F.withStore change d next = (st, F', d')) : F'.Resting config d' := by
  obtain ⟨s, hstore, hkept⟩ := h.store
  obtain ⟨st₁, s₁, hwrite, hend⟩ := withStore_cases hstore hcall
  have hafter := h.of_store (hchange s st₁ s₁ d' hstore hkept hwrite)
  rcases hend with ⟨-, -, rfl⟩ | ⟨-, hrun⟩
  · exact hafter
  · have hgoal := hnext _ hafter
    rw [← hrun] at hgoal
    exact hgoal

end Resting

/-! ## Publishing -/

section Publishing

variable {attempt : AttemptId} {request : PropagationRequest} {planned : PropagationOutcome}
  {s' : DurableStore}

theorem kept_recordLineages {lineages : List Digest128} (h : Kept (durableConfig config) s d)
    (hmax : 0 < config.ledgerLineageCapacity)
    (hrun : recordLineages attempt now lineages s d = (st, s', d')) :
    Kept (durableConfig config) s' d' := by
  induction lineages generalizing s d with
  | nil =>
    cases hrun
    exact h
  | cons lineage rest ih =>
    rw [recordLineages] at hrun
    rcases hrecord : s.recordLineage lineage now d with ⟨st₁, s₁, d₁⟩
    rw [hrecord] at hrun
    dsimp only at hrun
    have hkept := h.call hmax (c := .recordLineage lineage now) trivial hrecord
    split at hrun
    · rcases habort : s₁.abortAttempt attempt now d₁ with ⟨st₂, s₂, d₂⟩
      rw [habort] at hrun
      cases hrun
      exact hkept.call hmax (c := .abortAttempt attempt now) trivial habort
    · exact ih hkept hrun

theorem kept_recordIntent {lineages : List Digest128} (h : Kept (durableConfig config) s d)
    (hmax : 0 < config.ledgerLineageCapacity)
    (hrun : recordIntent attempt lineages now s d = (st, s', d')) :
    Kept (durableConfig config) s' d' := by
  unfold recordIntent at hrun
  rcases hbegin : s.beginAttempt attempt now d with ⟨st₁, s₁, d₁⟩
  rw [hbegin] at hrun
  dsimp only at hrun
  have hkept := h.call hmax (c := .beginAttempt attempt now) trivial hbegin
  split at hrun
  · cases hrun
    exact hkept
  · exact kept_recordLineages hkept hmax hrun

namespace Resting

theorem abandon (h : F.Resting config d) (hmax : 0 < config.ledgerLineageCapacity)
    (attempt : Option AttemptId) :
    (F.abandon attempt now d).1.Resting config (F.abandon attempt now d).2 := by
  obtain ⟨s, hstore, hkept⟩ := h.store
  cases attempt with
  | none => exact h
  | some id =>
    unfold Fabric.abandon
    rw [hstore]
    dsimp only
    rcases habort : s.abortAttempt id now d with ⟨st₁, s₁, d₁⟩
    exact h.of_store (hkept.call hmax (c := .abortAttempt id now) trivial habort)

theorem apply (h : F.Resting config d) (hmax : 0 < config.ledgerLineageCapacity)
    (attempt : Option AttemptId) :
    (F.apply pq attempt request planned d).2.1.Resting config
      (F.apply pq attempt request planned d).2.2 := by
  have hran : (F.propagate pq { request with dryRun := false }).2.Resting config d := h.propagate
  unfold Fabric.apply
  dsimp only
  split
  · exact hran.abandon hmax attempt
  · split
    · exact hran.abandon hmax attempt
    · split
      case h_1 _ _ id s hstore =>
        obtain ⟨s₀, hstore₀, hkept⟩ := hran.store
        rw [hstore] at hstore₀
        cases hstore₀
        rcases hcommit : s.commitAttempt id request.now d with ⟨st₁, s₁, d₁⟩
        have hafter := hran.of_store
          (hkept.call hmax (c := .commitAttempt id request.now) trivial hcommit)
        dsimp only
        split
        · exact hafter
        · exact hafter
      case h_2 => exact hran

theorem transact (h : F.Resting config d) (hmax : 0 < config.ledgerLineageCapacity)
    (durableIntent : Bool) :
    (F.transact pq request planned durableIntent d).2.1.Resting config
      (F.transact pq request planned durableIntent d).2.2 := by
  obtain ⟨s, hstore, hkept⟩ := h.store
  unfold Fabric.transact
  rw [hstore]
  dsimp only
  split
  · rcases hintent : recordIntent ⟨F.draw.1⟩ (request.signals.map PressureSignal.lineage)
      request.now s d with ⟨st₁, s₁, d₁⟩
    have hdrawn : F.draw.2.Resting config d := h.of_same rfl rfl rfl rfl
    have hafter := hdrawn.of_store (kept_recordIntent hkept hmax hintent)
    dsimp only
    split
    · exact hafter
    · exact hafter.apply hmax _
  · exact h.apply hmax none

/-- A compaction whose records fit keeps the store. -/
theorem journalCompactionLocked (h : F.Resting config d) (hmax : 0 < config.ledgerLineageCapacity)
    (hfits : ∀ s, F.store = some s → s.CompactFits) :
    (F.journalCompactionLocked d).1.Resting config (F.journalCompactionLocked d).2 := by
  obtain ⟨s, hstore, hkept⟩ := h.store
  unfold Fabric.journalCompactionLocked
  rw [hstore]
  dsimp only
  unfold DurableStore.compactIfNeeded
  split
  · exact h.of_store hkept
  · rcases hcompact : s.compact d with ⟨st₁, s₁, d₁⟩
    exact h.of_store (hkept.call hmax (c := .compact) (hfits s hstore) hcompact)

end Resting

/-- The store that a publish of the signals has when its attempt is over, before it compacts. -/
def Finishes (pq : EntryQueue) (F : Fabric) (signals : List PressureSignal) (now : Tick)
    (d : Disk) (s : DurableStore) : Prop :=
  ∃ topology policy outcome F' d', F.topology = some topology ∧ F.policy = some policy ∧
    (let request := requestOf policy topology F.draw.2.epoch F.draw.1 signals now
     let planned := F.draw.2.propagate pq { request with dryRun := true }
     planned.2.transact pq request planned.1 true d = (.done outcome, F', d')) ∧
    F'.store = some s

namespace Resting

theorem rejectFrom (h : F.Resting config d) {source : SourceId} :
    (F.rejectFrom source).Resting config d := h.of_same rfl rfl rfl rfl

theorem publish {signal : PressureSignal} (h : F.Resting config d)
    (hmax : 0 < config.ledgerLineageCapacity)
    (hfits : ∀ s, F.Finishes pq [signal] now d s → s.CompactFits) :
    (F.publish pq signal now d).2.1.Resting config (F.publish pq signal now d).2.2 := by
  generalize hcall : F.publish pq signal now d = after
  obtain ⟨result, F', d'⟩ := after
  unfold Fabric.publish publishLocked at hcall
  split at hcall
  · cases hcall
    exact h
  split at hcall
  case h_2 =>
    cases hcall
    exact h
  case h_1 topology policy htopology hpolicy =>
    split at hcall
    · cases hcall
      exact h
    iterate 4
      split at hcall
      · cases hcall
        exact h.rejectFrom
    dsimp only at hcall
    have hdrawn : F.draw.2.Resting config d := h.of_same rfl rfl rfl rfl
    have hplanned : (F.draw.2.propagate pq { requestOf policy topology F.draw.2.epoch F.draw.1
        [signal] now with dryRun := true }).2.Resting config d := hdrawn.propagate
    split at hcall
    · cases hcall
      exact hplanned.rejectFrom
    split at hcall
    · cases hcall
      exact hplanned.of_same rfl rfl rfl rfl
    generalize htransact : Fabric.transact pq _ _ _ _ _ = after at hcall
    have hafter : after.2.1.Resting config after.2.2 := by
      rw [← htransact]
      exact hplanned.transact hmax true
    obtain ⟨ending, F₁, d₁⟩ := after
    cases ending with
    | done outcome =>
      cases hcall
      have hdone : (F₁.acceptFrom signal.source).Resting config d₁ := hafter.of_same rfl rfl rfl rfl
      exact hdone.journalCompactionLocked hmax fun s hs =>
        hfits s ⟨topology, policy, outcome, F₁, d₁, htopology, hpolicy, htransact, hs⟩
    | refused st =>
      cases hcall
      exact hafter.of_same rfl rfl rfl rfl
    | failed outcome =>
      cases hcall
      exact hafter.rejectFrom
    | mismatch =>
      cases hcall
      exact hafter.of_same rfl rfl rfl rfl
    | uncommitted st =>
      cases hcall
      exact hafter.of_same rfl rfl rfl rfl

theorem publishBatch {signals : List PressureSignal} (h : F.Resting config d)
    (hmax : 0 < config.ledgerLineageCapacity)
    (hfits : ∀ s, F.Finishes pq signals now d s → s.CompactFits) :
    (F.publishBatch pq signals now d).2.1.Resting config (F.publishBatch pq signals now d).2.2 := by
  generalize hcall : F.publishBatch pq signals now d = after
  obtain ⟨result, F', d'⟩ := after
  unfold Fabric.publishBatch at hcall
  split at hcall
  · cases hcall
    exact h
  split at hcall
  case h_2 =>
    cases hcall
    exact h
  case h_1 topology policy htopology hpolicy =>
    split at hcall
    · cases hcall
      exact h
    split at hcall
    · cases hcall
      exact h
    dsimp only at hcall
    have hdrawn : F.draw.2.Resting config d := h.of_same rfl rfl rfl rfl
    have hplanned : (F.draw.2.propagate pq { requestOf policy topology F.draw.2.epoch F.draw.1
        signals now with dryRun := true }).2.Resting config d := hdrawn.propagate
    split at hcall
    · cases hcall
      exact hplanned.of_same rfl rfl rfl rfl
    generalize htransact : Fabric.transact pq _ _ _ _ _ = after at hcall
    have hafter : after.2.1.Resting config after.2.2 := by
      rw [← htransact]
      exact hplanned.transact hmax true
    obtain ⟨ending, F₁, d₁⟩ := after
    cases ending with
    | done outcome =>
      have hdone : ∀ accepted rejected, ({ F₁ with
          signalsAccepted := accepted, signalsRejected := rejected } : Fabric).Resting config d₁ :=
        fun _ _ => hafter.of_same rfl rfl rfl rfl
      cases hcall
      exact (hdone _ _).journalCompactionLocked hmax fun s hs =>
        hfits s ⟨topology, policy, outcome, F₁, d₁, htopology, hpolicy, htransact, hs⟩
    | refused st =>
      cases hcall
      exact hafter
    | failed outcome =>
      cases hcall
      exact hafter.of_same rfl rfl rfl rfl
    | mismatch =>
      cases hcall
      exact hafter
    | uncommitted st =>
      cases hcall
      exact hafter

end Resting

end Publishing

/-! ## The other calls -/

theorem kept_recordFootprints {slices : List (List (SourceId × ResourceId))} {s' : DurableStore}
    (h : Kept (durableConfig config) s d) (hmax : 0 < config.ledgerLineageCapacity)
    (hslices : ∀ slice ∈ slices, (∀ e ∈ slice, e.1.valid = true ∧ e.2.valid = true) ∧
      5 + slice.length * 16 < 2 ^ 32)
    (hrun : recordFootprints now slices s d = (st, s', d')) :
    Kept (durableConfig config) s' d' := by
  induction slices generalizing s d with
  | nil =>
    cases hrun
    exact h
  | cons slice rest ih =>
    rw [List.forall_mem_cons] at hslices
    rw [recordFootprints] at hrun
    rcases hrecord : s.recordPressureFootprint slice now d with ⟨st₁, s₁, d₁⟩
    rw [hrecord] at hrun
    have hkept := h.call hmax (c := .recordPressureFootprint slice now)
      (fun _ _ => hslices.1) hrecord
    dsimp only at hrun
    split at hrun
    · cases hrun
      exact hkept
    · exact ih hkept hslices.2 hrun

theorem kept_sync {config : DurableConfig} (h : Kept config s d) :
    Kept config s (s.journal.sync d).2 := by
  rcases hsync : s.journal.sync d with ⟨st, d'⟩
  obtain ⟨hbytes, -⟩ := Journal.sync_cases hsync
  refine ⟨h.refined, h.limits, h.live.of_bytes hbytes, ?_⟩
  show d'.faults = []
  unfold Journal.sync at hsync
  split at hsync
  · cases hsync
    exact h.faults
  · unfold Disk.sync at hsync
    split at hsync <;> cases hsync <;> exact congrArg List.tail h.faults

namespace Resting

theorem putFence {fence : Fence} (h : F.Resting config d) (hmax : 0 < config.ledgerLineageCapacity)
    (hsafe : ∀ s, F.store = some s →
      (DurableStore.Call.putFence (fence.rebind F.epoch) now).Safe s)
    (hcall : F.putFence fence now d = (st, F', d')) : F'.Resting config d' := by
  obtain ⟨s, hstore, hkept⟩ := h.store
  rcases putFence_cases hstore hcall with
    ⟨-, rfl, rfl⟩ | ⟨f, st₁, s₁, ⟨-, hrebind, hepoch⟩, hwrite, hend⟩
  · exact h
  have hbound : f = fence.rebind F.epoch := by rw [← hrebind, Fence.rebind, ← hepoch]
  have hafter := h.of_store (hkept.call hmax (c := .putFence f now)
    (by rw [hbound]; exact hsafe s hstore) hwrite)
  rcases hend with ⟨-, -, rfl⟩ | ⟨-, -, rfl⟩
  · exact hafter
  · exact hafter.of_same rfl rfl rfl rfl

theorem clearFence {id : FenceId} (h : F.Resting config d)
    (hmax : 0 < config.ledgerLineageCapacity)
    (hcall : F.clearFence id now d = (st, F', d')) : F'.Resting config d' :=
  h.withStore (fun _ _ _ _ _ hk hrun => hk.call hmax (c := .removeFence id now) trivial hrun)
    (fun _ hF => hF.of_same rfl rfl rfl rfl) hcall

theorem installTopology {resources : List Resource} {edges : List DependencyEdge}
    (h : F.Resting config d) (hmax : 0 < config.ledgerLineageCapacity)
    (hcall : F.installTopology resources edges now d = (st, F', d')) : F'.Resting config d' := by
  unfold Fabric.installTopology at hcall
  split at hcall
  · cases hcall
    exact h
  split at hcall
  · cases hcall
    exact h
  case h_2 topology hbuild =>
    refine h.withStore (fun s st s' d' _ hk hrun => ?_) (fun F hF => ?_) hcall
    · exact hk.call hmax (c := .bindTopology topology.digest topology.generation now) trivial hrun
    · refine ⟨hF.same, hF.store, fun topo htopo => ?_, hF.ledger⟩
      cases htopo
      exact ⟨_, _, _, _, hbuild⟩

theorem installPolicy {policy : PropagationPolicy} (h : F.Resting config d)
    (hmax : 0 < config.ledgerLineageCapacity)
    (hcall : F.installPolicy policy now d = (st, F', d')) : F'.Resting config d' := by
  have hinstall : ∀ {st F' d'}, F.withStore (fun s d => s.persistPolicy policy now d) d (fun F =>
      (.success, { F with policy := some policy, policiesInstalled := F.policiesInstalled + 1 })) =
      (st, F', d') → F'.Resting config d' := fun hrun =>
    h.withStore (fun _ _ _ _ _ hk hrun =>
        hk.call hmax (c := .persistPolicy policy now) trivial hrun)
      (fun _ hF => hF.of_same rfl rfl rfl rfl) hrun
  unfold Fabric.installPolicy at hcall
  split at hcall
  · cases hcall
    exact h
  split at hcall
  · cases hcall
    exact h
  dsimp only at hcall
  split at hcall
  · exact hinstall hcall
  split at hcall
  · split at hcall
    · cases hcall
      exact h
    · cases hcall
      exact h
  · exact hinstall hcall

theorem markRevalidationRequired {resource : ResourceId} (h : F.Resting config d)
    (hmax : 0 < config.ledgerLineageCapacity)
    (hcall : F.markRevalidationRequired resource now d = (st, F', d')) : F'.Resting config d' := by
  unfold Fabric.markRevalidationRequired at hcall
  split at hcall
  · cases hcall
    exact h
  refine h.withStore (fun _ _ _ _ _ hk hrun =>
    hk.call hmax (c := .requestRevalidation resource now) trivial hrun) (fun F hF => ?_) hcall
  split
  · exact hF
  · split
    · exact hF
    · exact hF.of_same rfl rfl rfl rfl

theorem clearRevalidation {resource : ResourceId} (h : F.Resting config d)
    (hmax : 0 < config.ledgerLineageCapacity)
    (hsafe : ∀ s, F.store = some s → (DurableStore.Call.clearRevalidation resource now).Safe s)
    (hcall : F.clearRevalidation resource now d = (st, F', d')) : F'.Resting config d' :=
  h.withStore (fun s _ _ _ hs hk hrun =>
      hk.call hmax (c := .clearRevalidation resource now) (hsafe s hs) hrun)
    (fun _ hF => hF.of_same rfl rfl rfl rfl) hcall

theorem flushLocked (h : F.Resting config d) (hmax : 0 < config.ledgerLineageCapacity)
    (hshort : ∀ slice ∈ (footprint F.ledger).toChunks (footprintChunk F.config.journalLimits),
      5 + slice.length * 16 < 2 ^ 32)
    (hcall : F.flushLocked now d = (st, F', d')) : F'.Resting config d' := by
  obtain ⟨s, hstore, hkept⟩ := h.store
  unfold Fabric.flushLocked at hcall
  rw [hstore] at hcall
  dsimp only at hcall
  rcases hrecord : recordFootprints now ((footprint F.ledger).toChunks
    (footprintChunk F.config.journalLimits)) s d with ⟨st₁, s₁, d₁⟩
  rw [hrecord] at hcall
  have hkept₁ := kept_recordFootprints hkept hmax (fun slice hslice =>
    ⟨fun e he => identified_footprint h.ledger e (mem_of_mem_toChunks hslice he),
      hshort slice hslice⟩) hrecord
  dsimp only at hcall
  split at hcall
  · cases hcall
    exact h.of_store hkept₁
  · cases hcall
    exact h.of_store (kept_sync hkept₁)

end Resting

/-- A fabric that was just opened. -/
theorem openAt_resting {i : Incarnation} (hdurable : config.durable = true)
    (hfaults : d.faults = []) (h : openAt config i d = (.ok F, d')) : F.Resting config d' := by
  obtain ⟨-, -, s, -, hfenced, -, hkept⟩ := openAt_restores hdurable h
  have hrest : F.config = config ∧ F.topology = none ∧ F.ledger.applications = ∅ := by
    unfold openAt at h
    dsimp only at h
    rw [if_pos hdurable] at h
    split at h
    case h_1 => cases h
    split at h
    · cases h
    split at h
    · cases h
    · have hrestore := congrArg Prod.fst h
      dsimp only at hrestore
      unfold restore at hrestore
      split at hrestore
      · cases hrestore
      · cases hrestore
        refine ⟨rfl, rfl, ?_⟩
        exact List.foldlRecOn (motive := fun l : PropagationLedger => l.applications = ∅)
          _ _ rfl fun l hl lineage _ => hl
  refine ⟨hrest.1, ⟨s, hfenced.store, hkept hfaults⟩, fun topo htopo => ?_, fun key hkey => ?_⟩
  · rw [hrest.2.1] at htopo
    cases htopo
  · rw [hrest.2.2] at hkey
    exact absurd hkey (AList.notMem_empty key)

/-! ## Runs -/

/-- The calls on an open fabric. -/
inductive Request
  | publish (signal : PressureSignal) (now : Tick)
  | publishBatch (signals : List PressureSignal) (now : Tick)
  | putFence (fence : Fence) (now : Tick)
  | clearFence (id : FenceId) (now : Tick)
  | installPolicy (policy : PropagationPolicy) (now : Tick)
  | installTopology (resources : List Resource) (edges : List DependencyEdge) (now : Tick)
  | markRevalidationRequired (resource : ResourceId) (now : Tick)
  | clearRevalidation (resource : ResourceId) (now : Tick)
  | flush (now : Tick)
  | registerPublisher (source : SourceId) (incarnation : Incarnation) (now : Tick)
  | heartbeat (source : SourceId) (incarnation : Incarnation) (now : Tick)
  | retirePublisher (source : SourceId) (incarnation : Incarnation) (now : Tick)

/-- The fabric and the disk after a call, whatever it returns. -/
def Request.run (pq : EntryQueue) (F : Fabric) (d : Disk) : Request → Fabric × Disk
  | publish signal now => (F.publish pq signal now d).2
  | publishBatch signals now => (F.publishBatch pq signals now d).2
  | putFence fence now => (F.putFence fence now d).2
  | clearFence id now => (F.clearFence id now d).2
  | installPolicy policy now => (F.installPolicy policy now d).2
  | installTopology resources edges now => (F.installTopology resources edges now d).2
  | markRevalidationRequired resource now => (F.markRevalidationRequired resource now d).2
  | clearRevalidation resource now => (F.clearRevalidation resource now d).2
  | flush now => (F.flushLocked now d).2
  | registerPublisher source incarnation now => ((F.registerPublisher source incarnation now).2, d)
  | heartbeat source incarnation now => ((F.heartbeat source incarnation now).2, d)
  | retirePublisher source incarnation now => ((F.retirePublisher source incarnation now).2, d)

/-- Every record that the call writes can be replayed, and what it compacts fits into the memory
for it. -/
def Request.Clean (pq : EntryQueue) (F : Fabric) (d : Disk) : Request → Prop
  | publish signal now => ∀ s, F.Finishes pq [signal] now d s → s.CompactFits
  | publishBatch signals now => ∀ s, F.Finishes pq signals now d s → s.CompactFits
  | putFence fence now => ∀ s, F.store = some s →
      (DurableStore.Call.putFence (fence.rebind F.epoch) now).Safe s
  | clearRevalidation resource now => ∀ s, F.store = some s →
      (DurableStore.Call.clearRevalidation resource now).Safe s
  | flush _ => ∀ slice ∈ (footprint F.ledger).toChunks (footprintChunk F.config.journalLimits),
      5 + slice.length * 16 < 2 ^ 32
  | _ => True

theorem Resting.registerPublisher {source : SourceId} {incarnation : Incarnation}
    (h : F.Resting config d) : (F.registerPublisher source incarnation now).2.Resting config d := by
  unfold Fabric.registerPublisher
  dsimp only
  split
  · exact h
  split
  · exact h
  split
  · split
    · exact h.of_same rfl rfl rfl rfl
    split
    · exact h
    · exact h.of_same rfl rfl rfl rfl
  · split
    · exact h
    · exact h.of_same rfl rfl rfl rfl

theorem Resting.heartbeat {source : SourceId} {incarnation : Incarnation}
    (h : F.Resting config d) : (F.heartbeat source incarnation now).2.Resting config d := by
  unfold Fabric.heartbeat
  split
  · exact h
  split
  · exact h
  split
  · exact h
  split
  · exact h
  split
  · exact h
  · exact h.of_same rfl rfl rfl rfl

theorem Resting.retirePublisher {source : SourceId} {incarnation : Incarnation}
    (h : F.Resting config d) : (F.retirePublisher source incarnation now).2.Resting config d := by
  unfold Fabric.retirePublisher
  split
  · exact h
  split
  · exact h
  · exact h.of_same rfl rfl rfl rfl

/-- A clean call keeps the fabric so that it can be opened again. -/
theorem Resting.step {request : Request} (h : F.Resting config d)
    (hmax : 0 < config.ledgerLineageCapacity) (hclean : request.Clean pq F d) :
    (request.run pq F d).1.Resting config (request.run pq F d).2 := by
  cases request with
  | publish signal now => exact h.publish hmax hclean
  | publishBatch signals now => exact h.publishBatch hmax hclean
  | putFence fence now => exact h.putFence hmax hclean rfl
  | clearFence id now => exact h.clearFence hmax rfl
  | installPolicy policy now => exact h.installPolicy hmax rfl
  | installTopology resources edges now => exact h.installTopology hmax rfl
  | markRevalidationRequired resource now => exact h.markRevalidationRequired hmax rfl
  | clearRevalidation resource now => exact h.clearRevalidation hmax hclean rfl
  | flush now => exact h.flushLocked hmax hclean rfl
  | registerPublisher source incarnation now => exact h.registerPublisher
  | heartbeat source incarnation now => exact h.heartbeat
  | retirePublisher source incarnation now => exact h.retirePublisher

def runRequests (pq : EntryQueue) (requests : List Request) (w : Fabric × Disk) : Fabric × Disk :=
  requests.foldl (fun w request => request.run pq w.1 w.2) w

/-- Every call of the run is clean where it is made. -/
def CleanRequests (pq : EntryQueue) (w : Fabric × Disk) : List Request → Prop
  | [] => True
  | request :: requests =>
    request.Clean pq w.1 w.2 ∧ CleanRequests pq (request.run pq w.1 w.2) requests

theorem Resting.run {requests : List Request} {w : Fabric × Disk} (h : w.1.Resting config w.2)
    (hmax : 0 < config.ledgerLineageCapacity) (hclean : CleanRequests pq w requests) :
    (runRequests pq requests w).1.Resting config (runRequests pq requests w).2 := by
  induction requests generalizing w with
  | nil => exact h
  | cons request requests ih => exact ih (h.step hmax hclean.1) hclean.2

/-- After every run of clean calls, whatever they return, the fabric is opened again exactly when
the journal as it stands has room for the epoch and the boot. -/
theorem restarts_iff (pq : EntryQueue) (config : FabricConfig) (hdurable : config.durable = true)
    (hmax : 0 < config.ledgerLineageCapacity) (i i' : Incarnation) (hi' : i'.valid = true)
    (d d₀ : Disk) (F : Fabric) (requests : List Request) (hfaults : d.faults = [])
    (hopen : openAt config i d = (.ok F, d₀)) (hclean : CleanRequests pq (F, d₀) requests) :
    ∃ s, (runRequests pq requests (F, d₀)).1.store = some s ∧
      (s.state.epoch.value ≠ 0xFFFFFFFFFFFFFFFF →
        ((∃ F' d', openAt config i' (runRequests pq requests (F, d₀)).2 = (.ok F', d')) ↔
          Bootable config.journalLimits s.journal.records)) := by
  have hrest : (F, d₀).1.Resting config (F, d₀).2 := openAt_resting hdurable hfaults hopen
  obtain ⟨s, hstore, hkept⟩ := (hrest.run hmax hclean).store
  exact ⟨s, hstore, fun hlast => opens_iff hdurable hkept hi' hlast⟩

/-- A journal of few records. -/
def pinched (maxRecords : Nat) : FabricConfig :=
  { durable := true, journalLimits := { maxRecords } }

/-- A resource that has to be looked at again, and is. -/
def revisits : List Request :=
  [.markRevalidationRequired ⟨7⟩ 0, .clearRevalidation ⟨7⟩ 1, .markRevalidationRequired ⟨7⟩ 2,
    .clearRevalidation ⟨7⟩ 3]

theorem clean_revisits {w : Fabric × Disk} : CleanRequests pq w revisits :=
  ⟨trivial, fun _ _ _ => by decide, trivial, fun _ _ _ => by decide, trivial⟩

/-- The epoch behind the calls, and whether the journal, and its compacted form, have room for an
open. -/
def headroom (config : FabricConfig) : Option (UInt64 × Bool × Option Bool) :=
  (openAt config (FenceHistory.bootOf 1) {}).1.toOption.bind fun F =>
    (runRequests .scan revisits (F, (openAt config (FenceHistory.bootOf 1) {}).2)).1.store.map
      fun s => (s.state.epoch.value, decide (Bootable config.journalLimits s.journal.records),
        s.compacted.toOption.map fun records => decide (Bootable config.journalLimits records))

theorem open_of_headroom {config : FabricConfig} {after : UInt64 × Bool × Option Bool}
    (h : headroom config = some after) :
    ∃ F d₀ s, openAt config (FenceHistory.bootOf 1) {} = (.ok F, d₀) ∧
      (runRequests .scan revisits (F, d₀)).1.store = some s ∧ s.state.epoch.value = after.1 ∧
      decide (Bootable config.journalLimits s.journal.records) = after.2.1 ∧
      (s.compacted.toOption.map fun records => decide (Bootable config.journalLimits records)) =
        after.2.2 := by
  unfold headroom at h
  rcases hopen : openAt config (FenceHistory.bootOf 1) {} with ⟨r, d₀⟩
  rw [hopen] at h
  cases r with
  | error st => cases h
  | ok F =>
    obtain ⟨s, hstore, rfl⟩ := Option.map_eq_some_iff.mp h
    exact ⟨F, d₀, s, rfl, hstore, rfl, rfl, rfl⟩

theorem revisited_restarts : ∃ F d₀ F' d',
    openAt (pinched 8) (FenceHistory.bootOf 1) {} = (.ok F, d₀) ∧
      openAt (pinched 8) (FenceHistory.bootOf 2) (runRequests .scan revisits (F, d₀)).2 =
        (.ok F', d') := by
  have heval : headroom (pinched 8) = some (1, true, some true) := by decide +kernel
  obtain ⟨F, d₀, s, hopen, hstore, hepoch, hroom, -⟩ := open_of_headroom heval
  obtain ⟨s', hstore', hiff⟩ := restarts_iff .scan (pinched 8) rfl (by decide)
    (FenceHistory.bootOf 1) (FenceHistory.bootOf 2) (by decide) {} d₀ F revisits rfl hopen
    clean_revisits
  cases hstore.symm.trans hstore'
  obtain ⟨F', d', hagain⟩ := (hiff (by rw [hepoch]; decide)).mpr (of_decide_eq_true hroom)
  exact ⟨F, d₀, F', d', hopen, hagain⟩

/-- Six records fill the journal, three would say the same, and the fabric is not opened again. -/
theorem pinched_not_restarted :
    ¬∀ (pq : EntryQueue) (config : FabricConfig) (i i' : Incarnation) (d d₀ : Disk) (F : Fabric)
      (requests : List Request) (s : DurableStore), config.durable = true → i'.valid = true →
      d.faults = [] → openAt config i d = (.ok F, d₀) →
      (runRequests pq requests (F, d₀)).1.store = some s →
      (∃ records, s.compacted = .ok records ∧ Bootable config.journalLimits records) →
      ∃ F' d', openAt config i' (runRequests pq requests (F, d₀)).2 = (.ok F', d') := by
  intro hall
  have heval : headroom (pinched 6) = some (1, false, some true) := by decide +kernel
  obtain ⟨F, d₀, s, hopen, hstore, hepoch, hroom, hcompacted⟩ := open_of_headroom heval
  have hdurable : (pinched 6).durable = true := rfl
  have hmax : 0 < (pinched 6).ledgerLineageCapacity := by decide
  have hrest : (F, d₀).1.Resting (pinched 6) (F, d₀).2 := openAt_resting hdurable rfl hopen
  have hclean : CleanRequests .scan (F, d₀) revisits := clean_revisits
  obtain ⟨s', hstore', hkept⟩ := (hrest.run hmax hclean).store
  cases hstore.symm.trans hstore'
  have hfits : ∃ records, s.compacted = .ok records ∧
      Bootable (pinched 6).journalLimits records := by
    cases hrecords : s.compacted with
    | error st =>
      rw [hrecords] at hcompacted
      cases hcompacted
    | ok records =>
      rw [hrecords] at hcompacted
      exact ⟨records, rfl, of_decide_eq_true (Option.some.inj hcompacted)⟩
  have hagain := hall .scan (pinched 6) (FenceHistory.bootOf 1) (FenceHistory.bootOf 2) {} d₀ F
    revisits s rfl (by decide) rfl hopen hstore hfits
  have hbootable := (opens_iff hdurable hkept (by decide) (by rw [hepoch]; decide)).mp hagain
  exact absurd hbootable (of_decide_eq_false hroom)

end Fabric

end Backpressure
