import Backpressure.Engine.Truncation
import Backpressure.Store.Chunks
import Backpressure.Runtime.Attempt

/-!
# A publish that the store refuses

The run of a publish changes the ledger before its attempt is committed, and nothing takes the
change back when the commit is refused.
-/

namespace Backpressure

/-! ## What is put behind the file -/

namespace Disk

variable {d d' d'' : Disk} {bytes : Bytes} {P Q : Bytes → Prop}

def writesFrom : Bytes → List (Option Bytes × Nat) → List Bytes
  | _, [] => []
  | file, before :: past =>
    file.drop (before.1.getD []).length :: writesFrom (before.1.getD []) past

/-- What the operations so far have put behind the file, the last one first. -/
def writes (d : Disk) : List Bytes := writesFrom d.bytes d.past

theorem writes_write : (d.next.write bytes).writes = bytes :: d.writes := by
  have hhead : (d.bytes ++ bytes).drop d.bytes.length = bytes := List.drop_left
  exact congrArg (· :: d.writes) hhead

theorem writes_sync {st : Status} (h : d.sync = (st, d')) :
    d'.writes = d.writes ∨ d'.writes = [] :: d.writes := by
  unfold sync at h
  split at h
  · cases h
    exact .inl rfl
  · cases h
    exact .inl rfl
  · cases h
    have hhead : d.bytes.drop d.bytes.length = [] := List.drop_length
    exact .inr (congrArg (· :: d.writes) hhead)

/-- Only what satisfies the predicate is put behind the file. -/
def Puts (P : Bytes → Prop) (d d' : Disk) : Prop :=
  ∃ added, d'.writes = added ++ d.writes ∧ ∀ bytes ∈ added, P bytes

theorem Puts.refl : Puts P d d := ⟨[], rfl, fun _ h => absurd h List.not_mem_nil⟩

theorem Puts.trans (h : Puts P d d') (h' : Puts P d' d'') : Puts P d d'' := by
  obtain ⟨added, hwrites, hall⟩ := h
  obtain ⟨added', hwrites', hall'⟩ := h'
  refine ⟨added' ++ added, by rw [hwrites', hwrites, List.append_assoc], fun bytes hbytes => ?_⟩
  rcases List.mem_append.mp hbytes with hnew | hold
  · exact hall' bytes hnew
  · exact hall bytes hold

theorem puts_write (h : P bytes) : Puts P d (d.next.write bytes) :=
  ⟨[bytes], writes_write, by simpa using h⟩

/-- What has been put behind the file satisfies the predicate. -/
theorem Puts.holds (h : Puts P d d'') (hbefore : Puts Q d d') {added : List Bytes}
    (hadded : d''.writes = added ++ d'.writes) (hbytes : bytes ∈ added) : P bytes := by
  obtain ⟨all, hwrites, hall⟩ := h
  obtain ⟨before, hsome, -⟩ := hbefore
  rw [hsome, ← List.append_assoc] at hadded
  have hsame : added ++ before = all := List.append_cancel_right (hadded.symm.trans hwrites)
  exact hall bytes (hsame ▸ List.mem_append_left before hbytes)

end Disk

/-! ## Records that commit an attempt -/

/-- The record commits the attempt. -/
structure JournalRecord.Commits (r : JournalRecord) (id : AttemptId) : Prop where
  type : r.type = .attemptCommit
  payload : DurableStore.attemptPayload id = .ok r.payload

/-- No record that commits the attempt is put behind the file, so that no replay counts it. -/
def Uncounted (id : AttemptId) (d d' : Disk) : Prop :=
  d.Puts (fun bytes => ∀ r : JournalRecord, r.Commits id → bytes ≠ r.encode) d'

theorem DurableStore.length_attemptPayload {id : AttemptId} {bytes : Bytes}
    (h : attemptPayload id = .ok bytes) : bytes.length = 8 := by
  rw [(Appends.u64 id.value).eq_of_take (by simp) h]
  exact Lib.LittleEndian.length_encode 8 _

namespace JournalRecord

variable {r r' : JournalRecord} {id : AttemptId} {k : Nat}

theorem Commits.length (h : r.Commits id) : r.encode.length = kRecordHeaderBytes + 8 := by
  rw [length_encode, DurableStore.length_attemptPayload h.payload]

theorem Commits.encode_ne_nil (h : r.Commits id) : [] ≠ r.encode := by
  intro hnil
  have hlength := h.length
  rw [← hnil] at hlength
  cases hlength

/-- A record of another type is not cut into one that commits. -/
theorem Commits.ne_take (h : r.Commits id) (htype : r'.type ≠ .attemptCommit) :
    r'.encode.take k ≠ r.encode := by
  intro heq
  have hlong : kRecordHeaderBytes + 8 ≤ k := by
    rw [← h.length, ← heq]
    exact List.length_take_le k _
  have hfield : ∀ r : JournalRecord, Backpressure.field r.encode 16 2 = r.type.toNat := fun r => by
    rw [← field_type (r := r), ← take_encode, field_take (by decide)]
  have hcut : Backpressure.field (r'.encode.take k) 16 2 = r'.type.toNat := by
    rw [field_take (by have : kRecordHeaderBytes = 52 := rfl; omega), hfield]
  rw [heq, hfield, h.type] at hcut
  cases htypes : r'.type <;> rw [htypes] at hcut htype <;> first | exact htype rfl | cases hcut

end JournalRecord

namespace DurableStore

variable {s s' : DurableStore} {d d' : Disk} {st : Status} {now : Tick} {id id' : AttemptId}

section Write

variable {type : RecordType} {epoch : Epoch} {payload : Result Bytes} {sync : Bool}
  {effect : DurableStore → Status × DurableStore}

theorem writes_sync {j : Journal} (h : j.sync d = (st, d')) :
    d'.writes = d.writes ∨ d'.writes = [] :: d.writes := by
  unfold Journal.sync at h
  split at h
  · cases h
    exact .inl rfl
  · exact Disk.writes_sync h

theorem uncounted_sync {j : Journal} (h : j.sync d = (st, d')) : Uncounted id d d' := by
  rcases writes_sync h with hsame | hnone
  · exact ⟨[], hsame, fun _ h => absurd h List.not_mem_nil⟩
  · exact ⟨[[]], hnone, fun bytes hbytes r hr => List.mem_singleton.mp hbytes ▸ hr.encode_ne_nil⟩

theorem uncounted_write (h : s.write type now epoch payload sync effect d = (st, s', d'))
    (htype : type ≠ .attemptCommit) : Uncounted id d d' := by
  have hwhole : ∀ bytes, Uncounted id d
      (d.next.write (s.journal.nextRecord type now epoch bytes).encode) := fun bytes => by
    refine Disk.puts_write fun r hr => ?_
    rw [← List.take_length (l := (s.journal.nextRecord type now epoch bytes).encode)]
    exact hr.ne_take htype
  cases write_cases h with
  | unencoded => exact .refl
  | refused => exact .refl
  | torn => exact Disk.puts_write fun r hr => hr.ne_take htype
  | unsynced _ _ _ _ hsync _ => exact (hwhole _).trans (uncounted_sync hsync)
  | written _ _ _ hsync =>
    rcases hsync with ⟨-, rfl⟩ | ⟨-, st₁, -, hsync⟩
    · exact hwhole _
    · exact (hwhole _).trans (uncounted_sync hsync)

end Write

theorem uncounted_withEpoch {next : Status × DurableStore × Disk}
    (h : s.withEpoch d next = (st, s', d')) (hnext : next = (st, s', d') → Uncounted id d d') :
    Uncounted id d d' := by
  unfold withEpoch at h
  split at h
  · cases h
    exact .refl
  · exact hnext h

theorem uncounted_beginAttempt (h : s.beginAttempt id' now d = (st, s', d')) :
    Uncounted id d d' := by
  unfold beginAttempt at h
  split at h
  · cases h
    exact .refl
  refine uncounted_withEpoch h fun h => ?_
  split at h
  · cases h
    exact .refl
  · exact uncounted_write h (by decide)

theorem uncounted_recordLineage {lineage : Digest128}
    (h : s.recordLineage lineage now d = (st, s', d')) : Uncounted id d d' := by
  unfold recordLineage at h
  split at h
  · cases h
    exact .refl
  · exact uncounted_withEpoch h fun h => uncounted_write h (by decide)

theorem uncounted_abortAttempt (h : s.abortAttempt id' now d = (st, s', d')) :
    Uncounted id d d' := by
  unfold abortAttempt at h
  split at h
  · cases h
    exact .refl
  · exact uncounted_write h (by decide)

/-- The record of a commit gets whole into the file. -/
structure Lands (s : DurableStore) (id : AttemptId) (d : Disk) : Prop where
  isOpen : id ∈ s.openAttempts
  fits : ∀ bytes, DurableStore.attemptPayload id = .ok bytes →
    (s.journal.checkAppend .attemptCommit bytes).ok = true
  whole : ∀ k, d.fault = some k → kRecordHeaderBytes + 8 ≤ k

theorem write_of_refused {type : RecordType} {epoch : Epoch} {payload : Bytes} {sync : Bool}
    {effect : DurableStore → Status × DurableStore}
    (h : (s.journal.checkAppend type payload).ok = false) :
    s.write type now epoch (.ok payload) sync effect d =
      (s.journal.checkAppend type payload, s, d) := by
  have happend : s.journal.append type now epoch payload d =
      (s.journal.checkAppend type payload, s.journal, d) := by
    unfold Journal.append
    dsimp only
    rw [h, Bool.not_false, if_pos rfl]
  unfold write
  dsimp only
  rw [happend]
  dsimp only
  rw [h, Bool.not_false, if_pos rfl]

/-- A commit that is refused is counted all the same when its record has got into the file. -/
theorem uncounted_commitAttempt_iff {d₀ : Disk} (hbefore : Uncounted id d₀ d)
    (h : s.commitAttempt id now d = (st, s', d')) (hno : st.ok = false) :
    Uncounted id d₀ d' ↔ ¬s.Lands id d := by
  obtain ⟨payload, hpayload⟩ : ∃ bytes, attemptPayload id = .ok bytes := take_u64 (by decide) _
  have hcommits : ∀ bytes, attemptPayload id = .ok bytes →
      (s.journal.nextRecord .attemptCommit now s.state.epoch bytes).Commits id :=
    fun bytes hbytes => ⟨rfl, hbytes⟩
  unfold commitAttempt at h
  split at h
  case isTrue hclosed =>
    cases h
    exact iff_of_true hbefore fun hlands => hclosed hlands.isOpen
  case isFalse hopen =>
  cases hfits : (s.journal.checkAppend .attemptCommit payload).ok with
  | false =>
    rw [hpayload, write_of_refused hfits] at h
    cases h
    refine iff_of_true hbefore fun hlands => ?_
    rw [hlands.fits payload hpayload] at hfits
    cases hfits
  | true =>
    have hfit : ∀ bytes, attemptPayload id = .ok bytes →
        (s.journal.checkAppend .attemptCommit bytes).ok = true := fun bytes hbytes => by
      rw [hpayload] at hbytes
      cases hbytes
      exact hfits
    cases write_cases h with
    | unencoded herror =>
      rw [hpayload] at herror
      cases herror
    | @refused bytes hbytes hrefused =>
      rw [hfit bytes hbytes] at hrefused
      cases hrefused
    | @torn bytes k hbytes hfault =>
      have hlength := (hcommits bytes hbytes).length
      constructor
      · intro huncounted hlands
        have hwhole := List.take_of_length_le (hlength.trans_le (hlands.whole k hfault))
        rw [hwhole] at huncounted
        have hadded : ∀ bytes, (d.next.write bytes).writes = [bytes] ++ d.writes :=
          fun _ => Disk.writes_write
        exact huncounted.holds hbefore (hadded _) (List.mem_singleton.mpr rfl) _
          (hcommits bytes hbytes) rfl
      · intro hcut
        refine hbefore.trans (Disk.puts_write fun r hr heq =>
          hcut ⟨not_not.mp hopen, hfit, fun k' hk' => ?_⟩)
        rw [hfault] at hk'
        cases hk'
        rw [← hr.length, ← heq]
        exact List.length_take_le k _
    | @unsynced bytes _ _ hbytes _ hfault _ hsync _ =>
      refine iff_of_false (fun huncounted => ?_) (not_not.mpr ⟨not_not.mp hopen, hfit, ?_⟩)
      · have hadded : ∃ added, d'.writes = (added ++
            [(s.journal.nextRecord .attemptCommit now s.state.epoch bytes).encode]) ++ d.writes := by
          rcases writes_sync hsync with hsame | hnone
          · exact ⟨[], hsame.trans Disk.writes_write⟩
          · exact ⟨[[]], hnone.trans (congrArg _ Disk.writes_write)⟩
        obtain ⟨added, hadded⟩ := hadded
        exact huncounted.holds hbefore hadded (List.mem_append_right _ List.mem_cons_self) _
          (hcommits bytes hbytes) rfl
      · intro k hk
        rw [hfault] at hk
        cases hk
    | written => cases hno

end DurableStore

/-! ## The ledger -/

namespace PropagationEngine

variable {pq : EntryQueue} {topo : Topology} {policy : PropagationPolicy}
  {ledger ledger' : PropagationLedger} {fences : Option FenceTable} {liveEpoch : Epoch}
  {request : PropagationRequest} {o : PropagationOutcome}

/-- A run that accepts a signal leaves the ledger as it was exactly when its records are cut. -/
theorem ledger_kept_iff (hpins : request.pins = []) (hdry : request.dryRun = false)
    (hrun : propagate pq (.of topo policy ledger fences liveEpoch) request = (o, some ledger'))
    (hok : o.status.ok = true) (hsome : o.counters.signalsAccepted ≠ 0) :
    ledger' = ledger ↔ ∃ s ∈ liveSignals policy ledger request,
      Starved pq topo policy ledger fences (List.replicate topo.edges.length none) request s := by
  have hcase := propagate_cases pq (.of topo policy ledger fences liveEpoch) request
  rw [hrun] at hcase
  have hpinned : ∀ {pins}, Ready topo policy liveEpoch pins request →
      pins = List.replicate topo.edges.length none := fun hready => by
    have hresolved := hready.pins
    rw [hpins] at hresolved
    exact (Except.ok.inj hresolved).symm
  generalize hend : some ledger' = after at hcase
  cases hcase with
  | refused _ hno =>
    rw [finalize_status, hno] at hok
    cases hok
  | allRefused _ _ _ _ hno =>
    rw [finalize_status] at hok
    exact absurd (hok.symm.trans hno) (by decide)
  | @kept _ _ _ pins counters ht hp hl hready hkept haccepted =>
    cases ht
    cases hp
    cases hl
    cases hend
    have htruncated := hkept.resolve_left (by rw [hdry]; decide)
    rw [hpinned hready, progress_flags.1] at htruncated
    exact iff_of_true rfl htruncated
  | @committed _ _ _ written pins st counters ht hp hl hready _ hwhole hcommit haccepted =>
    cases ht
    cases hp
    cases hl
    cases hend
    rw [finalize_counters] at hsome
    have hlive : liveSignals policy ledger request ≠ [] := by
      intro hnone
      have hprogress : (progress pq topo policy ledger fences pins request).counters.signalsAccepted
          ≠ 0 := haccepted ▸ hsome
      rw [progress_eq, hnone, List.foldl_nil] at hprogress
      have hzero : (unstarted policy ledger topo request).counters.signalsAccepted = 0 :=
        unstarted_spec.accepted
      exact hprogress hzero
    refine iff_of_false (fun hsame => ?_) ?_
    · have hafter : written = (commitApplications request.now
          (assembled pq topo policy ledger fences pins request).nodes
          (markLineages (liveSignals policy ledger request) ledger)).2 :=
        (congrArg Prod.snd hcommit).symm
      have hlineages := congrArg PropagationLedger.lineages hsame
      rw [lineages_commitDamping, hafter, lineages_commitApplications,
        lineages_markLineages] at hlineages
      refine Lib.Window.foldl_mark_ne (mt List.map_eq_nil_iff.mp hlive) ?_
        (congrArg Lib.Window.queue hlineages)
      intro lineage hlineage hknown
      obtain ⟨s, hs, rfl⟩ := List.mem_map.mp hlineage
      have hnew := (List.mem_filter.mp hs).2
      have hheld : ledger.hasLineage s.lineage = true := Lib.Window.has_iff.mpr hknown
      rw [isLive, hheld] at hnew
      cases hnew
    · have huncut : (progress pq topo policy ledger fences pins request).truncated = false := hwhole
      rw [← hpinned hready, ← progress_flags.1, huncut]
      exact Bool.false_ne_true

/-- A run whose status is a success accepts as many signals as its rehearsal. -/
theorem accepted_agrees (pq : EntryQueue) (ctx : EngineContext) (request : PropagationRequest)
    (h : (propagate pq ctx { request with dryRun := false }).1.status.ok = true) :
    (propagate pq ctx { request with dryRun := false }).1.counters.signalsAccepted =
      (propagate pq ctx { request with dryRun := true }).1.counters.signalsAccepted := by
  unfold propagate at h ⊢
  split
  case h_1 topo policy ledger htopo hpolicy hledger =>
    rw [htopo, hpolicy, hledger] at h
    dsimp only at h
    rw [plan_withDryRun] at h
    simp only [plan_withDryRun]
    cases hplan : plan pq topo policy ledger ctx.fences ctx.liveEpoch request with
    | error o => rfl
    | ok p =>
      rw [hplan] at h
      dsimp only at h ⊢
      by_cases htruncated : p.truncated = true
      · rw [htruncated]
        rfl
      · have hcommits : (!false && !p.truncated) = true := by simpa using htruncated
        rw [if_pos hcommits] at h ⊢
        rw [outcome_of_commit h]
        rfl
  · rfl

end PropagationEngine

namespace Fabric

variable {pq : EntryQueue} {F : Fabric} {d d' : Disk} {now : Tick} {topology : Topology}
  {policy : PropagationPolicy} {signals : List PressureSignal} {c : PublishCall}
  {s s' : DurableStore} {st : Status}

theorem uncounted_recordLineages {id id' : AttemptId} {lineages : List Digest128}
    (h : recordLineages id' now lineages s d = (st, s', d')) : Uncounted id d d' := by
  induction lineages generalizing s d with
  | nil =>
    cases h
    exact .refl
  | cons lineage rest ih =>
    rw [recordLineages] at h
    rcases hrecord : s.recordLineage lineage now d with ⟨st₁, s₁, d₁⟩
    rw [hrecord] at h
    dsimp only at h
    have hone : Uncounted id d d₁ := DurableStore.uncounted_recordLineage hrecord
    split at h
    · rcases habort : s₁.abortAttempt id' now d₁ with ⟨st₂, s₂, d₂⟩
      rw [habort] at h
      cases h
      exact hone.trans (DurableStore.uncounted_abortAttempt habort)
    · exact hone.trans (ih h)

theorem uncounted_intent {id : AttemptId} (h : F.intent signals now s d = (st, s', d')) :
    Uncounted id d d' := by
  unfold intent recordIntent at h
  rcases hbegin : s.beginAttempt F.attemptId now d with ⟨st₁, s₁, d₁⟩
  rw [hbegin] at h
  dsimp only at h
  have hone : Uncounted id d d₁ := DurableStore.uncounted_beginAttempt hbegin
  split at h
  · cases h
    exact hone
  · exact hone.trans (uncounted_recordLineages h)

/-- The store has refused a step of the attempt. -/
def Ending.Refusal : Ending → Prop
  | .refused _ | .uncommitted _ => True
  | _ => False

instance : DecidablePred Ending.Refusal
  | .refused _ | .uncommitted _ => isTrue trivial
  | .failed _ | .mismatch | .done _ => isFalse id

/-- The records of a signal that traverses are cut. -/
def Cut (pq : EntryQueue) (F : Fabric) (topology : Topology) (policy : PropagationPolicy)
    (signals : List PressureSignal) (now : Tick) : Prop :=
  ∃ signal ∈ PropagationEngine.liveSignals policy F.ledger (F.request topology policy signals now),
    PropagationEngine.Starved pq topology policy F.ledger (some F.fences)
      (List.replicate topology.edges.length none) (F.request topology policy signals now) signal

theorem ranOf_ledger_iff (h : F.Attempts pq c now topology policy)
    (hsome : (F.planOf pq topology policy c.signals now).counters.signalsAccepted ≠ 0)
    (hok : (F.ranOf pq topology policy c.signals now).1.status.ok = true) :
    (F.ranOf pq topology policy c.signals now).2 = F.ledger ↔
      F.Cut pq topology policy c.signals now := by
  have hcontext : F.context = .of topology policy F.ledger (some F.fences) F.epoch := by
    unfold context EngineContext.of
    rw [← h.hasTopology, ← h.hasPolicy]
  have hrun := @propagate_context pq F (F.request topology policy c.signals now)
  rw [hcontext] at hrun
  refine PropagationEngine.ledger_kept_iff rfl rfl hrun hok ?_
  have hsame := PropagationEngine.accepted_agrees pq F.context
    (F.request topology policy c.signals now) hok
  exact fun hzero => hsome (hsame.symm.trans hzero)

/-- A call that the store refuses has had no effect exactly when the store has refused it before the
commit, or the records of its signals are cut and the record of the commit is not in the file. -/
theorem refused_harmless_iff (hstore : F.store = some s)
    (hattempts : F.Attempts pq c now topology policy)
    (hrefusal : (F.attempt pq topology policy c.signals now d).1.Refusal) :
    let after := c.run pq F now d
    let intent := F.intent c.signals now s d
    (∃ st, after.1 = .error st) ∧ after.2.1.ledger = F.ledger ∧
        Uncounted F.attemptId d after.2.2 ↔
      intent.1.ok = false ∨
        F.Cut pq topology policy c.signals now ∧ ¬intent.2.1.Lands F.attemptId intent.2.2 := by
  intro after intent
  have hends : Ends (F.attempt pq topology policy c.signals now d) after := by
    have hruns := runs pq F c now d
    change Runs pq F c now d after at hruns
    generalize after = after at hruns
    cases hruns with
    | turnedAway hno => exact absurd hattempts (hno topology policy)
    | attempted hattempts' hends =>
      cases hattempts.hasTopology.symm.trans hattempts'.hasTopology
      cases hattempts.hasPolicy.symm.trans hattempts'.hasPolicy
      exact hends
  have htried := @tried pq F topology policy c.signals now d s hstore
  generalize F.attempt pq topology policy c.signals now d = ended at hrefusal hends htried
  cases htried with
  | idle _ _ _ _ hending => rcases hending with ⟨-, rfl⟩ | ⟨-, rfl⟩ <;> exact hrefusal.elim
  | failed => exact hrefusal.elim
  | done => exact hrefusal.elim
  | @refused st F₁ s₁ d₁ hsome hintent hno hconfig hstored hledger =>
    generalize after = after at hends
    cases hends with
    | refused hsame =>
      have hst : intent.1.ok = false := (congrArg (fun r => r.1.ok) hintent).trans hno
      refine iff_of_true ⟨⟨st, rfl⟩, hsame.ledger.trans hledger, uncounted_intent hintent⟩ (.inl hst)
  | @uncommitted st st₂ F₁ s₁ s₂ d₁ d₂ hsome hintent hyes hok hcommit hno hconfig hstored hledger =>
    generalize after = after at hends
    cases hends with
    | uncommitted hsame =>
      have hst : intent.1.ok = true := (congrArg (fun r => r.1.ok) hintent).trans hyes
      have hthere : intent = (st, s₁, d₁) := hintent
      rw [hst, hthere]
      have hcut := ranOf_ledger_iff hattempts hsome hok
      have hcounted := DurableStore.uncounted_commitAttempt_iff (uncounted_intent hintent) hcommit hno
      rw [hsame.ledger, hledger, hcut, hcounted]
      constructor
      · rintro ⟨-, hrest⟩
        exact .inr hrest
      · rintro (hno | hrest)
        · cases hno
        · exact ⟨⟨st₂, rfl⟩, hrest⟩

/-- One resource, a policy and one publisher, on a journal of few records. -/
def smallFabric (maxRecords : Nat) : Fabric × Disk :=
  let config := { durable := true, journalLimits := { maxRecords } }
  match openAt config { boot := { lo := 1 }, seq := 1 } {} with
  | (.error _, d) => (blank config {}, d)
  | (.ok F, d) =>
    let (_, F, d) := F.installTopology [probeResource ⟨1⟩] [] 1 d
    let (_, F, d) := F.installPolicy probePolicy 2 d
    ((F.registerPublisher ⟨1⟩ { boot := { lo := 1 }, seq := 1 } 3).2, d)

def smallSignal (F : Fabric) : PressureSignal :=
  probeSignal probePolicy (F.topology.getD (probeTopology [] [])) ⟨1⟩ 5

/-- The signal is refused by the store; whether before the commit, and whether the ledger has the
lineage behind the call. -/
def refusedSmall (F : Fabric) (d : Disk) : Option (Bool × Bool) :=
  match F.store, F.topology, F.policy with
  | some s, some topology, some policy =>
    if !F.shuttingDown && (F.checkPublisher F.smallSignal).ok &&
        decide (F.smallSignal.epoch = F.epoch ∧ F.smallSignal.topologyDigest = topology.digest) &&
        (F.planOf .scan topology policy [F.smallSignal] 5).status.ok &&
        decide (F.attempt .scan topology policy [F.smallSignal] 5 d).1.Refusal then
      some (!(F.intent [F.smallSignal] 5 s d).1.ok,
        (F.publish .scan F.smallSignal 5 d).2.1.ledger.hasLineage F.smallSignal.lineage)
    else none
  | _, _, _ => none

theorem attempts_of_refusedSmall {after : Bool × Bool} (h : F.refusedSmall d = some after) :
    ∃ s topology policy, F.store = some s ∧
      F.Attempts .scan (.publish F.smallSignal) 5 topology policy ∧
      (F.attempt .scan topology policy [F.smallSignal] 5 d).1.Refusal ∧
      (!(F.intent [F.smallSignal] 5 s d).1.ok) = after.1 ∧
      (F.publish .scan F.smallSignal 5 d).2.1.ledger.hasLineage F.smallSignal.lineage =
        after.2 := by
  unfold refusedSmall at h
  split at h
  case h_2 => cases h
  case h_1 s topology policy hstore htopology hpolicy =>
    split at h
    case isFalse => cases h
    case isTrue hchecks =>
      simp only [Bool.and_eq_true, Bool.not_eq_true', decide_eq_true_eq] at hchecks
      obtain ⟨⟨⟨⟨hserving, hpublisher⟩, hepoch, hdigest⟩, hplanned⟩, hrefusal⟩ := hchecks
      cases h
      exact ⟨s, topology, policy, hstore,
        ⟨hserving, htopology, hpolicy, ⟨hpublisher, hepoch, hdigest⟩, hplanned⟩, hrefusal, rfl, rfl⟩

/-- A lineage that does not fit into the journal is refused without an effect. -/
theorem lineage_refused : ∃ F d s, smallFabric 5 = (F, d) ∧ F.store = some s ∧
    (F.intent [F.smallSignal] 5 s d).1.ok = false ∧
    let after := (PublishCall.publish F.smallSignal).run .scan F 5 d
    (∃ st, after.1 = .error st) ∧ after.2.1.ledger = F.ledger ∧
      Uncounted F.attemptId d after.2.2 := by
  have heval : (smallFabric 5).1.refusedSmall (smallFabric 5).2 = some (true, false) := by
    decide +kernel
  generalize hsmall : smallFabric 5 = w at heval
  obtain ⟨F, d⟩ := w
  obtain ⟨s, topology, policy, hstore, hattempts, hrefusal, hintent, -⟩ :=
    attempts_of_refusedSmall heval
  rw [Bool.not_eq_true'] at hintent
  exact ⟨F, d, s, rfl, hstore, hintent, (refused_harmless_iff (c := .publish F.smallSignal) hstore
    hattempts hrefusal).mpr (.inl hintent)⟩

/-- A commit that does not fit into the journal is refused, and the ledger has the lineage. -/
theorem commit_refused : ∃ F d s topology policy, smallFabric 6 = (F, d) ∧ F.store = some s ∧
    F.Attempts .scan (.publish F.smallSignal) 5 topology policy ∧
    (F.attempt .scan topology policy [F.smallSignal] 5 d).1.Refusal ∧
    ((PublishCall.publish F.smallSignal).run .scan F 5 d).2.1.ledger ≠ F.ledger := by
  have heval : (smallFabric 6).1.refusedSmall (smallFabric 6).2 = some (false, true) := by
    decide +kernel
  have hfresh : (smallFabric 6).1.ledger.hasLineage (smallFabric 6).1.smallSignal.lineage = false := by
    decide +kernel
  generalize hsmall : smallFabric 6 = w at heval hfresh
  obtain ⟨F, d⟩ := w
  obtain ⟨s, topology, policy, hstore, hattempts, hrefusal, -, hmarked⟩ :=
    attempts_of_refusedSmall heval
  refine ⟨F, d, s, topology, policy, rfl, hstore, hattempts, hrefusal, fun hsame => ?_⟩
  have hstill : ((PublishCall.publish F.smallSignal).run .scan F 5 d).2.1.ledger.hasLineage
      F.smallSignal.lineage = true := hmarked
  rw [hsame] at hstill
  exact absurd (hstill.symm.trans hfresh) (by decide)

end Fabric

end Backpressure
