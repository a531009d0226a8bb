import Backpressure.Store.Compaction

/-!
# Healthy stores

A store whose journal is live, on a disk that does not fail and with room for some more records:
its writes succeed and leave it healthy, with room for one record less.
-/

namespace Backpressure

/-- The disk after some bytes are written, and maybe synced. -/
def Disk.logged (d : Disk) (sync : Bool) (bytes : Bytes) : Disk :=
  if sync then (d.next.write bytes).next.become (some (d.bytes ++ bytes)) (d.bytes ++ bytes).length
  else d.next.write bytes

namespace DurableStore

/-- The journal is live, nothing fails, and there is room for `n` records of any payload. -/
structure Healthy (s : DurableStore) (d : Disk) (n : Nat) : Prop where
  live : s.journal.Live d
  faults : d.faults = []
  bytes : kMaxJournalPayload ≤ s.journal.limits.maxRecordBytes
  records : s.journal.records.length + n ≤ s.journal.limits.maxRecords
  file : s.journal.fileBytes + n * (kRecordHeaderBytes + kMaxJournalPayload) ≤
    s.journal.limits.maxFileBytes
  retained : s.journal.retainedBytes + n * kMaxJournalPayload ≤ s.journal.limits.maxRetainedBytes

variable {s s' : DurableStore} {d d' : Disk} {n : Nat} {now : Tick}

theorem fault_of_faults (h : d.faults = []) : d.fault = none := by
  rw [Disk.fault, h]
  rfl

theorem Healthy.of_journal (h : s.Healthy d n) (hjournal : s'.journal = s.journal) :
    s'.Healthy d n := by
  obtain ⟨hlive, hfaults, hbytes, hrecords, hfile, hretained⟩ := h
  exact ⟨hjournal ▸ hlive, hfaults, hjournal ▸ hbytes, hjournal ▸ hrecords, hjournal ▸ hfile,
    hjournal ▸ hretained⟩

theorem Healthy.less (h : s.Healthy d n) {m : Nat} (hm : m ≤ n) : s.Healthy d m where
  live := h.live
  faults := h.faults
  bytes := h.bytes
  records := by
    have hrecords := h.records
    omega
  file := by
    have hfile := h.file
    have hmul := Nat.mul_le_mul_right (kRecordHeaderBytes + kMaxJournalPayload) hm
    omega
  retained := by
    have hretained := h.retained
    have hmul := Nat.mul_le_mul_right kMaxJournalPayload hm
    omega

section Write

variable {type : RecordType} {bytes : Bytes}

theorem Healthy.room (h : s.Healthy d (n + 1)) (now : Tick) (epoch : Epoch) (htype : type ≠ .count)
    (hbytes : bytes.length ≤ kMaxJournalPayload) : s.journal.Room [⟨type, now, epoch, bytes⟩] where
  types a ha := List.mem_singleton.mp ha ▸ htype
  lengths a ha := by
    rw [List.mem_singleton.mp ha]
    exact lt_of_le_of_lt hbytes (by decide)
  bytes a ha := by
    rw [List.mem_singleton.mp ha]
    exact hbytes.trans h.bytes
  records := by
    have hrecords := h.records
    rw [List.length_singleton]
    omega
  file := by
    have hfile := h.file
    have hone : draftBytes [⟨type, now, epoch, bytes⟩] = bytes.length := rfl
    rw [Nat.add_mul] at hfile
    rw [List.length_singleton, hone]
    omega
  retained := by
    have hretained := h.retained
    have hone : draftBytes [⟨type, now, epoch, bytes⟩] = bytes.length := rfl
    rw [Nat.add_mul] at hretained
    rw [hone]
    omega

/-- A record that is appended. -/
theorem Healthy.logged (h : s.Healthy d (n + 1)) (now : Tick) (epoch : Epoch) (htype : type ≠ .count)
    (hbytes : bytes.length ≤ kMaxJournalPayload) :
    (s.logged type now epoch bytes).Healthy
      (d.next.write (s.journal.nextRecord type now epoch bytes).encode) n where
  live := h.live.push (h.room now epoch htype hbytes)
  faults := by
    show d.faults.tail = []
    rw [h.faults]
    rfl
  bytes := h.bytes
  records := by
    have hrecords := h.records
    show (s.journal.records ++ [_]).length + n ≤ s.journal.limits.maxRecords
    rw [List.length_append, List.length_singleton]
    omega
  file := by
    have hfile := h.file
    show s.journal.fileBytes + (kRecordHeaderBytes + bytes.length) + _ ≤ s.journal.limits.maxFileBytes
    rw [Nat.add_mul] at hfile
    omega
  retained := by
    have hretained := h.retained
    show s.journal.retainedBytes + bytes.length + _ ≤ s.journal.limits.maxRetainedBytes
    rw [Nat.add_mul] at hretained
    omega


/-- A write that is let through succeeds when nothing fails. -/
theorem write_of_check (hcheck : (s.journal.checkAppend type bytes).ok = true) (hfaults : d.faults = [])
    (now : Tick) (epoch : Epoch) (sync : Bool) (effect : DurableStore → Status × DurableStore) :
    s.write type now epoch (.ok bytes) sync effect d =
      ((effect (s.logged type now epoch bytes)).1, (effect (s.logged type now epoch bytes)).2,
        d.logged sync (s.journal.nextRecord type now epoch bytes).encode) := by
  have happend := @Journal.append_of_ok s.journal d type now epoch bytes hcheck
    (fault_of_faults hfaults)
  have hfault : (d.next.write (s.journal.nextRecord type now epoch bytes).encode).fault = none := by
    rw [fault_of_faults]
    show d.faults.tail = []
    rw [hfaults]
    rfl
  have hopen : (s.journal.push (s.journal.nextRecord type now epoch bytes)).isOpen = true :=
    (Journal.checkAppend_ok.mp hcheck).1
  unfold write
  dsimp only
  rw [happend]
  dsimp only
  rw [Status.ok_success, Bool.not_true, if_neg (by decide)]
  cases sync with
  | false => rfl
  | true =>
    have hsync : (s.journal.push (s.journal.nextRecord type now epoch bytes)).sync
        (d.next.write (s.journal.nextRecord type now epoch bytes).encode) =
        (.success, d.logged true (s.journal.nextRecord type now epoch bytes).encode) := by
      rw [Journal.sync, hopen, Bool.not_true, if_neg (by decide), Disk.sync, hfault]
      rfl
    rw [if_pos rfl, hsync]
    rfl

/-- A write of a healthy store succeeds. -/
theorem Healthy.write (h : s.Healthy d (n + 1)) (now : Tick) (epoch : Epoch) (sync : Bool)
    (effect : DurableStore → Status × DurableStore) (htype : type ≠ .count)
    (hbytes : bytes.length ≤ kMaxJournalPayload)
    (heffect : ∀ j : Journal, (effect { s with journal := j }).2.journal = j) :
    s.write type now epoch (.ok bytes) sync effect d =
        ((effect (s.logged type now epoch bytes)).1, (effect (s.logged type now epoch bytes)).2,
          d.logged sync (s.journal.nextRecord type now epoch bytes).encode) ∧
      (effect (s.logged type now epoch bytes)).2.Healthy
        (d.logged sync (s.journal.nextRecord type now epoch bytes).encode) n := by
  have hlogged := h.logged now epoch htype hbytes
  have hcheck : (s.journal.checkAppend type bytes).ok = true :=
    (h.room now epoch htype hbytes).first h.live.isOpen
  refine ⟨write_of_check hcheck h.faults now epoch sync effect, ?_⟩
  have hnext : (s.logged type now epoch bytes).Healthy
      (d.logged sync (s.journal.nextRecord type now epoch bytes).encode) n := by
    cases sync with
    | false => exact hlogged
    | true =>
      have hempty : (d.next.write
          (s.journal.nextRecord type now epoch bytes).encode).faults.tail = [] := by
        rw [hlogged.faults]
        rfl
      exact { hlogged with
        live := { hlogged.live with holds := hlogged.live.holds }
        faults := hempty }
  exact hnext.of_journal (heffect (s.logged type now epoch bytes).journal)

end Write

/-- Room for many records is room for a long one. -/
theorem Healthy.check (h : s.Healthy d n) {type : RecordType} {bytes : Bytes} (htype : type ≠ .count)
    (hn : 0 < n) (hbytes : bytes.length ≤ s.journal.limits.maxRecordBytes)
    (hlength : bytes.length ≤ n * kMaxJournalPayload) :
    (s.journal.checkAppend type bytes).ok = true := by
  have hrecords := h.records
  have hfile := h.file
  have hretained := h.retained
  rw [Nat.mul_add] at hfile
  have hheader := Nat.mul_le_mul_right kRecordHeaderBytes hn
  exact Journal.checkAppend_ok.mpr ⟨h.live.isOpen, htype, hbytes, by omega, by omega, by omega⟩

/-! ## Calls of a healthy store -/

/-- The call writes one record, succeeds, and leaves a healthy store that keeps `v`. -/
def Gives (s : DurableStore) (d : Disk) (n : Nat) (sync : Bool)
    (call : Status × DurableStore × Disk) (v : Durable) : Prop :=
  ∃ s' bytes, call = (.success, s', d.logged sync bytes) ∧ s'.Healthy (d.logged sync bytes) n ∧
    s'.config = s.config ∧ s'.durable = v ∧ s'.journal.limits = s.journal.limits ∧
    ∃ r, s'.journal.records = s.journal.records ++ [r]

theorem Healthy.gives {type : RecordType} {epoch : Epoch} {payload : Result Bytes} {bytes : Bytes}
    {sync : Bool} {f : DurableStore → DurableStore} {v : Durable} (h : s.Healthy d (n + 1))
    (hpayload : payload = .ok bytes) (htype : type ≠ .count)
    (hbytes : bytes.length ≤ kMaxJournalPayload)
    (hf : ∀ j : Journal, let next := f { s with journal := j }
      next.journal = j ∧ next.config = s.config ∧ next.durable = v) :
    s.Gives d n sync (s.write type now epoch payload sync (succeed f) d) v := by
  subst hpayload
  obtain ⟨hwrite, hhealthy⟩ := h.write now epoch sync (succeed f) htype hbytes fun j => (hf j).1
  obtain ⟨hjournal, hconfig, hdurable⟩ := hf (s.logged type now epoch bytes).journal
  exact ⟨_, _, hwrite, hhealthy, hconfig, hdurable, (congrArg Journal.limits hjournal).trans rfl, _,
    congrArg Journal.records hjournal⟩

theorem withEpoch_known {next : Status × DurableStore × Disk} (h : s.state.epoch.known = true) :
    s.withEpoch d next = next := by
  rw [withEpoch, h]
  rfl

theorem Healthy.establishEpoch (h : s.Healthy d (n + 1)) (hnew : s.state.epoch.known = false) :
    s.Gives d n true (s.establishEpoch now d) { s.durable with epoch := ⟨1⟩ } := by
  unfold DurableStore.establishEpoch
  rw [hnew, if_neg (by decide)]
  exact h.gives ((Appends.u64 (1 : UInt64)).take (by simp)) (by decide) (by simp [kMaxJournalPayload]) fun j => ⟨rfl, rfl, rfl⟩

theorem Healthy.recordBoot (h : s.Healthy d (n + 1)) (hepoch : s.state.epoch.known = true)
    {i : Incarnation} (hvalid : i.valid = true) :
    s.Gives d n true (s.recordBoot i now d)
      { s.durable with boot := i.boot, incarnation := i, bootRecorded := true } := by
  obtain ⟨bytes, hlength, hwrite, -⟩ := incarnation_codec i
  unfold DurableStore.recordBoot
  rw [hvalid, Bool.not_true, if_neg (by decide), withEpoch_known hepoch]
  exact h.gives (hwrite.take (by omega)) (by decide) (by rw [hlength]; decide) fun j => ⟨rfl, rfl, rfl⟩

theorem Healthy.bindTopology (h : s.Healthy d (n + 1)) (hepoch : s.state.epoch.known = true)
    {digest : Digest128} {generation : Generation} (hdigest : digest.isZero = false)
    (hgeneration : generation.known = true) :
    s.Gives d n true (s.bindTopology digest generation now d)
      { s.durable with
        topologyDigest := digest, topologyGeneration := generation, hasTopologyBinding := true } := by
  unfold DurableStore.bindTopology
  rw [hdigest, hgeneration, if_neg (by simp), withEpoch_known hepoch]
  exact h.gives (((Appends.digest digest).seq (Appends.u64 generation.value)).take (by simp))
    (by decide) (by simp [kMaxJournalPayload]) fun j => ⟨rfl, rfl, rfl⟩

theorem Healthy.persistPolicy (h : s.Healthy d (n + 1)) (hepoch : s.state.epoch.known = true)
    {p : PropagationPolicy} (hvalid : p.validate.ok = true) (hnone : s.state.hasPolicy = false)
    (hbytes : 117 ≤ s.config.journalLimits.maxRecordBytes) :
    s.Gives d n true (s.persistPolicy p now d) { s.durable with policy := p, hasPolicy := true } := by
  obtain ⟨bytes, hlength, hwrite, -⟩ := policy_codec hvalid
  unfold DurableStore.persistPolicy
  rw [hvalid, Bool.not_true, if_neg (by decide), withEpoch_known hepoch, hnone, if_neg (by simp)]
  exact h.gives (hwrite.take (le_min (by omega) (by rw [hlength]; decide))) (by decide)
    (by rw [hlength]; decide) fun j => ⟨rfl, rfl, rfl⟩

theorem Healthy.recordLineage (h : s.Healthy d (n + 1)) (hepoch : s.state.epoch.known = true)
    {lineage : Digest128} (hlineage : lineage.isZero = false) :
    s.Gives d n false (s.recordLineage lineage now d)
      { s.durable with lineages := remember s.config.maxLineages s.state.lineages lineage } := by
  unfold DurableStore.recordLineage
  rw [hlineage, if_neg (by decide), withEpoch_known hepoch]
  exact h.gives ((Appends.digest lineage).take (by simp)) (by decide) (by simp [kMaxJournalPayload])
    fun j => ⟨rfl, rfl, durable_rememberLineage⟩

theorem Healthy.beginAttempt (h : s.Healthy d (n + 1)) (hepoch : s.state.epoch.known = true)
    {id : AttemptId} (hvalid : id.valid = true) (hnew : id ∉ s.openAttempts) :
    s.Gives d n true (s.beginAttempt id now d)
      { s.durable with openAttempts := s.openAttempts ++ [id] } := by
  unfold DurableStore.beginAttempt
  rw [hvalid, Bool.not_true, if_neg (by decide), withEpoch_known hepoch, if_neg hnew]
  exact h.gives ((Appends.u64 id.value).take (by simp)) (by decide) (by simp [kMaxJournalPayload]) fun j =>
    ⟨rfl, rfl, rfl⟩

theorem Healthy.commitAttempt (h : s.Healthy d (n + 1)) {id : AttemptId}
    (hopen : id ∈ s.openAttempts) :
    s.Gives d n true (s.commitAttempt id now d)
      { s.durable with openAttempts := s.openAttempts.erase id } := by
  unfold DurableStore.commitAttempt
  rw [if_neg (not_not.mpr hopen)]
  exact h.gives ((Appends.u64 id.value).take (by simp)) (by decide) (by simp [kMaxJournalPayload]) fun j =>
    ⟨rfl, rfl, rfl⟩

/-! ## Opening -/

/-- Limits that `open` accepts and that have room for `n` records of any payload. -/
structure Roomy (limits : JournalLimits) (n : Nat) : Prop where
  bytes : kMaxJournalPayload ≤ limits.maxRecordBytes
  some : limits.maxRecords ≠ 0
  records : n ≤ limits.maxRecords
  file : kHeaderBytes + n * (kRecordHeaderBytes + kMaxJournalPayload) ≤ limits.maxFileBytes
  retained : n * kMaxJournalPayload ≤ limits.maxRetainedBytes

/-- An open of a file whose records are replayed. -/
theorem openAt_of_journal {config : DurableConfig} {j : Journal} {v : Durable}
    (hbytes : kMaxJournalPayload ≤ config.journalLimits.maxRecordBytes)
    (hopen : Journal.openAt config.journalLimits true d = (.ok j, d'))
    (hreplays : Replays config j.records v) :
    ∃ s, openAt config d = (.ok s, d') ∧ s.config = config ∧ s.journal = j ∧ s.durable = v := by
  obtain ⟨s, hall, hconfig, hjournal, hdurable⟩ := hreplays.applyAll j
  unfold openAt
  rw [if_neg (not_lt.mpr hbytes), hopen]
  dsimp only
  unfold replay
  rw [show ({ config, journal := j } : DurableStore).journal.records = j.records from rfl, hall]
  exact ⟨_, rfl, hconfig, hjournal, hdurable⟩

theorem openAt_new {config : DurableConfig} (hroomy : Roomy config.journalLimits n)
    (hfile : d.file = none) (hfaults : d.faults = []) :
    ∃ s d', openAt config d = (.ok s, d') ∧ s.Healthy d' n ∧ s.config = config ∧ s.durable = {} ∧
      s.journal.limits = config.journalLimits ∧ s.journal.records = [] := by
  have hvalid : config.journalLimits.Valid :=
    ⟨le_trans (by decide) hroomy.bytes, hroomy.some, le_trans (Nat.le_add_right _ _) hroomy.file⟩
  obtain ⟨j, d', hopen, hrecords, hlimits, hlive, hclean⟩ := Journal.openAt_new hvalid hfile hfaults
  obtain ⟨s, hstore, hconfig, hjournal, hdurable⟩ :=
    openAt_of_journal hroomy.bytes hopen (hrecords ▸ Replays.nil)
  have hfile := hlive.holds.fileBytes
  have hretained := hlive.holds.retained
  rw [hrecords] at hfile hretained
  refine ⟨s, d', hstore, Healthy.of_journal (s := { journal := j }) ?_ hjournal, hconfig, hdurable,
    hjournal ▸ hlimits, hjournal ▸ hrecords⟩
  refine ⟨hlive, hclean, hlimits ▸ hroomy.bytes, ?_, ?_, ?_⟩
  · rw [hlimits, hrecords]
    simpa using hroomy.records
  · rw [hlimits, hfile]
    exact hroomy.file
  · rw [hlimits, hretained, payloadBytes_nil, Nat.zero_add]
    exact hroomy.retained

/-- A healthy store is read back from its file as it is. -/
theorem Healthy.reopen {config : DurableConfig} {v : Durable} (h : s.Healthy d n)
    (hlimits : s.journal.limits = config.journalLimits) (hreplays : Replays config s.journal.records v)
    {d₁ : Disk} (hbytes : d₁.bytes = d.bytes) (hfaults : d₁.faults = []) :
    ∃ s' d', openAt config d₁ = (.ok s', d') ∧ s'.Healthy d' n ∧ s'.config = config ∧
      s'.durable = v ∧ s'.journal.limits = config.journalLimits ∧
      s'.journal.records = s.journal.records := by
  have hlive : s.journal.Live d₁ := { h.live with holds := hbytes ▸ h.live.holds }
  obtain ⟨j, d', hopen, hrecords, hclean⟩ := hlive.reopen hfaults true
  rw [hlimits] at hopen
  obtain ⟨hlive', hlimits'⟩ := Journal.openAt_live hopen
  obtain ⟨s', hstore, hconfig, hjournal, hdurable⟩ :=
    openAt_of_journal (hlimits ▸ h.bytes) hopen (hrecords.symm ▸ hreplays)
  refine ⟨s', d', hstore, Healthy.of_journal (s := { journal := j }) ?_ hjournal, hconfig, hdurable,
    hjournal ▸ hlimits', hjournal ▸ hrecords⟩
  refine ⟨hlive', hclean, ?_, ?_, ?_, ?_⟩
  · rw [hlimits', ← hlimits]
    exact h.bytes
  · rw [hlimits', ← hlimits, hrecords]
    exact h.records
  · rw [hlimits', ← hlimits, hlive'.holds.fileBytes, hrecords, ← h.live.holds.fileBytes]
    exact h.file
  · rw [hlimits', ← hlimits, hlive'.holds.retained, hrecords, ← h.live.holds.retained]
    exact h.retained

end DurableStore

end Backpressure
