import Backpressure.Runtime.Fences

/-!
# Room for an open

An open writes two records of its own, the epoch and the boot, under the limits of the journal. A
store whose records replay is opened by a fabric exactly when there is room for the two.
-/

namespace Backpressure

/-- The limits leave room behind the records for the epoch and the boot of an open. -/
def Bootable (limits : JournalLimits) (rs : List JournalRecord) : Prop :=
  rs.length + 2 ≤ limits.maxRecords ∧
    imageBytes rs + 2 * kRecordHeaderBytes + 40 ≤ limits.maxFileBytes ∧
    payloadBytes rs + 40 ≤ limits.maxRetainedBytes

instance {limits : JournalLimits} {rs : List JournalRecord} : Decidable (Bootable limits rs) :=
  inferInstanceAs (Decidable (_ ∧ _ ∧ _))

/-- What a live journal lets through, told by its records. -/
theorem Journal.Live.lets_through {j : Journal} {d : Disk} {type : RecordType} {payload : Bytes}
    (h : j.Live d) (htype : type ≠ .count) : (j.checkAppend type payload).ok = true ↔
      payload.length ≤ j.limits.maxRecordBytes ∧ j.records.length < j.limits.maxRecords ∧
        imageBytes j.records + (kRecordHeaderBytes + payload.length) ≤ j.limits.maxFileBytes ∧
        payloadBytes j.records + payload.length ≤ j.limits.maxRetainedBytes := by
  rw [checkAppend_ok, h.holds.fileBytes, h.holds.retained]
  exact ⟨fun ⟨_, _, hchecks⟩ => hchecks, fun hchecks => ⟨h.isOpen, htype, hchecks⟩⟩

namespace DurableStore

variable {config : DurableConfig} {s s' : DurableStore} {d d' : Disk} {st : Status} {now : Tick}

/-- When nothing fails, a change that cannot fail by itself succeeds exactly when the journal lets
its record through. -/
theorem succeed_iff {type : RecordType} {epoch : Epoch} {payload : Result Bytes} {bytes : Bytes}
    {sync : Bool} {f : DurableStore → DurableStore} (hfaults : d.faults = [])
    (hpayload : payload = .ok bytes)
    (h : s.write type now epoch payload sync (succeed f) d = (st, s', d')) :
    (st.ok = true ↔ (s.journal.checkAppend type bytes).ok = true) ∧
      (st.ok = true → s' = f (s.logged type now epoch bytes)) := by
  subst hpayload
  cases hcheck : (s.journal.checkAppend type bytes).ok with
  | true =>
    rw [write_of_check hcheck hfaults] at h
    cases h
    exact ⟨iff_of_true rfl rfl, fun _ => rfl⟩
  | false =>
    have hno : st.ok = false := by
      cases write_cases h with
      | unencoded herror => cases herror
      | refused _ hno => exact hno
      | torn => rfl
      | unsynced _ _ _ _ _ hno => exact hno
      | written hbytes hyes =>
        cases hbytes
        rw [hcheck] at hyes
        cases hyes
    rw [hno]
    exact ⟨iff_of_false Bool.false_ne_true Bool.false_ne_true, fun hyes => by cases hyes⟩

theorem establishEpoch_iff (h : Kept config s d) (hlast : s.state.epoch.value ≠ 0xFFFFFFFFFFFFFFFF)
    (hcall : s.establishEpoch now d = (st, s', d')) :
    ∃ next bytes, next.known = true ∧ bytes.length = 8 ∧
      (st.ok = true ↔ (s.journal.checkAppend .epoch bytes).ok = true) ∧
      (st.ok = true → s' = { s.logged .epoch now next bytes with
        state := { s.state with previousEpoch := s.state.epoch, epoch := next } }) := by
  unfold establishEpoch at hcall
  have hnext : ∃ next, (if s.state.epoch.known then s.state.epoch.next else .ok ⟨1⟩) = .ok next ∧
      next.known = true := by
    split
    · rw [Epoch.next, if_neg hlast]
      refine ⟨_, rfl, Epoch.next_known (e := s.state.epoch) ?_⟩
      rw [Epoch.next, if_neg hlast]
    · exact ⟨⟨1⟩, rfl, rfl⟩
  obtain ⟨next, heq, hknown⟩ := hnext
  rw [heq] at hcall
  dsimp only at hcall
  obtain ⟨hiff, hafter⟩ := succeed_iff h.faults ((Appends.u64 next.value).take (by simp)) hcall
  exact ⟨next, _, hknown, by simp, hiff, hafter⟩

theorem recordBoot_iff {i : Incarnation} (h : Kept config s d) (hvalid : i.valid = true)
    (hknown : s.state.epoch.known = true) (hcall : s.recordBoot i now d = (st, s', d')) :
    ∃ bytes, bytes.length = 32 ∧
      (st.ok = true ↔ (s.journal.checkAppend .boot bytes).ok = true) ∧
      (st.ok = true → s' = { s.logged .boot now s.state.epoch bytes with
        state := { s.state with boot := i.boot, incarnation := i, bootRecorded := true } }) := by
  obtain ⟨bytes, hlength, hwrite, -⟩ := incarnation_codec i
  unfold recordBoot at hcall
  rw [hvalid, Bool.not_true, if_neg (by decide), withEpoch_known hknown] at hcall
  obtain ⟨hiff, hafter⟩ := succeed_iff h.faults (hwrite.take (by omega)) hcall
  exact ⟨bytes, hlength, hiff, hafter⟩

/-- The records that a store is opened with are those that it had. -/
theorem Kept.reopened (h : Kept config s d) : ∃ s' d', openAt config d = (.ok s', d') ∧
    s'.durable = s.durable ∧ s'.journal.records = s.journal.records ∧ Kept config s' d' := by
  obtain ⟨j, d', hopen, hrecords, -⟩ := h.live.reopen h.faults true
  rw [h.limits] at hopen
  obtain ⟨s', hstore, -, hjournal, hdurable⟩ :=
    openAt_of_journal h.refined.bytes hopen (hrecords.symm ▸ h.refined.replays)
  exact ⟨s', d', hstore, hdurable, hjournal ▸ hrecords, .opened h.faults hstore⟩

end DurableStore

namespace Fabric

open DurableStore (Kept)

variable {F : Fabric} {s : DurableStore} {d d' : Disk}

/-- Sane fences are all restored. -/
theorem restoreFences_succeeds {epoch : Epoch} {fences : List Fence} {t : FenceTable}
    (hepoch : epoch.known = true) (hvalid : ∀ f ∈ fences, f.validate.ok = true)
    (hcount : t.fences.length + fences.length ≤ kMaxFences) :
    ∃ t', restoreFences epoch fences t = .ok t' := by
  induction fences generalizing t with
  | nil => exact ⟨t, rfl⟩
  | cons f rest ih =>
    rw [List.length_cons] at hcount
    have hbound : (f.rebind epoch).validate.ok = true := by
      have hf := hvalid f List.mem_cons_self
      unfold Fence.validate at hf ⊢
      rw [Status.ok_guard (by decide), Status.ok_guard (by decide), Status.ok_guard (by decide),
        Status.ok_guard (by decide)] at hf ⊢
      exact ⟨hf.1, hf.2.1, hf.2.2.1, by simpa [Fence.rebind] using hepoch, rfl⟩
    obtain ⟨hok, htable⟩ := FenceTable.add_of_room (t := t) hbound (.inr (by omega))
    have hlength : (t.add (f.rebind epoch)).2.fences.length ≤ t.fences.length + 1 := by
      rw [htable]
      unfold putFences
      split
      · rw [List.length_replaceF]
        omega
      · rw [List.length_append, List.length_singleton]
    obtain ⟨t', hrest⟩ := ih (fun g hg => hvalid g (List.mem_cons_of_mem f hg))
      (t := (t.add (f.rebind epoch)).2) (by omega)
    refine ⟨t', ?_⟩
    rw [restoreFences]
    show (if (t.add (f.rebind epoch)).1.ok then _ else _) = _
    rw [hok]
    exact hrest

/-- Replayed fences are restored. -/
theorem restore_succeeds {config : DurableConfig} {previous : Epoch} (h : Kept config s d)
    (hepoch : s.state.epoch.known = true) (hempty : F.fences.fences = []) :
    ∃ F', F.restore s previous = .ok F' := by
  have hsane := h.sane
  have hfences : ∀ f ∈ s.state.fences, f.validate.ok = true := hsane.fences
  obtain ⟨t, ht⟩ := restoreFences_succeeds (t := F.fences) hepoch hfences
    (by rw [hempty, List.length_nil, Nat.zero_add]; exact hsane.fenceCount)
  unfold restore
  rw [ht]
  exact ⟨_, rfl⟩

/-- A store whose records replay is opened by a fabric exactly when there is room for the records of
the open. -/
theorem opens_iff {config : FabricConfig} {i : Incarnation} (hdurable : config.durable = true)
    (h : Kept (durableConfig config) s d) (hi : i.valid = true)
    (hlast : s.state.epoch.value ≠ 0xFFFFFFFFFFFFFFFF) :
    (∃ F d', openAt config i d = (.ok F, d')) ↔ Bootable config.journalLimits s.journal.records := by
  obtain ⟨s₀, d₀, hopen, hsame, hrecords, hkept⟩ := h.reopened
  have hlast₀ : s₀.state.epoch.value ≠ 0xFFFFFFFFFFFFFFFF := by
    rw [show s₀.state.epoch = s.state.epoch from congrArg Durable.epoch hsame]
    exact hlast
  have hbound : kMaxJournalPayload ≤ config.journalLimits.maxRecordBytes := h.refined.bytes
  have hmin : 117 ≤ config.journalLimits.maxRecordBytes := le_trans (by decide) hbound
  have hlimits : s₀.journal.limits = config.journalLimits := hkept.limits
  unfold openAt
  dsimp only
  rw [if_pos hdurable, hopen]
  dsimp only
  -- the record of the epoch
  rcases hepoch : s₀.establishEpoch kNoTick d₀ with ⟨st₁, s₁, d₁⟩
  obtain ⟨next, bytes, hknown, hbytes, hiff₁, hafter₁⟩ :=
    DurableStore.establishEpoch_iff hkept hlast₀ hepoch
  rw [hkept.live.lets_through (by decide), hlimits, hrecords, hbytes] at hiff₁
  dsimp only
  cases hok₁ : st₁.ok with
  | false =>
    rw [Bool.not_false, if_pos rfl]
    refine iff_of_false (fun ⟨_, _, heq⟩ => by cases heq) fun ⟨hcount, hfile, hretained⟩ => ?_
    rw [hok₁] at hiff₁
    exact Bool.false_ne_true (hiff₁.mpr ⟨by omega, by omega, by omega, by omega⟩)
  | true =>
    have hroom₁ := hiff₁.mp hok₁
    have hs₁ := hafter₁ hok₁
    have hkept₁ := hkept.settled (DurableStore.establishEpoch_settles hkept.live hkept.faults hepoch)
      (DurableStore.establishEpoch_does hepoch)
    have hknown₁ : s₁.state.epoch.known = true := by
      rw [hs₁]
      exact hknown
    have hlimits₁ : s₁.journal.limits = config.journalLimits := hkept₁.limits
    have hrecords₁ : s₁.journal.records = s.journal.records ++
        [s₀.journal.nextRecord .epoch kNoTick next bytes] := by
      rw [hs₁, ← hrecords]
      rfl
    have hpayload : payloadBytes [s₀.journal.nextRecord .epoch kNoTick next bytes] = 8 := by
      rw [payloadBytes_cons, payloadBytes_nil, Journal.nextRecord_payload, hbytes]
    rw [Bool.not_true, if_neg (by decide)]
    -- the record of the boot
    rcases hboot : s₁.recordBoot i kNoTick d₁ with ⟨st₂, s₂, d₂⟩
    obtain ⟨bytes₂, hbytes₂, hiff₂, hafter₂⟩ :=
      DurableStore.recordBoot_iff hkept₁ hi hknown₁ hboot
    rw [hkept₁.live.lets_through (by decide), hlimits₁, hrecords₁, hbytes₂, imageBytes_append,
      payloadBytes_append, hpayload, List.length_append, List.length_singleton] at hiff₂
    dsimp only
    cases hok₂ : st₂.ok with
    | false =>
      rw [Bool.not_false, if_pos rfl]
      refine iff_of_false (fun ⟨_, _, heq⟩ => by cases heq) fun ⟨hcount, hfile, hretained⟩ => ?_
      rw [hok₂] at hiff₂
      exact Bool.false_ne_true (hiff₂.mpr ⟨by omega, by omega, by omega, by omega⟩)
    | true =>
      have hroom₂ := hiff₂.mp hok₂
      have hkept₂ := hkept₁.settled
        (DurableStore.recordBoot_settles hkept₁.live hkept₁.faults hboot)
        (DurableStore.recordBoot_does hboot)
      have hknown₂ : s₂.state.epoch.known = true := by
        rw [hafter₂ hok₂]
        exact hknown₁
      obtain ⟨F, hF⟩ : ∃ F, (blank config i).restore s₂ s₀.state.epoch = .ok F :=
        restore_succeeds hkept₂ hknown₂ rfl
      rw [Bool.not_true, if_neg (by decide), hF]
      exact iff_of_true ⟨F, d₂, rfl⟩ ⟨by omega, by omega, by omega⟩

end Fabric

end Backpressure
