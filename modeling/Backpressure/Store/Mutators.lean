import Backpressure.Store.Recovery
import Backpressure.Store.Rewritten

/-!
# What a change of the store does

Every change but a compaction writes at most one record, and a change that succeeds does the event
that its record says.
-/

namespace Backpressure

namespace DurableStore

variable {s s' : DurableStore} {d d' : Disk} {st : Status} {now : Tick}

section Write

variable {type : RecordType} {epoch : Epoch} {payload : Result Bytes} {sync : Bool}
  {effect : DurableStore → Status × DurableStore}

/-- The store with one more record in its journal. -/
def logged (s : DurableStore) (type : RecordType) (now : Tick) (epoch : Epoch) (bytes : Bytes) :
    DurableStore :=
  { s with journal := s.journal.push (s.journal.nextRecord type now epoch bytes) }

/-- What the write of a record comes to. -/
inductive Wrote (s : DurableStore) (type : RecordType) (now : Tick) (epoch : Epoch)
    (payload : Result Bytes) (sync : Bool) (effect : DurableStore → Status × DurableStore) (d : Disk) :
    Status → DurableStore → Disk → Prop
  | unencoded {st : Status} : payload = .error st → Wrote s type now epoch payload sync effect d st s d
  | refused {bytes : Bytes} : payload = .ok bytes → (s.journal.checkAppend type bytes).ok = false →
      Wrote s type now epoch payload sync effect d (s.journal.checkAppend type bytes) s d
  | torn {bytes : Bytes} {k : Nat} : payload = .ok bytes → d.fault = some k →
      Wrote s type now epoch payload sync effect d (.error .ioError "journal append" 0) s
        (d.next.write ((s.journal.nextRecord type now epoch bytes).encode.take k))
  | unsynced {bytes : Bytes} {st : Status} {d' : Disk} : payload = .ok bytes →
      (s.journal.checkAppend type bytes).ok = true → d.fault = none → sync = true →
      (s.logged type now epoch bytes).journal.sync
        (d.next.write (s.journal.nextRecord type now epoch bytes).encode) = (st, d') →
      st.ok = false →
      Wrote s type now epoch payload sync effect d st (s.logged type now epoch bytes) d'
  | written {bytes : Bytes} {d' : Disk} : payload = .ok bytes →
      (s.journal.checkAppend type bytes).ok = true → d.fault = none →
      (sync = false ∧ d' = d.next.write (s.journal.nextRecord type now epoch bytes).encode ∨
        sync = true ∧ ∃ st : Status, st.ok = true ∧ (s.logged type now epoch bytes).journal.sync
          (d.next.write (s.journal.nextRecord type now epoch bytes).encode) = (st, d')) →
      Wrote s type now epoch payload sync effect d (effect (s.logged type now epoch bytes)).1
        (effect (s.logged type now epoch bytes)).2 d'

theorem write_cases (h : s.write type now epoch payload sync effect d = (st, s', d')) :
    Wrote s type now epoch payload sync effect d st s' d' := by
  unfold write at h
  cases payload with
  | error refused =>
    cases h
    exact .unencoded rfl
  | ok bytes =>
    dsimp only at h
    rcases happend : s.journal.append type now epoch bytes d with ⟨st₁, j₁, d₁⟩
    rw [happend] at h
    dsimp only at h
    rcases Journal.append_cases happend with ⟨rfl, hno, rfl, rfl⟩ | ⟨hcheck, hwritten⟩
    · rw [hno, Bool.not_false, if_pos rfl] at h
      cases h
      exact .refused rfl hno
    · rcases hwritten with ⟨k, hfault, hno, rfl, rfl⟩ | ⟨hfault, hyes, rfl, rfl⟩
      · rw [hno, Bool.not_false, if_pos rfl] at h
        cases h
        unfold Journal.append at happend
        dsimp only at happend
        rw [hcheck, Bool.not_true, if_neg (by decide), hfault] at happend
        cases happend
        exact .torn rfl hfault
      · rw [hyes, Bool.not_true, if_neg (by decide)] at h
        cases sync with
        | false =>
          rw [if_neg (by simp), if_neg (by simp)] at h
          cases h
          exact .written rfl hcheck hfault (.inl ⟨rfl, rfl⟩)
        | true =>
          rw [if_pos rfl] at h
          rcases hsync : (s.logged type now epoch bytes).journal.sync
            (d.next.write (s.journal.nextRecord type now epoch bytes).encode) with ⟨st₂, d₂⟩
          have hsame : (s.journal.push (s.journal.nextRecord type now epoch bytes)).sync
            (d.next.write (s.journal.nextRecord type now epoch bytes).encode) = (st₂, d₂) := hsync
          rw [hsame] at h
          dsimp only at h
          cases hok : st₂.ok with
          | false =>
            rw [hok, Bool.not_false, if_pos rfl] at h
            cases h
            exact .unsynced rfl hcheck hfault rfl hsync hok
          | true =>
            rw [hok, Bool.not_true, if_neg (by decide)] at h
            cases h
            exact .written rfl hcheck hfault (.inr ⟨rfl, st₂, hok, hsync⟩)

end Write

/-! ## Changes as events -/

/-- A change that leaves what is kept and the records, or does an event and adds the record that
says it. -/
inductive Does (s s' : DurableStore) : Prop
  | nothing : s'.config = s.config → s'.journal.limits = s.journal.limits →
      s'.durable = s.durable → s'.journal.records = s.journal.records → Does s s'
  | event {ev : DurableEvent} {r : JournalRecord} : s'.config = s.config →
      s'.journal.limits = s.journal.limits → ev.Possible s.config s.durable → r.Says s.config ev →
      s'.journal.records = s.journal.records ++ [r] → s'.durable = ev.apply s.config s.durable →
      Does s s'

theorem Does.config (h : Does s s') : s'.config = s.config := by
  cases h with
  | nothing hconfig => exact hconfig
  | event hconfig => exact hconfig

theorem Does.limits (h : Does s s') : s'.journal.limits = s.journal.limits := by
  cases h with
  | nothing _ hlimits => exact hlimits
  | event _ hlimits => exact hlimits

theorem Does.replays (h : Does s s') (hreplays : Replays s.config s.journal.records s.durable) :
    Replays s'.config s'.journal.records s'.durable := by
  cases h with
  | nothing hconfig _ hdurable hrecords => rwa [hconfig, hdurable, hrecords]
  | event hconfig _ hpossible hsaid hrecords hdurable =>
    rw [hconfig, hrecords, hdurable]
    exact hreplays.snoc hsaid hpossible

section Write

variable {type : RecordType} {epoch : Epoch} {payload : Result Bytes} {sync : Bool}
  {effect : DurableStore → Status × DurableStore}

/-- A write that succeeds does the event that its record says. -/
theorem write_does (ev : DurableEvent) (h : s.write type now epoch payload sync effect d = (st, s', d'))
    (hst : st.ok = true) (hpayload : ∃ bytes, payload = .ok bytes)
    (hpossible : ev.Possible s.config s.durable)
    (hsaid : ∀ r : JournalRecord, r.type = type → r.epoch = epoch → payload = .ok r.payload →
      r.Says s.config ev)
    (heffect : ∀ j : Journal, let next := effect { s with journal := j }
      next.1.ok = true → next.2.config = s.config ∧ next.2.journal = j ∧
        next.2.durable = ev.apply s.config s.durable) : Does s s' := by
  obtain ⟨bytes, hbytes⟩ := hpayload
  cases write_cases h with
  | unencoded herror =>
    rw [hbytes] at herror
    cases herror
  | refused _ hno =>
    rw [hno] at hst
    cases hst
  | torn => cases hst
  | unsynced _ _ _ _ _ hno =>
    rw [hno] at hst
    cases hst
  | @written bytes _ hpayload _ _ _ =>
    obtain ⟨hconfig, hjournal, hdurable⟩ := heffect _ hst
    have hrecord := hsaid (s.journal.nextRecord type now epoch bytes) rfl rfl hpayload
    refine .event hconfig ?_ hpossible hrecord ?_ hdurable
    · exact (congrArg Journal.limits hjournal).trans rfl
    · exact congrArg Journal.records hjournal

end Write

theorem withEpoch_ok {next : Status × DurableStore × Disk}
    (h : s.withEpoch d next = (st, s', d')) (hst : st.ok = true) :
    s.state.epoch.known = true ∧ next = (st, s', d') := by
  unfold withEpoch at h
  split at h
  · cases h
    cases hst
  case isFalse hknown => exact ⟨by simpa using hknown, h⟩

theorem take_u64 {n : Nat} (hn : 8 ≤ n) (v : UInt64) :
    ∃ bytes, ByteWriter.take n (ByteWriter.u64 v) = .ok bytes :=
  ⟨_, (Appends.u64 v).take (by simpa using hn)⟩

theorem establishEpoch_does (h : s.establishEpoch now d = (st, s', d')) (hst : st.ok = true) :
    Does s s' := by
  unfold establishEpoch at h
  split at h
  case h_1 refused hnext =>
    cases h
    split at hnext
    · unfold Epoch.next at hnext
      split at hnext
      · cases hnext
        cases hst
      · cases hnext
    · cases hnext
  case h_2 next hnext =>
    refine write_does (.epoch next) h hst (take_u64 (by decide) _) trivial ?_ fun j _ =>
      ⟨rfl, rfl, rfl⟩
    intro r htype hepoch _
    rw [← hepoch]
    exact says_epoch htype

theorem recordBoot_does {i : Incarnation} (h : s.recordBoot i now d = (st, s', d'))
    (hst : st.ok = true) : Does s s' := by
  unfold recordBoot at h
  split at h
  · cases h
    cases hst
  · obtain ⟨-, h⟩ := withEpoch_ok h hst
    obtain ⟨bytes, hlength, hwrite, -⟩ := incarnation_codec i
    refine write_does (.boot i) h hst ⟨bytes, hwrite.take (by omega)⟩ trivial ?_ fun j _ =>
      ⟨rfl, rfl, rfl⟩
    exact fun r htype _ hpayload => says_boot htype hpayload

theorem persistPolicy_does {p : PropagationPolicy} (h : s.persistPolicy p now d = (st, s', d'))
    (hst : st.ok = true) (hbytes : 117 ≤ s.config.journalLimits.maxRecordBytes) : Does s s' := by
  unfold persistPolicy at h
  split at h
  case isTrue hno =>
    cases h
    rw [hst] at hno
    cases hno
  case isFalse hvalid =>
    have hvalid : p.validate.ok = true := by simpa using hvalid
    obtain ⟨-, h⟩ := withEpoch_ok h hst
    split at h
    · split at h
      · cases h
        exact .nothing rfl rfl rfl rfl
      · cases h
        cases hst
    · obtain ⟨bytes, hlength, hwrite, -⟩ := policy_codec hvalid
      refine write_does (.policy p) h hst
        ⟨bytes, hwrite.take (le_min (by omega) (by rw [hlength]; decide))⟩ hvalid ?_ fun j _ =>
        ⟨rfl, rfl, rfl⟩
      exact fun r htype _ hpayload => says_policy hbytes htype hpayload

theorem bindTopology_does {digest : Digest128} {generation : Generation}
    (h : s.bindTopology digest generation now d = (st, s', d')) (hst : st.ok = true) :
    Does s s' := by
  unfold bindTopology at h
  split at h
  · cases h
    cases hst
  · obtain ⟨-, h⟩ := withEpoch_ok h hst
    have hwrite : Appends (encodeBinding digest generation) _ :=
      (Appends.digest digest).seq (Appends.u64 generation.value)
    refine write_does (.binding digest generation) h hst ⟨_, hwrite.take (by simp)⟩ trivial ?_
      fun j _ => ⟨rfl, rfl, rfl⟩
    exact fun r htype _ hpayload => says_binding htype hpayload

theorem putFence_does {f : Fence} (h : s.putFence f now d = (st, s', d')) (hst : st.ok = true) :
    Does s s' := by
  unfold putFence at h
  split at h
  case isTrue hno =>
    cases h
    rw [hst] at hno
    cases hno
  case isFalse hvalid =>
    have hvalid : f.validate.ok = true := by simpa using hvalid
    obtain ⟨-, h⟩ := withEpoch_ok h hst
    obtain ⟨bytes, hlength, hwrite, -⟩ := fence_codec hvalid
    have htake : serializeFence f = .ok bytes := hwrite.take (by rw [hlength]; decide)
    rw [htake] at h
    dsimp only at h
    split at h
    · cases h
      cases hst
    · by_cases hroom : (s.state.fences.any fun existing => existing.id == f.id) = true ∨
          s.state.fences.length < kMaxFences
      · refine write_does (.putFence f) h hst ⟨bytes, rfl⟩ ⟨hvalid, hroom⟩ ?_ fun j _ => ?_
        · intro r htype _ hpayload
          cases hpayload
          exact says_putFence htype htake
        · dsimp only
          rw [putFence_ok hroom]
          exact ⟨rfl, rfl, rfl⟩
      · -- the record is written, and then there is no room for the fence
        exfalso
        obtain ⟨hnew, hfull⟩ := not_or.mp hroom
        cases write_cases h with
        | unencoded herror => cases herror
        | refused _ hno =>
          rw [hno] at hst
          cases hst
        | torn => cases hst
        | unsynced _ _ _ _ _ hno =>
          rw [hno] at hst
          cases hst
        | written =>
          dsimp only [logged] at hst
          unfold RecoveredState.putFence at hst
          rw [if_neg hnew, if_pos (not_lt.mp hfull)] at hst
          cases hst

theorem removeFence_does {id : FenceId} (h : s.removeFence id now d = (st, s', d'))
    (hst : st.ok = true) (hsane : s.durable.Sane s.config) : Does s s' := by
  unfold removeFence at h
  obtain ⟨-, h⟩ := withEpoch_ok h hst
  split at h
  · cases h
    cases hst
  case isFalse hany =>
    have hany := not_not.mp hany
    have hvalid : id.valid = true := by
      obtain ⟨f, hf, hid⟩ := List.mem_map.mp (any_id.mp hany)
      have hfence := hsane.fences f hf
      unfold Fence.validate at hfence
      rw [Status.ok_guard (by decide)] at hfence
      rw [← hid]
      simpa using hfence.1
    refine write_does (.removeFence id) h hst (take_u64 (by decide) _) ⟨hvalid, hany⟩ ?_ fun j _ =>
      ⟨rfl, rfl, rfl⟩
    exact fun r htype _ hpayload => says_removeFence htype hpayload

theorem recordLineage_does {lineage : Digest128} (h : s.recordLineage lineage now d = (st, s', d'))
    (hst : st.ok = true) : Does s s' := by
  unfold recordLineage at h
  split at h
  · cases h
    cases hst
  · obtain ⟨-, h⟩ := withEpoch_ok h hst
    refine write_does (.lineage lineage) h hst ⟨_, (Appends.digest lineage).take (by simp)⟩ trivial ?_
      fun j _ => ⟨rfl, rfl, durable_rememberLineage⟩
    exact fun r htype _ hpayload => says_lineage htype hpayload

theorem requestRevalidation_does {resource : ResourceId}
    (h : s.requestRevalidation resource now d = (st, s', d')) (hst : st.ok = true) : Does s s' := by
  unfold requestRevalidation at h
  split at h
  · cases h
    cases hst
  case isFalse hvalid =>
    have hvalid : resource.valid = true := by simpa using hvalid
    obtain ⟨-, h⟩ := withEpoch_ok h hst
    have hwrite : Appends (encodeRevalidation kRevalidationRequest resource) _ :=
      (Appends.u8 kRevalidationRequest).seq (Appends.u64 resource.value)
    refine write_does (.require resource) h hst ⟨_, hwrite.take (by simp)⟩ hvalid ?_ fun j => ?_
    · exact fun r htype _ hpayload => says_require htype hpayload
    · unfold DurableEvent.apply enlist
      dsimp only
      intro hok
      split
      case isTrue hmem =>
        rw [if_pos (show resource ∈ s.durable.revalidationRequired from hmem)]
        exact ⟨rfl, rfl, rfl⟩
      case isFalse hmem =>
        rw [if_neg (show resource ∉ s.durable.revalidationRequired from hmem)]
        split
        case isTrue hfull =>
          rw [if_pos (show _ ≤ s.durable.revalidationRequired.length from hfull)]
          exact ⟨rfl, rfl, rfl⟩
        case isFalse hfull =>
          rw [if_neg (show ¬_ ≤ s.durable.revalidationRequired.length from hfull)]
          exact ⟨rfl, rfl, rfl⟩

theorem clearRevalidation_does {resource : ResourceId}
    (h : s.clearRevalidation resource now d = (st, s', d')) (hst : st.ok = true)
    (hvalid : resource.valid = true) : Does s s' := by
  obtain ⟨-, h⟩ := withEpoch_ok h hst
  have hwrite : Appends (encodeRevalidation kRevalidationClear resource) _ :=
    (Appends.u8 kRevalidationClear).seq (Appends.u64 resource.value)
  refine write_does (.release resource) h hst ⟨_, hwrite.take (by simp)⟩ hvalid ?_ fun j _ =>
    ⟨rfl, rfl, rfl⟩
  exact fun r htype _ hpayload => says_release htype hpayload

/-- A full list takes no further resource. -/
theorem foldl_enlist_full {maxEntries : Nat} {required : List ResourceId}
    (hfull : maxEntries ≤ required.length) (resources : List ResourceId) :
    resources.foldl (enlist maxEntries) required = required := by
  induction resources with
  | nil => rfl
  | cons resource rest ih =>
    have hone : enlist maxEntries required resource = required := by
      rw [enlist, if_pos hfull, ite_self]
    rw [List.foldl_cons, hone, ih]

theorem durable_requireAll {maxEntries : Nat} (entries : List (SourceId × ResourceId))
    (s : DurableStore) :
    { s with state := requireAll maxEntries entries s.state }.durable =
      { s.durable with
        revalidationRequired := (entries.map Prod.snd).foldl (enlist maxEntries)
          s.state.revalidationRequired } := by
  induction entries generalizing s with
  | nil => rfl
  | cons e rest ih =>
    rw [requireAll, List.map_cons, List.foldl_cons, enlist]
    split
    · exact ih s
    · split
      case isTrue hfull =>
        rw [foldl_enlist_full hfull]
        rfl
      · exact ih { s with
          state := { s.state with
            revalidationRequired := s.state.revalidationRequired ++ [e.2] } }

theorem recordPressureFootprint_does {entries : List (SourceId × ResourceId)}
    (h : s.recordPressureFootprint entries now d = (st, s', d')) (hst : st.ok = true)
    (hvalid : ∀ e ∈ entries, e.1.valid = true ∧ e.2.valid = true)
    (hsize : entries.length < UInt32.size) : Does s s' := by
  obtain ⟨-, h⟩ := withEpoch_ok h hst
  split at h
  · cases h
    cases hst
  case isFalse hmax =>
    split at h
    · cases h
      cases hst
    case isFalse hbytes =>
      have hwrite : Appends (encodeFootprint entries) _ :=
        (Appends.u8 kRevalidationFootprint).seq <| (Appends.u32 (.ofNat entries.length)).seq <|
          appends_entries entries
      have hlength := length_entryBytes entries
      have htake := @Appends.take _ _ s.config.journalLimits.maxRecordBytes hwrite (by
        simp only [List.length_append, Lib.LittleEndian.length_encode]
        omega)
      refine write_does (.footprint entries) h hst ⟨_, htake⟩ ⟨not_lt.mp hmax, hsize, hvalid⟩ ?_
        fun j _ => ⟨rfl, rfl, durable_requireAll entries { s with journal := j }⟩
      exact fun r htype _ hpayload => says_footprint (not_lt.mp hbytes) htype hpayload

theorem beginAttempt_does {id : AttemptId} (h : s.beginAttempt id now d = (st, s', d'))
    (hst : st.ok = true) : Does s s' := by
  unfold beginAttempt at h
  split at h
  · cases h
    cases hst
  case isFalse hvalid =>
    have hvalid : id.valid = true := by simpa using hvalid
    obtain ⟨-, h⟩ := withEpoch_ok h hst
    split at h
    · cases h
      cases hst
    case isFalse hnew =>
      refine write_does (.beginAttempt id) h hst (take_u64 (by decide) _) ⟨hvalid, hnew⟩ ?_
        fun j _ => ⟨rfl, rfl, rfl⟩
      exact fun r htype _ hpayload => says_begin htype hpayload

theorem commitAttempt_does {id : AttemptId} (h : s.commitAttempt id now d = (st, s', d'))
    (hst : st.ok = true) (hsane : s.durable.Sane s.config) : Does s s' := by
  unfold commitAttempt at h
  split at h
  · cases h
    cases hst
  case isFalse hopen =>
    have hopen := not_not.mp hopen
    refine write_does (.closeAttempt id) h hst (take_u64 (by decide) _)
      ⟨hsane.attemptIds id hopen, hopen⟩ ?_ fun j _ => ⟨rfl, rfl, rfl⟩
    exact fun r htype _ hpayload => says_commit htype hpayload

theorem abortAttempt_does {id : AttemptId} (h : s.abortAttempt id now d = (st, s', d'))
    (hst : st.ok = true) (hsane : s.durable.Sane s.config) : Does s s' := by
  unfold abortAttempt at h
  split at h
  · cases h
    cases hst
  case isFalse hopen =>
    have hopen := not_not.mp hopen
    refine write_does (.closeAttempt id) h hst (take_u64 (by decide) _)
      ⟨hsane.attemptIds id hopen, hopen⟩ ?_ fun j _ => ⟨rfl, rfl, rfl⟩
    exact fun r htype _ hpayload => says_abort htype hpayload

end DurableStore

end Backpressure
