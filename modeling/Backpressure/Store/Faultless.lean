import Backpressure.Store.Refinement
import Backpressure.Store.Reopening
import Backpressure.Store.Appended

/-!
# Calls on a disk that does not fail

When nothing fails, a call of the store is refused before it touches the journal, or its record is
written and the journal stays live. What an open then makes of the records is another question: a
record can be written for a change that the replay refuses.
-/

namespace Backpressure

/-- There is room for a fence: its identity is known, or the list is not full. -/
def RoomFor (fences : List Fence) (f : Fence) : Prop :=
  (fences.any fun existing => existing.id == f.id) = true ∨ fences.length < kMaxFences

/-! ## Opens -/

namespace Journal

variable {j : Journal} {d : Disk}

theorem faults_next (h : d.faults = []) : d.next.faults = [] := congrArg List.tail h

theorem faults_seekEnd {offset : Nat} (h : d.faults = []) :
    (j.seekEnd offset d).2.2.faults = [] := by
  unfold seekEnd
  split
  · exact faults_next h
  · exact faults_next h

theorem faults_replayFile (h : d.faults = []) : (j.replayFile d).2.2.faults = [] := by
  unfold replayFile
  split
  · exact faults_next h
  · dsimp only
    split
    · exact faults_next h
    · split
      · exact faults_next h
      · split
        · split
          · exact faults_next (faults_next h)
          · exact faults_seekEnd (faults_next (faults_next h))
        · exact faults_seekEnd (faults_next h)

theorem faults_handle {limits : JournalLimits} (h : d.faults = []) :
    (if d.file.isNone then create { limits } d else openHandle { limits } d).2.2.faults = [] := by
  split
  · unfold create
    split
    · exact faults_next h
    · dsimp only
      split
      · exact faults_next (faults_next h)
      · exact faults_next (faults_next h)
  · unfold openHandle
    split
    · exact faults_next h
    · exact faults_next h

/-- An open of a disk that does not fail leaves one that does not fail. -/
theorem faults_openAt {limits : JournalLimits} {createIfMissing : Bool} (h : d.faults = []) :
    (openAt limits createIfMissing d).2.faults = [] := by
  have hhandle : (if d.file.isNone then create { limits } d
      else openHandle { limits } d).2.2.faults = [] := faults_handle h
  unfold openAt
  split
  · exact h
  split
  · exact h
  generalize (if d.file.isNone then create { limits } d else openHandle { limits } d) = handle
    at hhandle
  obtain ⟨st, j, d₁⟩ := handle
  have hreplay : (j.replayFile d₁).2.2.faults = [] := faults_replayFile hhandle
  dsimp only
  split
  · exact hhandle
  · generalize j.replayFile d₁ = after at hreplay
    obtain ⟨st', j', d₂⟩ := after
    dsimp only
    split
    · exact hreplay
    · exact hreplay

end Journal

namespace DurableStore

variable {config : DurableConfig} {s s' : DurableStore} {d d' : Disk} {st : Status} {now : Tick}

/-- The store has an epoch, and its journal lets the record through. -/
def LetsThrough (s : DurableStore) (type : RecordType) (payload : Result Bytes) : Prop :=
  s.state.epoch.known = true ∧
    ∃ bytes, payload = .ok bytes ∧ (s.journal.checkAppend type bytes).ok = true

/-! ## One write -/

/-- A live journal with one more record than that of the store, on a disk that does not fail. -/
structure Grown (s s' : DurableStore) (d' : Disk) : Prop where
  record : ∃ r, s'.journal = s.journal.push r
  live : s'.journal.Live d'
  faults : d'.faults = []

section Write

variable {type : RecordType} {epoch : Epoch} {payload : Result Bytes} {bytes : Bytes} {sync : Bool}
  {effect : DurableStore → Status × DurableStore}

/-- When nothing fails a write is refused by the checks of the journal, or its record is there. -/
theorem write_settles (hlive : s.journal.Live d) (hfaults : d.faults = [])
    (hpayload : payload = .ok bytes) (hlength : bytes.length < 256 ^ 4)
    (heffect : ∀ j : Journal, (effect { s with journal := j }).2.journal = j)
    (h : s.write type now epoch payload sync effect d = (st, s', d')) :
    (st.ok = false ∧ s' = s ∧ d' = d) ∨
      ((s.journal.checkAppend type bytes).ok = true ∧
        (st, s') = effect (s.logged type now epoch bytes) ∧ s.Grown s' d') := by
  subst hpayload
  cases hcheck : (s.journal.checkAppend type bytes).ok with
  | false =>
    left
    cases write_cases h with
    | unencoded herror => cases herror
    | refused hbytes hno =>
      cases hbytes
      exact ⟨hno, rfl, rfl⟩
    | torn hbytes hfault =>
      rw [fault_of_faults hfaults] at hfault
      cases hfault
    | unsynced hbytes hyes =>
      cases hbytes
      rw [hcheck] at hyes
      cases hyes
    | written hbytes hyes =>
      cases hbytes
      rw [hcheck] at hyes
      cases hyes
  | true =>
    right
    rw [write_of_check hcheck hfaults] at h
    have hlogged : (s.logged type now epoch bytes).journal.Live
        (d.next.write (s.journal.nextRecord type now epoch bytes).encode) :=
      hlive.appended hcheck hlength
    have hjournal : (effect (s.logged type now epoch bytes)).2.journal =
        (s.logged type now epoch bytes).journal := heffect _
    cases h
    refine ⟨rfl, rfl, ⟨_, hjournal⟩, ?_, ?_⟩
    · rw [hjournal]
      cases sync with
      | false => exact hlogged
      | true => exact hlogged.of_bytes rfl
    · cases sync with
      | false => exact (congrArg List.tail hfaults).trans rfl
      | true => exact (congrArg (fun l => l.tail.tail) hfaults).trans rfl

/-- A record that the journal does not let through changes nothing. -/
theorem write_idle (hfaults : d.faults = [])
    (hno : ∀ bytes, payload = .ok bytes → (s.journal.checkAppend type bytes).ok = false)
    (h : s.write type now epoch payload sync effect d = (st, s', d')) : s' = s ∧ d' = d := by
  cases write_cases h with
  | unencoded => exact ⟨rfl, rfl⟩
  | refused => exact ⟨rfl, rfl⟩
  | torn _ hfault =>
    rw [fault_of_faults hfaults] at hfault
    cases hfault
  | unsynced hbytes hyes =>
    rw [hno _ hbytes] at hyes
    cases hyes
  | written hbytes hyes =>
    rw [hno _ hbytes] at hyes
    cases hyes

end Write

/-- A call that leaves everything as it was, or succeeds and writes one record. -/
def Settles (s : DurableStore) (d : Disk) (st : Status) (s' : DurableStore) (d' : Disk) : Prop :=
  s' = s ∧ d' = d ∨ st.ok = true ∧ s.Grown s' d'

theorem succeed_settles {type : RecordType} {epoch : Epoch} {payload : Result Bytes} {bytes : Bytes}
    {sync : Bool} {f : DurableStore → DurableStore} (hlive : s.journal.Live d)
    (hfaults : d.faults = []) (hpayload : payload = .ok bytes) (hlength : bytes.length < 256 ^ 4)
    (hf : ∀ j : Journal, (f { s with journal := j }).journal = j)
    (h : s.write type now epoch payload sync (succeed f) d = (st, s', d')) :
    Settles s d st s' d' := by
  rcases write_settles hlive hfaults hpayload hlength hf h with
    ⟨-, hs, hd⟩ | ⟨-, heffect, hgrown⟩
  · exact .inl ⟨hs, hd⟩
  · cases heffect
    exact .inr ⟨rfl, hgrown⟩

theorem withEpoch_cases {next : Status × DurableStore × Disk}
    (h : s.withEpoch d next = (st, s', d')) :
    (s' = s ∧ d' = d) ∨ s.state.epoch.known = true ∧ next = (st, s', d') := by
  unfold withEpoch at h
  split at h
  · cases h
    exact .inl ⟨rfl, rfl⟩
  case isFalse hknown => exact .inr ⟨by simpa using hknown, h⟩

/-! ## The calls -/

theorem establishEpoch_settles (hlive : s.journal.Live d) (hfaults : d.faults = [])
    (h : s.establishEpoch now d = (st, s', d')) : Settles s d st s' d' := by
  unfold establishEpoch at h
  split at h
  · cases h
    exact .inl ⟨rfl, rfl⟩
  case h_2 next _ =>
    exact succeed_settles hlive hfaults ((Appends.u64 next.value).take (by simp)) (by simp)
      (fun _ => rfl) h

theorem recordBoot_settles {i : Incarnation} (hlive : s.journal.Live d) (hfaults : d.faults = [])
    (h : s.recordBoot i now d = (st, s', d')) : Settles s d st s' d' := by
  obtain ⟨bytes, hlength, hwrite, -⟩ := incarnation_codec i
  unfold recordBoot at h
  split at h
  · cases h
    exact .inl ⟨rfl, rfl⟩
  rcases withEpoch_cases h with hidle | ⟨-, h⟩
  · exact .inl hidle
  · exact succeed_settles hlive hfaults (hwrite.take (by omega)) (by rw [hlength]; decide)
      (fun _ => rfl) h

theorem persistPolicy_settles {p : PropagationPolicy} (hlive : s.journal.Live d)
    (hfaults : d.faults = []) (hbytes : 117 ≤ s.config.journalLimits.maxRecordBytes)
    (h : s.persistPolicy p now d = (st, s', d')) : Settles s d st s' d' := by
  unfold persistPolicy at h
  split at h
  · cases h
    exact .inl ⟨rfl, rfl⟩
  case isFalse hvalid =>
    obtain ⟨bytes, hlength, hwrite, -⟩ := policy_codec (p := p) (by simpa using hvalid)
    rcases withEpoch_cases h with hidle | ⟨-, h⟩
    · exact .inl hidle
    · split at h
      · split at h <;> cases h <;> exact .inl ⟨rfl, rfl⟩
      · exact succeed_settles hlive hfaults
          (hwrite.take (le_min (by omega) (by rw [hlength]; decide)))
          (by rw [hlength]; decide) (fun _ => rfl) h

theorem bindTopology_settles {digest : Digest128} {generation : Generation}
    (hlive : s.journal.Live d) (hfaults : d.faults = [])
    (h : s.bindTopology digest generation now d = (st, s', d')) :
    Settles s d st s' d' := by
  unfold bindTopology at h
  split at h
  · cases h
    exact .inl ⟨rfl, rfl⟩
  rcases withEpoch_cases h with hidle | ⟨-, h⟩
  · exact .inl hidle
  · have hwrite : Appends (encodeBinding digest generation) _ :=
      (Appends.digest digest).seq (Appends.u64 generation.value)
    exact succeed_settles hlive hfaults (hwrite.take (by simp)) (by simp) (fun _ => rfl) h

theorem removeFence_settles {id : FenceId} (hlive : s.journal.Live d) (hfaults : d.faults = [])
    (h : s.removeFence id now d = (st, s', d')) : Settles s d st s' d' := by
  rcases withEpoch_cases h with hidle | ⟨-, h⟩
  · exact .inl hidle
  · split at h
    · cases h
      exact .inl ⟨rfl, rfl⟩
    · exact succeed_settles hlive hfaults ((Appends.u64 id.value).take (by simp)) (by simp)
        (fun _ => rfl) h

theorem recordLineage_settles {lineage : Digest128} (hlive : s.journal.Live d)
    (hfaults : d.faults = []) (h : s.recordLineage lineage now d = (st, s', d')) :
    Settles s d st s' d' := by
  unfold recordLineage at h
  split at h
  · cases h
    exact .inl ⟨rfl, rfl⟩
  rcases withEpoch_cases h with hidle | ⟨-, h⟩
  · exact .inl hidle
  · exact succeed_settles hlive hfaults ((Appends.digest lineage).take (by simp)) (by simp)
      (fun _ => rfl) h

theorem appends_revalidation (op : UInt8) (resource : ResourceId) :
    ∃ bytes, bytes.length = 9 ∧ Appends (encodeRevalidation op resource) bytes :=
  ⟨_, by simp, (Appends.u8 op).seq (Appends.u64 resource.value)⟩

theorem clearRevalidation_settles {resource : ResourceId} (hlive : s.journal.Live d)
    (hfaults : d.faults = []) (h : s.clearRevalidation resource now d = (st, s', d')) :
    Settles s d st s' d' := by
  obtain ⟨bytes, hlength, hwrite⟩ := appends_revalidation kRevalidationClear resource
  rcases withEpoch_cases h with hidle | ⟨-, h⟩
  · exact .inl hidle
  · exact succeed_settles hlive hfaults (hwrite.take (by omega)) (by rw [hlength]; decide)
      (fun _ => rfl) h

theorem beginAttempt_settles {id : AttemptId} (hlive : s.journal.Live d) (hfaults : d.faults = [])
    (h : s.beginAttempt id now d = (st, s', d')) : Settles s d st s' d' := by
  unfold beginAttempt at h
  split at h
  · cases h
    exact .inl ⟨rfl, rfl⟩
  rcases withEpoch_cases h with hidle | ⟨-, h⟩
  · exact .inl hidle
  · split at h
    · cases h
      exact .inl ⟨rfl, rfl⟩
    · exact succeed_settles hlive hfaults ((Appends.u64 id.value).take (by simp)) (by simp)
        (fun _ => rfl) h

theorem commitAttempt_settles {id : AttemptId} (hlive : s.journal.Live d) (hfaults : d.faults = [])
    (h : s.commitAttempt id now d = (st, s', d')) : Settles s d st s' d' := by
  unfold commitAttempt at h
  split at h
  · cases h
    exact .inl ⟨rfl, rfl⟩
  · exact succeed_settles hlive hfaults ((Appends.u64 id.value).take (by simp)) (by simp)
      (fun _ => rfl) h

theorem abortAttempt_settles {id : AttemptId} (hlive : s.journal.Live d) (hfaults : d.faults = [])
    (h : s.abortAttempt id now d = (st, s', d')) : Settles s d st s' d' := by
  unfold abortAttempt at h
  split at h
  · cases h
    exact .inl ⟨rfl, rfl⟩
  · exact succeed_settles hlive hfaults ((Appends.u64 id.value).take (by simp)) (by simp)
      (fun _ => rfl) h

theorem recordPressureFootprint_settles {entries : List (SourceId × ResourceId)}
    (hlive : s.journal.Live d) (hfaults : d.faults = []) (hshort : 5 + entries.length * 16 < 2 ^ 32)
    (h : s.recordPressureFootprint entries now d = (st, s', d')) : Settles s d st s' d' := by
  rcases withEpoch_cases h with hidle | ⟨-, h⟩
  · exact .inl hidle
  · split at h
    · cases h
      exact .inl ⟨rfl, rfl⟩
    · split at h
      · cases h
        exact .inl ⟨rfl, rfl⟩
      case isFalse hbytes =>
        have hwrite : Appends (encodeFootprint entries) _ :=
          (Appends.u8 kRevalidationFootprint).seq <| (Appends.u32 (.ofNat entries.length)).seq <|
            appends_entries entries
        have hlength := length_entryBytes entries
        refine succeed_settles hlive hfaults (hwrite.take ?_) ?_ (fun _ => rfl) h
        all_goals
          simp only [List.length_append, Lib.LittleEndian.length_encode]
          omega

/-- The fence is refused before it is written, or put, or written although there is no room for
it. -/
theorem putFence_settles {f : Fence} (hlive : s.journal.Live d) (hfaults : d.faults = [])
    (h : s.putFence f now d = (st, s', d')) :
    (st.ok = false ∧ s' = s ∧ d' = d) ∨
      ∃ bytes, f.validate.ok = true ∧ serializeFence f = .ok bytes ∧
        s.LetsThrough .fencePut (serializeFence f) ∧ s.Grown s' d' ∧
        (st.ok = true ∧ RoomFor s.state.fences f ∨
          st.ok = false ∧ ¬RoomFor s.state.fences f ∧
            s' = s.logged .fencePut now s.state.epoch bytes) := by
  unfold putFence at h
  split at h
  case isTrue hinvalid =>
    cases h
    exact .inl ⟨by simpa using hinvalid, rfl, rfl⟩
  case isFalse hvalid =>
    have hvalid : f.validate.ok = true := by simpa using hvalid
    obtain ⟨bytes, hlength, hwrite, -⟩ := fence_codec hvalid
    have htake : serializeFence f = .ok bytes := hwrite.take (by rw [hlength]; decide)
    unfold withEpoch at h
    split at h
    · cases h
      exact .inl ⟨rfl, rfl, rfl⟩
    case isFalse hknown =>
      rw [htake] at h
      dsimp only at h
      split at h
      · cases h
        exact .inl ⟨rfl, rfl, rfl⟩
      · have hshort : bytes.length < 256 ^ 4 := by
          rw [hlength]
          decide
        rcases write_settles hlive hfaults rfl hshort (fun j => by dsimp only; split <;> rfl) h with
          ⟨hno, hs, hd⟩ | ⟨hcheck, heffect, hgrown⟩
        · exact .inl ⟨hno, hs, hd⟩
        · refine .inr ⟨bytes, hvalid, htake, ⟨by simpa using hknown, bytes, htake, hcheck⟩,
            hgrown, ?_⟩
          by_cases hroom : RoomFor s.state.fences f
          · rw [show (s.logged .fencePut now s.state.epoch bytes).state = s.state from rfl,
              putFence_ok hroom] at heffect
            cases heffect
            exact .inl ⟨rfl, hroom⟩
          · obtain ⟨hnew, hfull⟩ := not_or.mp hroom
            rw [show (s.logged .fencePut now s.state.epoch bytes).state = s.state from rfl,
              RecoveredState.putFence, if_neg hnew, if_pos (not_lt.mp hfull)] at heffect
            cases heffect
            exact .inr ⟨rfl, hroom, rfl⟩

/-- A request for which there is no room is written, and so it is when it is replayed: nothing comes
of it. -/
theorem requestRevalidation_settles {resource : ResourceId} (hlive : s.journal.Live d)
    (hfaults : d.faults = []) (h : s.requestRevalidation resource now d = (st, s', d')) :
    (s' = s ∧ d' = d) ∨ Does s s' ∧ s.Grown s' d' := by
  have hcall := h
  unfold requestRevalidation at h
  split at h
  · cases h
    exact .inl ⟨rfl, rfl⟩
  case isFalse hvalid =>
    have hvalid : resource.valid = true := by simpa using hvalid
    obtain ⟨bytes, hlength, hwrite⟩ := appends_revalidation kRevalidationRequest resource
    have htake :
        ByteWriter.take 16 (encodeRevalidation kRevalidationRequest resource) = .ok bytes :=
      hwrite.take (by omega)
    rcases withEpoch_cases h with hidle | ⟨-, h⟩
    · exact .inl hidle
    rcases write_settles hlive hfaults htake (by rw [hlength]; decide)
      (fun j => by dsimp only; split <;> [rfl; split <;> rfl]) h with
      ⟨-, hs, hd⟩ | ⟨-, heffect, hgrown⟩
    · exact .inl ⟨hs, hd⟩
    refine .inr ⟨?_, hgrown⟩
    cases hok : st.ok with
    | true => exact requestRevalidation_does hcall hok
    | false =>
      split at heffect
      · cases heffect
        cases hok
      case isFalse hnew =>
        split at heffect
        case isTrue hfull =>
          cases heffect
          have hsame : s.durable = DurableEvent.apply s.config (.require resource) s.durable := by
            unfold DurableEvent.apply enlist
            dsimp only
            rw [if_neg (show resource ∉ s.durable.revalidationRequired from hnew),
              if_pos (show s.config.maxFootprintEntries ≤ s.durable.revalidationRequired.length from
                hfull)]
          have hpossible : DurableEvent.Possible s.config (.require resource) s.durable := hvalid
          exact .event rfl rfl hpossible (says_require rfl htake) rfl hsame
        case isFalse =>
          cases heffect
          cases hok

/-- Nothing fails: the rewritten file is read back. -/
theorem rewrite_faultless {j : Journal} {records : List JournalRecord} {image : Bytes}
    (hfaults : d.faults = []) (himage : j.rewriteImage records = .ok image) :
    j.rewrite records d =
      Journal.replayFile { limits := j.limits, isOpen := true } (d.next.replace image).next := by
  have hfault : d.fault = none := fault_of_faults hfaults
  have hnext : (d.next.replace image).fault = none := fault_of_faults (congrArg List.tail hfaults)
  unfold Journal.rewrite
  rw [himage]
  dsimp only
  rw [Disk.writeFileAtomic, hfault]
  dsimp only
  rw [Status.ok_success, Bool.not_true, if_neg (by decide), Journal.openHandle, hnext]
  dsimp only
  rw [Status.ok_success, Bool.not_true, if_neg (by decide)]

/-- What a compaction writes, if the limits let it be written, fits into the memory for it. -/
def CompactFits (s : DurableStore) : Prop :=
  ∀ records, s.compacted = .ok records → ¬Journal.Refuses s.journal.limits records →
    payloadBytes records ≤ s.journal.limits.maxRetainedBytes

theorem payloadBytes_drafts {records rs : List JournalRecord}
    (h : rs.map JournalRecord.draft = records.map JournalRecord.draft) :
    payloadBytes rs = payloadBytes records := by
  rw [← Journal.draftBytes_map, ← Journal.draftBytes_map, h]

theorem compact_settles (hfits : s.CompactFits) (hlive : s.journal.Live d) (hfaults : d.faults = [])
    (hsane : s.durable.Sane s.config) (hmax : 0 < s.config.maxLineages)
    (hbytes : 117 ≤ s.config.journalLimits.maxRecordBytes)
    (h : s.compact d = (st, s', d')) :
    (s' = s ∧ d' = d) ∨ st.ok = true ∧ s'.journal.Live d' ∧ d'.faults = [] := by
  unfold compact at h
  cases hrecords : s.compacted with
  | error refused =>
    rw [hrecords] at h
    cases h
    exact .inl ⟨rfl, rfl⟩
  | ok records =>
    obtain ⟨-, hkinds⟩ := compacted_replays hrecords hsane hmax hbytes
    rw [hrecords] at h
    dsimp only at h
    cases himage : s.journal.rewriteImage records with
    | error refused =>
      rw [Journal.rewrite_refused himage] at h
      dsimp only at h
      rw [Journal.rewriteImage_error himage, Bool.not_false, if_pos rfl] at h
      cases h
      exact .inl ⟨rfl, rfl⟩
    | ok image =>
      have hroom : ¬Journal.Refuses s.journal.limits records := fun hrefuses => by
        obtain ⟨refused, herror⟩ := (Journal.rewriteImage_error_iff hlive.valid).mpr hrefuses
        rw [himage] at herror
        cases herror
      obtain ⟨rs, hstored, hdrafts, hadmits⟩ := Journal.rewriteImage_stored
        (fun r hr => (hkinds r hr).1) (fun r hr => (hkinds r hr).2) himage
      have hretained : payloadBytes rs ≤ s.journal.limits.maxRetainedBytes :=
        (payloadBytes_drafts hdrafts).trans_le (hfits records hrecords hroom)
      have hfaults' : (d.next.replace image).next.next.next.faults = [] := by
        show d.faults.tail.tail.tail.tail = []
        rw [hfaults]
        rfl
      obtain ⟨j, hreplay, rfl, hlimits, hopen, hholds⟩ := Journal.replayFile_all
        (j := { limits := s.journal.limits, isOpen := true }) (d := (d.next.replace image).next)
        hstored hadmits hretained (fault_of_faults (congrArg (fun l => l.tail.tail) hfaults))
        (fault_of_faults (congrArg (fun l => l.tail.tail.tail) hfaults))
      rw [rewrite_faultless hfaults himage, hreplay] at h
      cases h
      refine .inr ⟨rfl, ⟨hopen, hlimits.symm ▸ hlive.valid, hholds, ?_, ?_⟩, hfaults'⟩
      · exact hlimits.symm ▸ hadmits
      · exact hlimits.symm ▸ hretained

/-! ## Runs -/

/-- A store whose records replay to what it keeps, with a live journal, on a disk that does not
fail. -/
structure Kept (config : DurableConfig) (s : DurableStore) (d : Disk) : Prop where
  refined : Refined config s
  limits : s.journal.limits = config.journalLimits
  live : s.journal.Live d
  faults : d.faults = []

/-- What the replay of the record of a call relies on, if the journal lets it through. -/
def Call.Safe (s : DurableStore) : Call → Prop
  | putFence f _ =>
    f.validate.ok = true → s.LetsThrough .fencePut (serializeFence f) → RoomFor s.state.fences f
  | clearRevalidation resource _ =>
    s.LetsThrough .revalidation
      (ByteWriter.take 16 (encodeRevalidation kRevalidationClear resource)) → resource.valid = true
  | recordPressureFootprint entries _ =>
    entries.length ≤ s.config.maxFootprintEntries →
      s.LetsThrough .revalidation
        (ByteWriter.take s.config.journalLimits.maxRecordBytes (encodeFootprint entries)) →
      (∀ e ∈ entries, e.1.valid = true ∧ e.2.valid = true) ∧ 5 + entries.length * 16 < 2 ^ 32
  | compact => s.CompactFits
  | _ => True

namespace Kept

theorem opened (hfaults : d.faults = []) (h : openAt config d = (.ok s, d')) :
    Kept config s d' := by
  obtain ⟨hrefined, hlimits, hlive, j, hopen, -⟩ := openAt_ok h
  have hend := @Journal.faults_openAt d config.journalLimits true hfaults
  rw [hopen] at hend
  exact ⟨hrefined, hlimits, hlive, hend⟩

/-- A kept store is opened again as it is. -/
theorem reopens (h : Kept config s d) :
    ∃ s' d', openAt config d = (.ok s', d') ∧ s'.durable = s.durable ∧ Kept config s' d' := by
  obtain ⟨j, d', hopen, hrecords, -⟩ := h.live.reopen h.faults true
  rw [h.limits] at hopen
  obtain ⟨s', hstore, -, -, hdurable⟩ :=
    openAt_of_journal h.refined.bytes hopen (hrecords.symm ▸ h.refined.replays)
  exact ⟨s', d', hstore, hdurable, .opened h.faults hstore⟩

theorem does (h : Kept config s d) (hdoes : Does s s') (hgrown : s.Grown s' d') :
    Kept config s' d' :=
  ⟨h.refined.does hdoes, hdoes.limits.trans h.limits, hgrown.live, hgrown.faults⟩

theorem settled (h : Kept config s d) (hsettles : Settles s d st s' d')
    (hdoes : st.ok = true → Does s s') : Kept config s' d' := by
  rcases hsettles with ⟨rfl, rfl⟩ | ⟨hok, hgrown⟩
  · exact h
  · exact h.does (hdoes hok) hgrown

theorem sane (h : Kept config s d) : s.durable.Sane s.config :=
  h.refined.same.symm ▸ h.refined.replays.sane

theorem bytes (h : Kept config s d) : 117 ≤ s.config.journalLimits.maxRecordBytes := by
  have hmin := h.refined.bytes
  rw [h.refined.same]
  unfold kMaxJournalPayload at hmin
  omega

theorem putFence (h : Kept config s d) {f : Fence} (hsafe : (Call.putFence f now).Safe s)
    (hrun : s.putFence f now d = (st, s', d')) : Kept config s' d' := by
  rcases putFence_settles h.live h.faults hrun with
    ⟨-, rfl, rfl⟩ | ⟨bytes, hvalid, -, hthrough, hgrown, ⟨hok, -⟩ | ⟨-, hfull, -⟩⟩
  · exact h
  · exact h.does (putFence_does hrun hok) hgrown
  · exact absurd (hsafe hvalid hthrough) hfull

theorem clearRevalidation (h : Kept config s d) {resource : ResourceId}
    (hsafe : (Call.clearRevalidation resource now).Safe s)
    (hrun : s.clearRevalidation resource now d = (st, s', d')) : Kept config s' d' := by
  by_cases hthrough : s.LetsThrough .revalidation
      (ByteWriter.take 16 (encodeRevalidation kRevalidationClear resource))
  · exact h.settled (clearRevalidation_settles h.live h.faults hrun) fun hok =>
      clearRevalidation_does hrun hok (hsafe hthrough)
  · rcases withEpoch_cases hrun with ⟨rfl, rfl⟩ | ⟨hknown, hwrite⟩
    · exact h
    · obtain ⟨rfl, rfl⟩ := write_idle h.faults (fun bytes hbytes =>
        Bool.eq_false_iff.mpr fun hcheck => hthrough ⟨hknown, bytes, hbytes, hcheck⟩) hwrite
      exact h

theorem recordPressureFootprint (h : Kept config s d) {entries : List (SourceId × ResourceId)}
    (hsafe : (Call.recordPressureFootprint entries now).Safe s)
    (hrun : s.recordPressureFootprint entries now d = (st, s', d')) : Kept config s' d' := by
  by_cases hthrough : entries.length ≤ s.config.maxFootprintEntries ∧ s.LetsThrough .revalidation
      (ByteWriter.take s.config.journalLimits.maxRecordBytes (encodeFootprint entries))
  · obtain ⟨hvalid, hshort⟩ := hsafe hthrough.1 hthrough.2
    have hcount : entries.length < UInt32.size := by
      unfold UInt32.size
      omega
    exact h.settled (recordPressureFootprint_settles h.live h.faults hshort hrun) fun hok =>
      recordPressureFootprint_does hrun hok hvalid hcount
  · rcases withEpoch_cases hrun with ⟨rfl, rfl⟩ | ⟨hknown, hwrite⟩
    · exact h
    · split at hwrite
      · cases hwrite
        exact h
      case isFalse hmax =>
        split at hwrite
        · cases hwrite
          exact h
        · obtain ⟨rfl, rfl⟩ := write_idle h.faults (fun bytes hbytes =>
            Bool.eq_false_iff.mpr fun hcheck =>
              hthrough ⟨not_lt.mp hmax, hknown, bytes, hbytes, hcheck⟩) hwrite
          exact h

theorem compact (h : Kept config s d) (hmax : 0 < config.maxLineages) (hsafe : s.CompactFits)
    (hrun : s.compact d = (st, s', d')) : Kept config s' d' := by
  have hmax : 0 < s.config.maxLineages := h.refined.same.symm ▸ hmax
  rcases compact_settles hsafe h.live h.faults h.sane hmax h.bytes hrun with
    ⟨rfl, rfl⟩ | ⟨hok, hlive, hfaults⟩
  · exact h
  · obtain ⟨image, -, hconfig, hdurable, hkept, -, hlimits⟩ := compact_ok hrun hok
      (h.refined.same.symm ▸ h.refined.replays) h.live.valid hmax h.bytes
    refine ⟨⟨hconfig.trans h.refined.same, h.refined.bytes, hlive.valid, ?_⟩,
      hlimits.trans h.limits, hlive, hfaults⟩
    rw [hdurable, ← h.refined.same]
    exact hkept

/-- A safe call keeps the store, whether it succeeds or not. -/
theorem call (h : Kept config s d) (hmax : 0 < config.maxLineages) {c : Call} (hsafe : c.Safe s)
    (hrun : c.run s d = (st, s', d')) : Kept config s' d' := by
  cases c with
  | establishEpoch now =>
    exact h.settled (establishEpoch_settles h.live h.faults hrun) (establishEpoch_does hrun)
  | recordBoot incarnation now =>
    exact h.settled (recordBoot_settles h.live h.faults hrun) (recordBoot_does hrun)
  | persistPolicy policy now =>
    exact h.settled (persistPolicy_settles h.live h.faults h.bytes hrun) fun hok =>
      persistPolicy_does hrun hok h.bytes
  | bindTopology digest generation now =>
    exact h.settled (bindTopology_settles h.live h.faults hrun) (bindTopology_does hrun)
  | putFence fence now => exact h.putFence hsafe hrun
  | removeFence id now =>
    exact h.settled (removeFence_settles h.live h.faults hrun) fun hok =>
      removeFence_does hrun hok h.sane
  | recordLineage lineage now =>
    exact h.settled (recordLineage_settles h.live h.faults hrun) (recordLineage_does hrun)
  | requestRevalidation resource now =>
    rcases requestRevalidation_settles h.live h.faults hrun with ⟨rfl, rfl⟩ | ⟨hdoes, hgrown⟩
    · exact h
    · exact h.does hdoes hgrown
  | clearRevalidation resource now => exact h.clearRevalidation hsafe hrun
  | recordPressureFootprint entries now => exact h.recordPressureFootprint hsafe hrun
  | beginAttempt id now =>
    exact h.settled (beginAttempt_settles h.live h.faults hrun) (beginAttempt_does hrun)
  | commitAttempt id now =>
    exact h.settled (commitAttempt_settles h.live h.faults hrun) fun hok =>
      commitAttempt_does hrun hok h.sane
  | abortAttempt id now =>
    exact h.settled (abortAttempt_settles h.live h.faults hrun) fun hok =>
      abortAttempt_does hrun hok h.sane
  | compact => exact h.compact hmax hsafe hrun

end Kept

/-- A store and its disk, behind a run of calls. -/
def runCalls (calls : List Call) (w : DurableStore × Disk) : DurableStore × Disk :=
  calls.foldl (fun w c => (c.run w.1 w.2).2) w

/-- Every call of the run is safe where it is made. -/
def SafeCalls (w : DurableStore × Disk) : List Call → Prop
  | [] => True
  | c :: calls => c.Safe w.1 ∧ SafeCalls (c.run w.1 w.2).2 calls

theorem Kept.run (hmax : 0 < config.maxLineages) {calls : List Call} {w : DurableStore × Disk}
    (h : Kept config w.1 w.2) (hsafe : SafeCalls w calls) :
    Kept config (runCalls calls w).1 (runCalls calls w).2 := by
  induction calls generalizing w with
  | nil => exact h
  | cons c calls ih => exact ih (h.call hmax hsafe.1 rfl) hsafe.2

/-- After every run of safe calls, whatever they return, the records of the journal replay to what
the store keeps, and the directory is opened again with just that. -/
theorem safe_calls_open (config : DurableConfig) (hmax : 0 < config.maxLineages) (d d₀ : Disk)
    (s : DurableStore) (calls : List Call) (hfaults : d.faults = [])
    (hopen : openAt config d = (.ok s, d₀)) (hsafe : SafeCalls (s, d₀) calls) :
    let (s₁, d₁) := runCalls calls (s, d₀)
    Replays config s₁.journal.records s₁.durable ∧
      ∃ s' d', openAt config d₁ = (.ok s', d') ∧ s'.durable = s₁.durable := by
  have hkept : Kept config (runCalls calls (s, d₀)).1 (runCalls calls (s, d₀)).2 :=
    Kept.run hmax (w := (s, d₀)) (.opened hfaults hopen) hsafe
  obtain ⟨s', d', hagain, hdurable, -⟩ := hkept.reopens
  exact ⟨hkept.refined.replays, s', d', hagain, hdurable⟩

/-- A resource that is asked for, and cleared. -/
def clearing (resource : ResourceId) : List Call :=
  [.establishEpoch 0, .requestRevalidation ⟨7⟩ 1, .clearRevalidation resource 2]

theorem clearing_opens : ∃ s d₀, openAt {} {} = (.ok s, d₀) ∧
    ∃ s' d', openAt {} (runCalls (clearing ⟨7⟩) (s, d₀)).2 = (.ok s', d') := by
  have hsome : (openAt {} {}).1.toOption.isSome = true := by decide +kernel
  rcases hopen : openAt {} {} with ⟨r, d₀⟩
  rw [hopen] at hsome
  cases r with
  | error st => cases hsome
  | ok s =>
    have hsafe : SafeCalls (s, d₀) (clearing ⟨7⟩) :=
      ⟨trivial, trivial, fun _ => by decide, trivial⟩
    obtain ⟨-, s', d', hagain, -⟩ := safe_calls_open {} (by decide) {} d₀ s _ rfl hopen hsafe
    exact ⟨s, d₀, rfl, s', d', hagain⟩

/-- The sentinel is cleared: the record is written, and refused by every replay. -/
theorem sentinel_not_opened :
    ¬∀ (config : DurableConfig) (d d₀ : Disk) (s : DurableStore) (calls : List Call),
      d.faults = [] → openAt config d = (.ok s, d₀) →
      ∃ s' d', openAt config (runCalls calls (s, d₀)).2 = (.ok s', d') := by
  intro hall
  have hsome : (openAt {} {}).1.toOption.map (fun s =>
      (openAt {} (runCalls (clearing .invalid) (s, (openAt {} {}).2)).2).1.toOption.isSome) =
      some false := by
    decide +kernel
  rcases hopen : openAt {} {} with ⟨r, d₀⟩
  rw [hopen] at hsome
  cases r with
  | error st => cases hsome
  | ok s =>
    obtain ⟨s', d', hagain⟩ := hall {} {} d₀ s (clearing .invalid) rfl hopen
    have hnone : (openAt {} (runCalls (clearing .invalid) (s, d₀)).2).1.toOption.isSome = false :=
      Option.some.inj hsome
    rw [hagain] at hnone
    cases hnone

end DurableStore

end Backpressure
