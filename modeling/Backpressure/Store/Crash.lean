import Backpressure.Lib.WriteAhead
import Backpressure.Store.TornTail

/-!
# Crashes

A store is called, dies in the middle of a call and is opened again, any number of times. Every
record but that of a lineage is synced before its call returns. An open brings back a state that the
store went through, no older than the last one that was synced as a whole.
-/

namespace Backpressure

open Lib (WriteAhead)

namespace Disk

variable {d : Disk}

/-- The disk as it was some changes of the file ago. -/
def back : Nat → Disk → Disk
  | 0, d => d
  | k + 1, d =>
    match d.past with
    | [] => d
    | (file, synced) :: past => back k { d with file, synced, past }

theorem faults_back {k : Nat} : (d.back k).faults = d.faults := by
  induction k generalizing d with
  | zero => rfl
  | succ k ih =>
    rw [back]
    split
    · rfl
    · exact ih

/-- The file that is found was cut behind everything that was synced. -/
def Cut (d found : Disk) : Prop := ∃ m, d.synced ≤ m ∧ found.bytes = d.bytes.take m

theorem crash_cut (n : Nat) : d.Cut (d.crash n) := by
  refine ⟨max n d.synced, le_max_right _ _, ?_⟩
  unfold crash bytes
  dsimp only [become]
  cases d.file with
  | none => exact List.take_nil.symm
  | some bytes => rfl

/-- A crash loses nothing of what was synced as a whole. -/
theorem file_crash (h : d.bytes.length ≤ d.synced) (n : Nat) : (d.crash n).file = d.file := by
  unfold crash
  dsimp only [become]
  unfold bytes at h
  cases hfile : d.file with
  | none => rfl
  | some bytes =>
    rw [hfile, Option.getD_some] at h
    rw [Option.map_some, List.take_of_length_le (h.trans (le_max_right _ _))]

theorem next_of_faults (h : d.faults = []) : d.next = d := by
  obtain ⟨file, synced, faults, past⟩ := d
  cases h
  rfl

/-- A damaged end of the file was cut off, or nothing was done. -/
def Repaired (d d' : Disk) : Prop :=
  d' = d ∨ ∃ m, d' = d.become (some (d.bytes.take m)) (min d.synced m)

end Disk

/-! ## What an open does to the disk -/

namespace Journal

variable {d d₁ : Disk} {limits : JournalLimits} {createIfMissing : Bool} {j : Journal}

theorem seekEnd_faultless (hfaults : d.faults = []) (offset : Nat) :
    j.seekEnd offset d = (.success, { j with fileBytes := offset }, d) := by
  unfold seekEnd
  rw [DurableStore.fault_of_faults hfaults, Disk.next_of_faults hfaults]

theorem openHandle_faultless (hfaults : d.faults = []) :
    j.openHandle d = (.success, { j with isOpen := true }, d) := by
  unfold openHandle
  rw [DurableStore.fault_of_faults hfaults, Disk.next_of_faults hfaults]

theorem replayFile_repaired (hfaults : d.faults = []) : d.Repaired (j.replayFile d).2.2 := by
  have hfault : d.fault = none := DurableStore.fault_of_faults hfaults
  unfold replayFile
  rw [hfault, Disk.next_of_faults hfaults]
  dsimp only
  split
  · exact .inl rfl
  split
  · exact .inl rfl
  split
  · rw [hfault, Disk.next_of_faults hfaults]
    dsimp only
    rw [seekEnd_faultless (d := d.become _ _) hfaults]
    exact .inr ⟨_, rfl⟩
  · rw [seekEnd_faultless hfaults]
    exact .inl rfl

/-- All that an open does to a file that is there is to cut off a damaged end. -/
theorem openAt_repaired (hfaults : d.faults = []) (hfile : d.file.isSome = true) :
    d.Repaired (openAt limits createIfMissing d).2 := by
  have hnone : d.file.isNone = false := by simpa using hfile
  unfold openAt
  rw [hnone, if_neg Bool.false_ne_true, openHandle_faultless hfaults]
  dsimp only
  have hreplay := replayFile_repaired (j := { limits, isOpen := true }) hfaults
  split
  · exact .inl rfl
  split
  · exact .inl rfl
  split
  · exact .inl rfl
  split
  · exact hreplay
  · exact hreplay

theorem replayFile_file (hfaults : d.faults = []) (hfaults₁ : d₁.faults = [])
    (hfile : d₁.file = d.file) :
    (j.replayFile d₁).1 = (j.replayFile d).1 ∧ (j.replayFile d₁).2.1 = (j.replayFile d).2.1 := by
  have hbytes : d₁.bytes = d.bytes := congrArg (Option.getD · []) hfile
  have hfault : d.fault = none := DurableStore.fault_of_faults hfaults
  have hfault₁ : d₁.fault = none := DurableStore.fault_of_faults hfaults₁
  unfold replayFile
  rw [hfault, hfault₁, Disk.next_of_faults hfaults, Disk.next_of_faults hfaults₁]
  dsimp only
  rw [hfault, hfault₁, hbytes]
  split
  · exact ⟨rfl, rfl⟩
  split
  · exact ⟨rfl, rfl⟩
  split
  · rw [Disk.next_of_faults hfaults, Disk.next_of_faults hfaults₁]
    dsimp only
    rw [seekEnd_faultless (d := d₁.become _ _) hfaults₁,
      seekEnd_faultless (d := d.become _ _) hfaults]
    exact ⟨rfl, rfl⟩
  · rw [seekEnd_faultless hfaults₁, seekEnd_faultless hfaults]
    exact ⟨rfl, rfl⟩

/-- An open reads nothing but the file. -/
theorem openAt_file (hfaults : d.faults = []) (hfaults₁ : d₁.faults = [])
    (hfile : d₁.file = d.file) (hsome : d.file.isSome = true) :
    (openAt limits createIfMissing d₁).1 = (openAt limits createIfMissing d).1 := by
  have hnone : d.file.isNone = false := by simpa using hsome
  unfold openAt
  rw [hfile, hnone, if_neg Bool.false_ne_true, if_neg Bool.false_ne_true,
    openHandle_faultless hfaults, openHandle_faultless hfaults₁]
  dsimp only
  obtain ⟨hst, hj⟩ := replayFile_file (j := { limits, isOpen := true }) hfaults hfaults₁ hfile
  split
  · rfl
  split
  · rfl
  split
  · rfl
  rw [hst, hj]
  split
  · rfl
  · rfl

end Journal

namespace DurableStore

variable {config : DurableConfig} {s s' : DurableStore} {d d' : Disk} {st : Status} {c : Call}

/-! ## What a call does to the disk -/

/-- The call syncs what it writes. -/
def Call.syncs : Call → Bool
  | recordLineage _ _ => false
  | _ => true

/-- A call that is refused before it writes, or the write of one record. -/
def Call.Writes (c : Call) (s : DurableStore) (d : Disk) (after : Status × DurableStore × Disk) :
    Prop :=
  (∃ st, after = (st, s, d)) ∨ ∃ type now epoch payload effect,
    after = s.write type now epoch payload c.syncs effect d ∧
      ∀ s₁, (effect s₁).2.journal = s₁.journal

theorem Call.Writes.guarded {p : Prop} [Decidable p] {st : Status}
    {next : Status × DurableStore × Disk} (h : c.Writes s d next) :
    c.Writes s d (if p then (st, s, d) else next) := by
  split
  · exact .inl ⟨st, rfl⟩
  · exact h

theorem Call.Writes.withEpoch {next : Status × DurableStore × Disk} (h : c.Writes s d next) :
    c.Writes s d (s.withEpoch d next) := h.guarded

theorem Call.Writes.write {type : RecordType} {now : Tick} {epoch : Epoch} {payload : Result Bytes}
    {sync : Bool} {effect : DurableStore → Status × DurableStore} (hsync : sync = c.syncs)
    (heffect : ∀ s₁, (effect s₁).2.journal = s₁.journal) :
    c.Writes s d (s.write type now epoch payload sync effect d) :=
  .inr ⟨type, now, epoch, payload, effect, by rw [hsync], heffect⟩

theorem Call.writes (hc : c ≠ .compact) : c.Writes s d (c.run s d) := by
  cases c with
  | establishEpoch now =>
    show Call.Writes _ s d (s.establishEpoch now d)
    unfold DurableStore.establishEpoch
    split
    · exact .inl ⟨_, rfl⟩
    · exact .write rfl fun _ => rfl
  | recordBoot incarnation now => exact (Call.Writes.write rfl fun _ => rfl).withEpoch.guarded
  | persistPolicy policy now =>
    refine (Call.Writes.withEpoch ?_).guarded
    split
    · exact Call.Writes.guarded (p := s.state.policy.digest = policy.digest) (.inl ⟨_, rfl⟩)
    · exact .write rfl fun _ => rfl
  | bindTopology digest generation now =>
    exact (Call.Writes.write rfl fun _ => rfl).withEpoch.guarded
  | putFence fence now =>
    refine (Call.Writes.withEpoch ?_).guarded
    split
    · exact .inl ⟨_, rfl⟩
    · refine (Call.Writes.write rfl fun s₁ => ?_).guarded
      split <;> rfl
  | removeFence id now => exact (Call.Writes.write rfl fun _ => rfl).guarded.withEpoch
  | recordLineage lineage now => exact (Call.Writes.write rfl fun _ => rfl).withEpoch.guarded
  | requestRevalidation resource now =>
    refine (Call.Writes.write rfl fun s₁ => ?_).withEpoch.guarded
    dsimp only
    split
    · rfl
    · split <;> rfl
  | clearRevalidation resource now => exact (Call.Writes.write rfl fun _ => rfl).withEpoch
  | recordPressureFootprint entries now =>
    exact (Call.Writes.write rfl fun _ => rfl).guarded.guarded.withEpoch
  | beginAttempt id now => exact (Call.Writes.write rfl fun _ => rfl).guarded.withEpoch.guarded
  | commitAttempt id now => exact (Call.Writes.write rfl fun _ => rfl).guarded
  | abortAttempt id now => exact (Call.Writes.write rfl fun _ => rfl).guarded
  | compact => exact absurd rfl hc

/-- What is done to a store: one of the calls that change it, or `DurableStore::sync`. -/
inductive Op
  | call (c : Call)
  | sync

namespace Op

def run : Op → DurableStore → Disk → DurableStore × Disk
  | call c, s, d => (c.run s d).2
  | sync, s, d => (s, (s.journal.sync d).2)

def Safe (s : DurableStore) : Op → Prop
  | call c => c.Safe s
  | sync => True

def syncs : Op → Bool
  | call c => c.syncs
  | sync => true

/-- What has been done when nothing fails. -/
inductive Changed (o : Op) (s : DurableStore) (d : Disk) (s' : DurableStore) (d' : Disk) : Prop
  | idle : s' = s → d' = d → Changed o s d s' d'
  | logged (r : JournalRecord) : s'.journal = s.journal.push r → d' = d.logged o.syncs r.encode →
      Changed o s d s' d'
  | replaced (image : Bytes) : s'.durable = s.durable →
      d' = (d.next.replace image).next.next.next → Changed o s d s' d'
  | synced : s' = s → d' = d.next.become d.file d.bytes.length → Changed o s d s' d'

end Op

theorem Kept.changed_call (h : Kept config s d) (hmax : 0 < config.maxLineages) (hsafe : c.Safe s)
    (hrun : c.run s d = (st, s', d')) : (Op.call c).Changed s d s' d' := by
  by_cases hc : c = .compact
  · subst hc
    have hmax : 0 < s.config.maxLineages := h.refined.same.symm ▸ hmax
    rcases compact_settles hsafe h.live h.faults h.sane hmax h.bytes hrun with
      ⟨hs, hd⟩ | ⟨hok, -, -⟩
    · exact .idle hs hd
    · obtain ⟨image, hd, -, hdurable, -⟩ := compact_ok hrun hok
        (h.refined.same.symm ▸ h.refined.replays) h.live.valid hmax h.bytes
      exact .replaced image hdurable hd
  · rcases Call.writes hc (s := s) (d := d) with
      ⟨st₁, hidle⟩ | ⟨type, now, epoch, payload, effect, hwrite, heffect⟩
    · rw [hrun] at hidle
      cases hidle
      exact .idle rfl rfl
    rw [hrun] at hwrite
    cases payload with
    | error refused =>
      cases hwrite
      exact .idle rfl rfl
    | ok bytes =>
      cases hcheck : (s.journal.checkAppend type bytes).ok with
      | false =>
        obtain ⟨rfl, rfl⟩ := write_idle h.faults (fun bytes' hbytes => by
          cases hbytes
          exact hcheck) hwrite.symm
        exact .idle rfl rfl
      | true =>
        rw [write_of_check hcheck h.faults] at hwrite
        cases hwrite
        exact .logged _ (heffect _) rfl

theorem sync_of_kept (h : Kept config s d) :
    (s.journal.sync d).2 = d.next.become d.file d.bytes.length := by
  have hfault : d.fault = none := fault_of_faults h.faults
  rw [Journal.sync, h.live.isOpen, Bool.not_true, if_neg (by decide), Disk.sync, hfault]

theorem Kept.changed {o : Op} (h : Kept config s d) (hmax : 0 < config.maxLineages)
    (hsafe : o.Safe s) (hrun : o.run s d = (s', d')) : o.Changed s d s' d' := by
  cases o with
  | call c => exact h.changed_call hmax hsafe (congrArg (Prod.mk (c.run s d).1) hrun)
  | sync =>
    have hsync := sync_of_kept h
    cases hrun
    exact .synced rfl hsync

theorem Kept.op {o : Op} (h : Kept config s d) (hmax : 0 < config.maxLineages) (hsafe : o.Safe s)
    (hrun : o.run s d = (s', d')) : Kept config s' d' := by
  cases o with
  | call c => exact h.call hmax hsafe (congrArg (Prod.mk (c.run s d).1) hrun)
  | sync =>
    have hsync := sync_of_kept h
    cases hrun
    refine ⟨h.refined, h.limits, h.live.of_bytes ?_, ?_⟩
    · rw [hsync]
      rfl
    · rw [hsync]
      exact Journal.faults_next h.faults

/-! ## What a crash leaves of a call -/

variable {k n : Nat} {bytes image : Bytes} {sync : Bool}

/-- In the middle of the write of a record. -/
theorem crash_logged (hk : k + d.past.length ≤ (d.logged sync bytes).past.length) :
    d.Cut (((d.logged sync bytes).back k).crash n) ∨
      (d.next.write bytes).Cut (((d.logged sync bytes).back k).crash n) := by
  cases sync with
  | false =>
    have hlength : (d.logged false bytes).past.length = d.past.length + 1 := rfl
    obtain rfl | rfl : k = 0 ∨ k = 1 := by omega
    · exact .inr (Disk.crash_cut n)
    · exact .inl (Disk.crash_cut n)
  | true =>
    have hlength : (d.logged true bytes).past.length = d.past.length + 2 := rfl
    obtain rfl | rfl | rfl : k = 0 ∨ k = 1 ∨ k = 2 := by omega
    · obtain ⟨m, hm, hcut⟩ := Disk.crash_cut (d := d.logged true bytes) n
      have hsynced : (d.logged true bytes).synced = (d.bytes ++ bytes).length := rfl
      have hbytes : (d.logged true bytes).bytes = d.bytes ++ bytes := rfl
      refine .inr ⟨max m d.synced, le_max_right _ _, hcut.trans ?_⟩
      rw [hbytes, Disk.bytes_write, Disk.bytes_next, List.take_of_length_le (by omega),
        List.take_of_length_le (by omega)]
    · exact .inr (Disk.crash_cut n)
    · exact .inl (Disk.crash_cut n)

/-- In the middle of the replacement of the file. -/
theorem crash_replaced {d₁ : Disk} (hd : d₁ = (d.next.replace image).next.next.next)
    (hk : k + d.past.length ≤ d₁.past.length) :
    d.Cut ((d₁.back k).crash n) ∨ ((d₁.back k).crash n).bytes = d₁.bytes := by
  subst hd
  have hlength : (d.next.replace image).next.next.next.past.length = d.past.length + 1 := rfl
  obtain rfl | rfl : k = 0 ∨ k = 1 := by omega
  · obtain ⟨m, hm, hcut⟩ := Disk.crash_cut (d := (d.next.replace image).next.next.next) n
    refine .inr (hcut.trans (List.take_of_length_le hm))
  · exact .inl (Disk.crash_cut n)

/-- In the middle of a sync. -/
theorem crash_synced {d₁ : Disk} (hd : d₁ = d.next.become d.file d.bytes.length)
    (hk : k + d.past.length ≤ d₁.past.length) : d.Cut ((d₁.back k).crash n) := by
  subst hd
  have hlength : (d.next.become d.file d.bytes.length).past.length = d.past.length + 1 := rfl
  obtain rfl | rfl : k = 0 ∨ k = 1 := by omega
  · obtain ⟨m, hm, hcut⟩ := Disk.crash_cut (d := d.next.become d.file d.bytes.length) n
    have hsynced : d.bytes.length ≤ m := hm
    refine ⟨max m d.synced, le_max_right _ _, hcut.trans ?_⟩
    show d.bytes.take m = d.bytes.take (max m d.synced)
    rw [List.take_of_length_le hsynced, List.take_of_length_le (hsynced.trans (le_max_left _ _))]
  · exact Disk.crash_cut n

/-! ## The log of a store -/

/-- What the store went through is logged ahead, and what is safe of the log is synced. -/
structure Ahead (config : DurableConfig) (s : DurableStore) (d : Disk) (states : List Durable)
    (settled : Nat) : Prop where
  kept : Kept config s d
  log : ∃ safe, imageBytes (s.journal.records.take safe) ≤ max d.synced kHeaderBytes ∧
    WriteAhead (Replays config) states settled s.journal.records safe

/-- The directory is opened again, with a state that is no older than the last one that was
settled. -/
def Reopens (config : DurableConfig) (d : Disk) (states : List Durable) (settled : Nat) : Prop :=
  ∃ s d', openAt config d = (.ok s, d') ∧ ∃ i, settled ≤ i ∧ states[i]? = some s.durable

variable {states : List Durable} {settled : Nat} {found : Disk}

theorem Ahead.reopens (h : Ahead config s d states settled) (hcut : d.Cut found)
    (hfaults : found.faults = []) (hheader : kHeaderBytes ≤ found.bytes.length) :
    Reopens config found states settled := by
  obtain ⟨m, hm, hbytes⟩ := hcut
  have hlong : kHeaderBytes ≤ m := by
    rw [hbytes, List.length_take] at hheader
    omega
  obtain ⟨j, d', hopen, hlongest, -⟩ := h.kept.live.open_cut hlong hbytes hfaults true
  obtain ⟨safe, hsafe, hlog⟩ := h.log
  obtain ⟨i, v, hi, hv, hreads⟩ := hlog.read hlongest.front
    (hlongest.longest _ (List.take_prefix _ _) (by omega))
  rw [h.kept.limits] at hopen
  obtain ⟨s', hstore, -, -, hdurable⟩ := openAt_of_journal h.kept.refined.bytes hopen hreads
  exact ⟨s', d', hstore, i, hi, hdurable ▸ hv⟩

theorem Reopens.mono (h : Reopens config d states settled) {v : Durable} :
    Reopens config d (states ++ [v]) settled := by
  obtain ⟨s, d', hopen, i, hi, hv⟩ := h
  exact ⟨s, d', hopen, i, hi, WriteAhead.getElem?_front hv⟩

/-- A store whose whole log is synced. -/
theorem Kept.ahead (h : Kept config s d)
    (hsynced : imageBytes s.journal.records ≤ max d.synced kHeaderBytes) :
    Ahead config s d (states ++ [s.durable]) states.length := by
  refine ⟨h, s.journal.records.length, ?_, .settled h.refined.replays⟩
  rwa [List.take_length]

theorem Ahead.idle (h : Ahead config s d states settled) {v : Durable} :
    Ahead config s d (states ++ [v]) settled := by
  obtain ⟨safe, hsafe, hlog⟩ := h.log
  exact ⟨h.kept, safe, hsafe, hlog.idle⟩

theorem Ahead.mono (h : Ahead config s d states settled) {older : Nat} (hle : older ≤ settled) :
    Ahead config s d states older := by
  obtain ⟨safe, hsafe, hlog⟩ := h.log
  exact ⟨h.kept, safe, hsafe, hlog.mono hle⟩

/-- One more record behind the log. -/
theorem Ahead.logged {r : JournalRecord} (h : Ahead config s d states settled)
    (hkept : Kept config s' d') (hjournal : s'.journal = s.journal.push r)
    (hsynced : min d.synced d.bytes.length ≤ d'.synced) :
    Ahead config s' d' (states ++ [s'.durable]) settled := by
  obtain ⟨safe, hsafe, hlog⟩ := h.log
  have hrecords : s'.journal.records = s.journal.records ++ [r] := by
    rw [hjournal]
    rfl
  have hreads := hkept.refined.replays
  rw [hrecords] at hreads
  have hlength := h.kept.live.holds.stored.length
  have hfront := imageBytes_mono (List.take_prefix safe s.journal.records)
  refine ⟨hkept, safe, ?_, ?_⟩
  · rw [hrecords, List.take_append_of_le_length hlog.safe_le]
    omega
  · rw [hrecords]
    exact hlog.append hreads

/-- What an open leaves synced. -/
theorem openAt_synced {limits : JournalLimits} {createIfMissing : Bool} {j : Journal}
    (h : Journal.openAt limits createIfMissing d = (.ok j, d')) :
    d.file = none ∧ j.records = [] ∨
      min d.synced (imageBytes j.records) ≤ d'.synced ∧ imageBytes j.records ≤ d.bytes.length := by
  rcases Journal.openAt_cases h with
    ⟨⟨st, herror⟩, -⟩ | ⟨j₀, d₀, st, j₁, -, -, hd, -, -, hreplay, hend⟩
  · cases herror
  rcases hend with ⟨hst, hj⟩ | ⟨-, st', herror⟩
  case inr => cases herror
  cases hj
  rcases Journal.replayFile_cases hreplay with
    ⟨hno, -⟩ | ⟨rs, tail, hstored, -, -, -, -, -, -, -, hsynced, hok⟩
  · rw [hno] at hst
    cases hst
  obtain ⟨hrecords, -⟩ := hok hst
  rw [hrecords]
  have hlength := hstored.length
  rcases hd with ⟨-, rfl⟩ | ⟨hnone, hfile, -⟩
  · rw [Disk.bytes_next] at hlength
    exact .inr ⟨hsynced, by omega⟩
  · rw [Disk.bytes, hfile, Option.getD_some, length_fileHeader, imageBytes, kRecordHeaderBytes]
      at hlength
    exact .inl ⟨hnone, List.length_eq_zero_iff.mp (by omega)⟩

/-- A store that is opened on a disk that was synced. -/
theorem ahead_openAt (hfaults : d.faults = []) (hsynced : d.bytes.length ≤ d.synced)
    (hopen : openAt config d = (.ok s, d')) :
    Ahead config s d' (states ++ [s.durable]) states.length := by
  obtain ⟨-, -, -, j, hjournal, hj⟩ := openAt_ok hopen
  refine Kept.ahead (.opened hfaults hopen) ?_
  rw [hj]
  rcases openAt_synced hjournal with ⟨-, hnone⟩ | ⟨hleft, hwithin⟩
  · rw [hnone, imageBytes_nil]
    exact le_max_right _ _
  · omega

/-- The process is gone, and the disk is not. -/
theorem Ahead.again (h : Ahead config s d states settled) (hopen : openAt config d = (.ok s', d')) :
    Ahead config s' d' (states ++ [s'.durable]) settled := by
  obtain ⟨safe, hsafe, hlog⟩ := h.log
  obtain ⟨-, -, -, j, hjournal, hj⟩ := openAt_ok hopen
  obtain ⟨j', d₂, hagain, hrecords, -⟩ := h.kept.live.reopen h.kept.faults true
  rw [h.kept.limits, hjournal] at hagain
  cases hagain
  have hfront := imageBytes_mono (List.take_prefix safe s.journal.records)
  refine ⟨.opened h.kept.faults hopen, safe, ?_, ?_⟩
  · rw [hj, hrecords]
    rcases openAt_synced hjournal with ⟨-, hnone⟩ | ⟨hsynced, -⟩
    · rw [← hrecords, hnone, List.take_nil, imageBytes_nil]
      exact le_max_right _ _
    · rw [hrecords] at hsynced
      omega
  · rw [hj, hrecords]
    exact hlog.idle

/-! ## A crash in the middle of an open -/

/-- An open reads nothing but the file. -/
theorem openAt_file (hfaults : d.faults = []) (hfaults' : d'.faults = []) (hfile : d'.file = d.file)
    (hsome : d.file.isSome = true) : (openAt config d').1 = (openAt config d).1 := by
  have hjournal := @Journal.openAt_file d d' config.journalLimits true hfaults hfaults' hfile hsome
  unfold openAt
  rcases hopen : Journal.openAt config.journalLimits true d with ⟨r, d₁⟩
  rcases hopen' : Journal.openAt config.journalLimits true d' with ⟨r', d₁'⟩
  rw [hopen, hopen'] at hjournal
  obtain rfl : r' = r := hjournal
  split
  · rfl
  · cases r' with
    | error st => rfl
    | ok j => rfl

theorem openAt_repaired (hfaults : d.faults = []) (hsome : d.file.isSome = true)
    (hopen : openAt config d = (.ok s, d')) : d.Repaired d' := by
  obtain ⟨-, -, -, j, hjournal, -⟩ := openAt_ok hopen
  have hrepaired := @Journal.openAt_repaired d config.journalLimits true hfaults hsome
  rw [hjournal] at hrepaired
  exact hrepaired

/-- The directory of a store is opened by another process, and the machine dies. -/
theorem Ahead.torn (h : Ahead config s d states settled)
    (hback : k + d.past.length ≤ (openAt config d).2.past.length) :
    d.Cut (((openAt config d).2.back k).crash n) := by
  obtain ⟨s', d', hopen, -, hkept⟩ := h.kept.reopens
  rw [hopen] at hback ⊢
  dsimp only at hback ⊢
  have hsome := Disk.isSome_of_stored h.kept.live.holds.stored
  rcases openAt_repaired h.kept.faults hsome hopen with rfl | ⟨m, hd⟩
  · obtain rfl : k = 0 := by omega
    exact Disk.crash_cut n
  have hlength : d'.past.length = d.past.length + 1 := by
    rw [hd]
    rfl
  obtain rfl | rfl : k = 0 ∨ k = 1 := by omega
  · -- nothing is damaged, so that nothing was cut off
    obtain ⟨-, -, -, j, hjournal, hj⟩ := openAt_ok hopen
    obtain ⟨j', d₂, hagain, hrecords, -⟩ := h.kept.live.reopen h.kept.faults true
    rw [h.kept.limits, hjournal] at hagain
    cases hagain
    have hwhole := hkept.live.holds.stored.length
    have hbefore := h.kept.live.holds.stored.length
    rw [hj, hrecords] at hwhole
    have hbytes : d'.bytes = d.bytes.take m := by
      rw [hd]
      rfl
    have hsynced : d'.synced = min d.synced m := by
      rw [hd]
      rfl
    rw [hbytes, List.length_take] at hwhole
    obtain ⟨m', hm', hcut⟩ := Disk.crash_cut (d := d') n
    refine ⟨max m' d.synced, le_max_right _ _, hcut.trans ?_⟩
    rw [hbytes, List.take_of_length_le (by omega : d.bytes.length ≤ m)]
    have hall : d.bytes.length ≤ m' ∨ d.synced ≤ m' := by omega
    rcases hall with hall | hle
    · rw [List.take_of_length_le hall, List.take_of_length_le (hall.trans (le_max_left _ _))]
    · rw [max_eq_left hle]
  · have hbefore : d'.back 1 = d := by
      rw [hd]
      rfl
    rw [hbefore]
    exact Disk.crash_cut n

/-- A directory that nobody has open is opened, and the machine dies. -/
theorem Reopens.torn (h : Reopens config d states settled) (hfaults : d.faults = [])
    (hheader : kHeaderBytes ≤ d.bytes.length) (hsynced : d.bytes.length ≤ d.synced)
    (hback : k + d.past.length ≤ (openAt config d).2.past.length)
    (hleft : kHeaderBytes ≤ (((openAt config d).2.back k).crash n).bytes.length) :
    Reopens config (((openAt config d).2.back k).crash n) states settled := by
  obtain ⟨s', d', hopen, i, hi, hstate⟩ := h
  rw [hopen] at hback hleft ⊢
  dsimp only at hback hleft ⊢
  have hsome : d.file.isSome = true := by
    rw [Option.isSome_iff_ne_none]
    intro hnone
    rw [Disk.bytes, hnone] at hheader
    exact absurd hheader (by decide)
  have hsame : Reopens config (d.crash n) states settled := by
    have hagain := @openAt_file config d (d.crash n) hfaults hfaults (Disk.file_crash hsynced n)
      hsome
    rw [hopen] at hagain
    exact ⟨s', (openAt config (d.crash n)).2, Prod.ext hagain rfl, i, hi, hstate⟩
  rcases openAt_repaired hfaults hsome hopen with rfl | ⟨m, hd⟩
  · obtain rfl : k = 0 := by omega
    exact hsame
  have hlength : d'.past.length = d.past.length + 1 := by
    rw [hd]
    rfl
  obtain rfl | rfl : k = 0 ∨ k = 1 := by omega
  · have hahead : Ahead config s' d' (states ++ [s'.durable]) states.length :=
      ahead_openAt hfaults hsynced hopen
    obtain ⟨s₂, d₂, hagain, i₂, hi₂, hstate₂⟩ :=
      hahead.reopens (Disk.crash_cut n) hahead.kept.faults hleft
    rcases WriteAhead.getElem?_snoc hstate₂ with ⟨hold, -⟩ | ⟨-, hsame⟩
    · exact absurd hi₂ (Nat.not_le.mpr hold)
    · exact ⟨s₂, d₂, hagain, i, hi, hsame ▸ hstate⟩
  · have hbefore : d'.back 1 = d := by
      rw [hd]
      rfl
    rw [hbefore]
    exact hsame

end DurableStore

/-! ## Runs -/

/-- A store and its disk, the states it went through, and the last one of them behind which the
whole file was synced. -/
structure StoreHistory where
  store : Option DurableStore
  disk : Disk
  states : List Durable
  settled : Nat := 0

namespace StoreHistory

open DurableStore (Ahead Kept Op Reopens)

inductive Step
  | op (o : Op)
  /-- The machine dies in the middle of an operation, some changes of the file before its end. -/
  | crash (during : Op) (back kept : Nat)
  /-- A process that still has the store is killed first. -/
  | openAt
  /-- The machine dies in the middle of an open. -/
  | crashOpen (back kept : Nat)

/-- The history with one more state. -/
def goOn (w : StoreHistory) (s : DurableStore) (d : Disk) : StoreHistory where
  store := some s
  disk := d
  states := w.states ++ [s.durable]
  settled := if d.bytes.length ≤ d.synced then w.states.length else w.settled

/-- One step, whatever comes of it. -/
def step (config : DurableConfig) (w : StoreHistory) : Step → StoreHistory
  | .op o =>
    match w.store with
    | none => w
    | some s => w.goOn (o.run s w.disk).1 (o.run s w.disk).2
  | .crash o back kept =>
    match w.store with
    | none => w
    | some s =>
      { w with
        store := none
        disk := ((o.run s w.disk).2.back back).crash kept
        states := w.states ++ [(o.run s w.disk).1.durable] }
  | .openAt =>
    match DurableStore.openAt config w.disk with
    | (.ok s, d) => w.goOn s d
    | (.error _, d) => { w with store := none, disk := d }
  | .crashOpen back kept =>
    { w with
      store := none
      disk := ((DurableStore.openAt config w.disk).2.back back).crash kept }

def run (config : DurableConfig) (w : StoreHistory) (steps : List Step) : StoreHistory :=
  steps.foldl (step config) w

/-- A crash comes behind the start of what changed the disk, and leaves the header of the file. -/
def Survives (w : StoreHistory) (after : Disk) (back kept : Nat) : Prop :=
  back + w.disk.past.length ≤ after.past.length ∧
    kHeaderBytes ≤ ((after.back back).crash kept).bytes.length

instance {after : Disk} {back kept : Nat} {w : StoreHistory} :
    Decidable (w.Survives after back kept) := inferInstanceAs (Decidable (_ ∧ _))

/-- An operation is safe, and the file survives a crash in the middle of one. -/
def Safe (config : DurableConfig) (w : StoreHistory) : Step → Prop
  | .op o => ∀ s, w.store = some s → o.Safe s
  | .crash o back kept =>
    ∀ s, w.store = some s → o.Safe s ∧ w.Survives (o.run s w.disk).2 back kept
  | .openAt => True
  | .crashOpen back kept => w.Survives (DurableStore.openAt config w.disk).2 back kept

def SafeRun (config : DurableConfig) (w : StoreHistory) : List Step → Prop
  | [] => True
  | a :: steps => w.Safe config a ∧ (w.step config a).SafeRun config steps

/-- A store that was just opened on a disk. -/
def start (s : DurableStore) (d : Disk) : StoreHistory where
  store := some s
  disk := d
  states := [s.durable]

variable {config : DurableConfig} {w : StoreHistory} {s s' : DurableStore} {d d' : Disk}
  {steps : List Step} {a : Step} {o : Op} {back kept : Nat} {P Q : Durable → Prop}

/-! ## What a run keeps -/

/-- A store is open and logged ahead, or none is and the next open succeeds. -/
def Inv (config : DurableConfig) (w : StoreHistory) : Prop :=
  (∃ s, w.store = some s ∧ Ahead config s w.disk w.states w.settled) ∨
    w.store = none ∧ w.disk.faults = [] ∧ kHeaderBytes ≤ w.disk.bytes.length ∧
      w.disk.bytes.length ≤ w.disk.synced ∧ Reopens config w.disk w.states w.settled

theorem inv_goOn (hkept : Kept config s d) (h : ¬d.bytes.length ≤ d.synced →
    Ahead config s d (w.states ++ [s.durable]) w.settled) : (w.goOn s d).Inv config := by
  refine .inl ⟨s, rfl, ?_⟩
  have hlength := hkept.live.holds.stored.length
  rw [List.length_nil] at hlength
  unfold goOn
  dsimp only
  split
  · exact hkept.ahead (by omega)
  case isFalse hno => exact h hno

theorem inv_op (hmax : 0 < config.maxLineages) (h : Ahead config s w.disk w.states w.settled)
    (hsafe : o.Safe s) (hrun : o.run s w.disk = (s', d')) : (w.goOn s' d').Inv config := by
  have hkept := h.kept.op hmax hsafe hrun
  refine inv_goOn hkept fun hno => ?_
  cases h.kept.changed hmax hsafe hrun with
  | idle hs hd =>
    subst hs hd
    exact h.idle
  | logged r hjournal hd =>
    refine h.logged hkept hjournal ?_
    rw [hd]
    cases o.syncs with
    | false => exact min_le_left _ _
    | true =>
      have hsynced : (w.disk.logged true r.encode).synced = (w.disk.bytes ++ r.encode).length := rfl
      rw [hsynced, List.length_append]
      omega
  | replaced image _ hd =>
    subst hd
    exact absurd (le_refl _) hno
  | synced _ hd =>
    subst hd
    exact absurd (le_refl _) hno

/-- A crash in the middle of an operation. -/
theorem reopens_crash (hmax : 0 < config.maxLineages) (h : Ahead config s d w.states w.settled)
    (hsafe : o.Safe s) (hrun : o.run s d = (s', d')) (hback : back + d.past.length ≤ d'.past.length)
    (hheader : kHeaderBytes ≤ ((d'.back back).crash kept).bytes.length) :
    Reopens config ((d'.back back).crash kept) (w.states ++ [s'.durable]) w.settled := by
  have hkept := h.kept.op hmax hsafe hrun
  have hfaults : ((d'.back back).crash kept).faults = [] := Disk.faults_back.trans hkept.faults
  cases h.kept.changed hmax hsafe hrun with
  | idle hs hd =>
    subst hs hd
    obtain rfl : back = 0 := by omega
    exact h.idle.reopens (Disk.crash_cut kept) hfaults hheader
  | logged r hjournal hd =>
    subst hd
    rcases DurableStore.crash_logged hback (n := kept) with hcut | hcut
    · exact h.idle.reopens hcut hfaults hheader
    · have hbytes : (d.next.write r.encode).bytes = (d.logged o.syncs r.encode).bytes := by
        cases o.syncs <;> rfl
      have hwritten : Kept config s' (d.next.write r.encode) :=
        ⟨hkept.refined, hkept.limits, hkept.live.of_bytes hbytes, Journal.faults_next h.kept.faults⟩
      exact (h.logged hwritten hjournal (min_le_left _ _)).reopens hcut hfaults hheader
  | replaced image _ hd =>
    rcases DurableStore.crash_replaced hd hback (n := kept) with hcut | hsame
    · exact h.idle.reopens hcut hfaults hheader
    · have hlength := hkept.live.holds.stored.length
      rw [List.length_nil] at hlength
      have hsynced : d'.bytes.length ≤ d'.synced := by
        subst hd
        exact le_refl _
      obtain ⟨safe, -, hlog⟩ := h.log
      have hcut : d'.Cut ((d'.back back).crash kept) :=
        ⟨d'.synced, le_refl _, hsame.trans (List.take_of_length_le hsynced).symm⟩
      exact ((hkept.ahead (by omega)).mono hlog.floor_lt.le).reopens hcut hfaults hheader
  | synced hs hd =>
    subst hs
    exact h.idle.reopens (DurableStore.crash_synced hd hback) hfaults hheader

/-- What a step comes to. -/
inductive Stepped (config : DurableConfig) (w : StoreHistory) : Step → StoreHistory → Prop
  | gone {a : Step} : w.store = none → Stepped config w a w
  | done {o : Op} {s s' : DurableStore} {d' : Disk} : w.store = some s →
      Ahead config s w.disk w.states w.settled → o.run s w.disk = (s', d') →
      Stepped config w (.op o) (w.goOn s' d')
  | crashed {o : Op} {s s' : DurableStore} {d' : Disk} {back kept : Nat} : w.store = some s →
      Ahead config s w.disk w.states w.settled → o.run s w.disk = (s', d') →
      Stepped config w (.crash o back kept)
        { w with
          store := none
          disk := (d'.back back).crash kept
          states := w.states ++ [s'.durable] }
  | again {s s' : DurableStore} {d' : Disk} : w.store = some s →
      Ahead config s w.disk w.states w.settled →
      DurableStore.openAt config w.disk = (.ok s', d') → s'.durable = s.durable →
      Stepped config w .openAt (w.goOn s' d')
  | found {s' : DurableStore} {d' : Disk} {i : Nat} : w.store = none → w.disk.faults = [] →
      kHeaderBytes ≤ w.disk.bytes.length → w.disk.bytes.length ≤ w.disk.synced →
      DurableStore.openAt config w.disk = (.ok s', d') → w.settled ≤ i →
      w.states[i]? = some s'.durable → Stepped config w .openAt (w.goOn s' d')
  | torn {back kept : Nat} : Stepped config w (.crashOpen back kept)
      { w with
        store := none
        disk := ((DurableStore.openAt config w.disk).2.back back).crash kept }

theorem Inv.stepped (h : w.Inv config) (a : Step) : Stepped config w a (w.step config a) := by
  unfold StoreHistory.step
  rcases h with ⟨s, hstore, hahead⟩ | ⟨hnone, hfaults, hheader, hsynced, hreopens⟩
  · cases a with
    | op o =>
      dsimp only
      rw [hstore]
      exact .done hstore hahead rfl
    | crash o back kept =>
      dsimp only
      rw [hstore]
      exact .crashed hstore hahead rfl
    | openAt =>
      obtain ⟨s', d', hopen, hdurable, -⟩ := hahead.kept.reopens
      dsimp only
      rw [hopen]
      exact .again hstore hahead hopen hdurable
    | crashOpen back kept => exact .torn
  · cases a with
    | op o =>
      dsimp only
      rw [hnone]
      exact .gone hnone
    | crash o back kept =>
      dsimp only
      rw [hnone]
      exact .gone hnone
    | openAt =>
      obtain ⟨s', d', hopen, i, hi, hstate⟩ := hreopens
      dsimp only
      rw [hopen]
      exact .found hnone hfaults hheader hsynced hopen hi hstate
    | crashOpen back kept => exact .torn

/-- A crash in the middle of an open. -/
theorem inv_torn (h : w.Inv config) (hsafe : w.Safe config (.crashOpen back kept)) :
    (w.step config (.crashOpen back kept)).Inv config := by
  obtain ⟨hback, hleft⟩ := hsafe
  have hfaults : (DurableStore.openAt config w.disk).2.faults = [] := by
    rcases h with ⟨s, -, hahead⟩ | ⟨-, hfaults, -, -, hreopens⟩
    · obtain ⟨s', d', hopen, -, hkept⟩ := hahead.kept.reopens
      rw [hopen]
      exact hkept.faults
    · obtain ⟨s', d', hopen, -⟩ := hreopens
      rw [hopen]
      exact (Kept.opened hfaults hopen).faults
  refine .inr ⟨rfl, Disk.faults_back.trans hfaults, hleft, le_refl _, ?_⟩
  rcases h with ⟨s, -, hahead⟩ | ⟨-, hfaults, hheader, hsynced, hreopens⟩
  · exact hahead.reopens (hahead.torn hback) (Disk.faults_back.trans hfaults) hleft
  · exact hreopens.torn hfaults hheader hsynced hback hleft

theorem Inv.step (hmax : 0 < config.maxLineages) (h : w.Inv config) (hsafe : w.Safe config a) :
    (w.step config a).Inv config := by
  have hstepped := h.stepped a
  generalize w.step config a = w' at hstepped
  cases hstepped with
  | gone => exact h
  | done hstore hahead hrun => exact inv_op hmax hahead (hsafe _ hstore) hrun
  | crashed hstore hahead hrun =>
    obtain ⟨hop, hback, hheader⟩ := hsafe _ hstore
    rw [hrun] at hback hheader
    refine .inr ⟨rfl, ?_, hheader, le_refl _, reopens_crash hmax hahead hop hrun hback hheader⟩
    exact Disk.faults_back.trans (hahead.kept.op hmax hop hrun).faults
  | again hstore hahead hopen =>
    exact inv_goOn (.opened hahead.kept.faults hopen) fun _ => hahead.again hopen
  | found hnone hfaults hheader hsynced hopen hi hstate =>
    refine inv_goOn (.opened hfaults hopen) fun _ => ?_
    exact (DurableStore.ahead_openAt hfaults hsynced hopen).mono
      (hi.trans (List.getElem?_eq_some_iff.mp hstate).1.le)
  | torn => exact inv_torn h hsafe

theorem Inv.run (hmax : 0 < config.maxLineages) (h : w.Inv config)
    (hsafe : w.SafeRun config steps) : (w.run config steps).Inv config := by
  induction steps generalizing w with
  | nil => exact h
  | cons a steps ih => exact ih (h.step hmax hsafe.1) hsafe.2

theorem inv_start (hfaults : d.faults = []) (hsynced : d.bytes.length ≤ d.synced)
    (hopen : DurableStore.openAt config d = (.ok s, d')) : (start s d').Inv config :=
  .inl ⟨s, rfl, (DurableStore.ahead_openAt hfaults hsynced hopen :
    Ahead config s d' ([] ++ [s.durable]) 0)⟩

theorem Inv.reopens (h : w.Inv config) : Reopens config w.disk w.states w.settled := by
  rcases h with ⟨s, -, hahead⟩ | ⟨-, -, -, -, hreopens⟩
  · refine hahead.reopens ⟨max w.disk.synced w.disk.bytes.length, le_max_left _ _, ?_⟩
      hahead.kept.faults (long_of_checkHeader hahead.kept.live.holds.stored.header)
    exact (List.take_of_length_le (le_max_right _ _)).symm
  · exact hreopens

/-- Whatever is done to a store, and wherever in it the machine dies, the directory is opened again
with a state that the store went through, no older than the last one that was settled. -/
theorem reopens_settled (config : DurableConfig) (hmax : 0 < config.maxLineages) (d d₀ : Disk)
    (s : DurableStore) (hfaults : d.faults = []) (hsynced : d.bytes.length ≤ d.synced)
    (hopen : DurableStore.openAt config d = (.ok s, d₀)) (steps : List Step)
    (hsafe : (start s d₀).SafeRun config steps) :
    let w := (start s d₀).run config steps
    ∃ s' d', DurableStore.openAt config w.disk = (.ok s', d') ∧
      ∃ i, w.settled ≤ i ∧ w.states[i]? = some s'.durable :=
  ((inv_start hfaults hsynced hopen).run hmax hsafe).reopens

/-- A crash in the middle of what is always safe. -/
theorem safe_crash (ho : ∀ s, o.Safe s)
    (h : (w.store.map fun s => decide (w.Survives (o.run s w.disk).2 back kept)) = some true) :
    w.Safe config (.crash o back kept) := by
  intro s hs
  rw [hs] at h
  exact ⟨ho s, of_decide_eq_true (Option.some.inj h)⟩

/-- A lineage is written behind an epoch. -/
def oneLineage : List Step :=
  [.op (.call (.establishEpoch 0)), .op (.call (.recordLineage ⟨1, 2⟩ 1))]

def tornBegin : Op := .call (.beginAttempt ⟨1⟩ 2)

/-- An attempt that the machine dies in. -/
def tornAttempt : Step := .crash tornBegin 1 170

/-- The record of the attempt is torn: two states were settled, and one was not. -/
theorem tornAttempt_reopens : ∃ s d₀, DurableStore.openAt {} {} = (.ok s, d₀) ∧
    let w := (start s d₀).run {} (oneLineage ++ [tornAttempt])
    w.states.length = 4 ∧ w.settled = 1 ∧
      ∃ s' d', DurableStore.openAt {} w.disk = (.ok s', d') ∧
        ∃ i, w.settled ≤ i ∧ w.states[i]? = some s'.durable := by
  have hsome : (DurableStore.openAt {} {}).1.toOption.map (fun s =>
      let w := (start s (DurableStore.openAt {} {}).2).run {} oneLineage
      (w.store.map fun s' =>
          decide (w.Survives (Op.run tornBegin s' w.disk).2 1 170),
        (w.step {} tornAttempt).states.length, (w.step {} tornAttempt).settled)) =
      some (some true, 4, 1) := by
    decide +kernel
  rcases hopen : DurableStore.openAt {} {} with ⟨r, d₀⟩
  rw [hopen] at hsome
  cases r with
  | error st => cases hsome
  | ok s =>
    obtain ⟨hsurvives, hlast⟩ := Prod.mk.inj (Option.some.inj hsome)
    obtain ⟨hlength, hsettled⟩ := Prod.mk.inj hlast
    have hsafe : (start s d₀).SafeRun {} (oneLineage ++ [tornAttempt]) :=
      ⟨fun _ _ => trivial, fun _ _ => trivial, safe_crash (fun _ => trivial) hsurvives, trivial⟩
    exact ⟨s, d₀, rfl, hlength, hsettled,
      reopens_settled {} (by decide) {} d₀ s rfl (le_refl _) hopen _ hsafe⟩

/-! ## What lasts -/

/-- Every state that can still be opened again has the property. -/
def Always (P : Durable → Prop) (w : StoreHistory) : Prop :=
  ∀ i v, w.settled ≤ i → w.states[i]? = some v → P v

/-- What is done in a step brings a store with the one property to the other. -/
def Brings (P Q : Durable → Prop) (w : StoreHistory) : Step → Prop
  | .op o | .crash o _ _ => ∀ s, w.store = some s → P s.durable → Q (o.run s w.disk).1.durable
  | .openAt | .crashOpen _ _ => True

theorem Always.current (h : w.Always P) (hahead : Ahead config s d w.states w.settled) :
    P s.durable := by
  obtain ⟨safe, -, hlog⟩ := hahead.log
  obtain ⟨i, v, hi, hv, hreads⟩ := hlog.read (List.prefix_refl _) (List.take_prefix _ _)
  have hhas := h i v hi hv
  rwa [hreads.unique hahead.kept.refined.replays] at hhas

theorem states_snoc {states : List Durable} {v : Durable} (hv : P v) {i : Nat} {u : Durable}
    (h : i < states.length → states[i]? = some u → P u) (hu : (states ++ [v])[i]? = some u) :
    P u := by
  rcases WriteAhead.getElem?_snoc hu with ⟨hold, hu⟩ | ⟨-, rfl⟩
  · exact h hold hu
  · exact hv

theorem Always.goOn (h : w.Always P) (hs : P s.durable) (hbound : w.settled ≤ w.states.length) :
    (w.goOn s d).Always P := by
  intro i u hi hu
  have hi : w.settled ≤ i := by
    unfold StoreHistory.goOn at hi
    dsimp only at hi
    split at hi
    · exact hbound.trans hi
    · exact hi
  exact states_snoc hs (fun _ hu => h i u hi hu) hu

/-- What is synced as a whole lasts. -/
theorem always_settled (hsynced : d.bytes.length ≤ d.synced) (hs : P s.durable) :
    (w.goOn s d).Always P := by
  intro i u hi hu
  unfold StoreHistory.goOn at hi
  dsimp only at hi
  rw [if_pos hsynced] at hi
  exact states_snoc hs (fun hold => absurd hi (Nat.not_le.mpr hold)) hu

/-- A property that every state to come back has, and what is done in a step makes of it. -/
theorem Always.step (h : w.Always P) (hweaker : ∀ v, P v → Q v) (hinv : w.Inv config)
    (hbrings : w.Brings P Q a) : (w.step config a).Always Q := by
  have hstepped := hinv.stepped a
  have hall : w.Always Q := fun i v hi hv => hweaker v (h i v hi hv)
  generalize w.step config a = w' at hstepped
  cases hstepped with
  | gone => exact hall
  | done hstore hahead hrun =>
    have hnext := hbrings _ hstore (h.current hahead)
    rw [hrun] at hnext
    obtain ⟨safe, -, hlog⟩ := hahead.log
    exact hall.goOn hnext hlog.floor_lt.le
  | crashed hstore hahead hrun =>
    have hnext := hbrings _ hstore (h.current hahead)
    rw [hrun] at hnext
    exact fun i u hi hu => states_snoc hnext (fun _ hu => hall i u hi hu) hu
  | again hstore hahead hopen hdurable =>
    obtain ⟨safe, -, hlog⟩ := hahead.log
    exact hall.goOn (hdurable.symm ▸ hall.current hahead) hlog.floor_lt.le
  | found _ _ _ _ _ hi hstate =>
    exact hall.goOn (hall _ _ hi hstate) (hi.trans (List.getElem?_eq_some_iff.mp hstate).1.le)
  | torn => exact hall

/-! ## What a crash loses -/

/-- The second state remembers some more lineages, and is the first one in everything else. -/
def Remembers (config : DurableConfig) (u v : Durable) : Prop :=
  ∃ more : List Digest128,
    v = { u with lineages := more.foldl (remember config.maxLineages) u.lineages }

variable {u v : Durable}

theorem Remembers.refl : Remembers config v v := ⟨[], rfl⟩

theorem Remembers.one (h : Remembers config u v) {lineage : Digest128} :
    Remembers config u
      { v with lineages := remember config.maxLineages v.lineages lineage } := by
  obtain ⟨more, rfl⟩ := h
  exact ⟨more ++ [lineage], by rw [List.foldl_append]; rfl⟩

/-- Since it was settled the store has only been given lineages. -/
def Unsettled (config : DurableConfig) (w : StoreHistory) (v : Durable) : Prop :=
  w.Always fun u => Remembers config u v

theorem unsettled_goOn (h : ¬d.bytes.length ≤ d.synced → Unsettled config w s.durable)
    (hbound : w.settled ≤ w.states.length) : Unsettled config (w.goOn s d) s.durable := by
  by_cases hsynced : d.bytes.length ≤ d.synced
  · exact always_settled hsynced .refl
  · exact (h hsynced).goOn .refl hbound

/-- What is not synced is a lineage. -/
theorem unsynced_durable (ho : o.syncs = false) (hrun : o.run s d = (s', d')) :
    s'.durable = s.durable ∨ ∃ lineage, s'.durable =
      { s.durable with lineages := remember s.config.maxLineages s.durable.lineages lineage } := by
  cases o with
  | sync => cases ho
  | call c =>
    cases c with
    | recordLineage lineage now =>
      rcases hcall : s.recordLineage lineage now d with ⟨st, s₁, d₁⟩
      have hsame : (s₁, d₁) = (s', d') := (congrArg Prod.snd hcall).symm.trans hrun
      cases hsame
      unfold DurableStore.recordLineage at hcall
      split at hcall
      · cases hcall
        exact .inl rfl
      rcases DurableStore.withEpoch_cases hcall with ⟨rfl, -⟩ | ⟨-, hwrite⟩
      · exact .inl rfl
      cases DurableStore.write_cases hwrite with
      | unencoded => exact .inl rfl
      | refused => exact .inl rfl
      | torn => exact .inl rfl
      | unsynced _ _ _ hsync => cases hsync
      | written => exact .inr ⟨lineage, DurableStore.durable_rememberLineage⟩
    | _ => cases ho

theorem unsettled_op (hmax : 0 < config.maxLineages)
    (hahead : Ahead config s w.disk w.states w.settled) (hsafe : o.Safe s)
    (hrun : o.run s w.disk = (s', d')) (h : Unsettled config w s.durable) :
    Unsettled config (w.goOn s' d') s'.durable := by
  obtain ⟨safe, -, hlog⟩ := hahead.log
  refine unsettled_goOn (fun hno => ?_) hlog.floor_lt.le
  cases hahead.kept.changed hmax hsafe hrun with
  | idle hs _ => exact hs ▸ h
  | logged r _ hd =>
    have ho : o.syncs = false := by
      rw [Bool.eq_false_iff]
      intro hsyncs
      rw [hd, hsyncs] at hno
      exact hno (le_refl _)
    rcases unsynced_durable ho hrun with hsame | ⟨lineage, hone⟩
    · exact hsame ▸ h
    · rw [hone, hahead.kept.refined.same]
      exact fun i u hi hu => (h i u hi hu).one
  | replaced image _ hd =>
    subst hd
    exact absurd (le_refl _) hno
  | synced _ hd =>
    subst hd
    exact absurd (le_refl _) hno

/-- A store that is open has been given nothing but lineages since it was settled. -/
def Fresh (config : DurableConfig) (w : StoreHistory) : Prop :=
  ∀ s, w.store = some s → Unsettled config w s.durable

theorem Fresh.step (h : w.Fresh config) (hmax : 0 < config.maxLineages) (hinv : w.Inv config)
    (hsafe : w.Safe config a) : (w.step config a).Fresh config := by
  have hstepped := hinv.stepped a
  generalize w.step config a = w' at hstepped
  intro s' hs'
  cases hstepped with
  | gone => exact h s' hs'
  | done hstore hahead hrun =>
    cases hs'
    exact unsettled_op hmax hahead (hsafe _ hstore) hrun (h _ hstore)
  | crashed => cases hs'
  | again hstore hahead hopen hdurable =>
    cases hs'
    obtain ⟨safe, -, hlog⟩ := hahead.log
    exact unsettled_goOn (fun _ => hdurable.symm ▸ h _ hstore) hlog.floor_lt.le
  | found _ hfaults hheader hsynced hopen hi hstate =>
    cases hs'
    -- the directory is synced by then, and what is opened is settled
    refine unsettled_goOn (fun hno => absurd ?_ hno)
      (hi.trans (List.getElem?_eq_some_iff.mp hstate).1.le)
    obtain ⟨-, -, hlive, j, hjournal, rfl⟩ := DurableStore.openAt_ok hopen
    have hlength := hlive.holds.stored.length
    rw [List.length_nil] at hlength
    rcases DurableStore.openAt_synced hjournal with ⟨hnone, -⟩ | ⟨hleft, hwithin⟩
    · rw [Disk.bytes, hnone] at hheader
      exact absurd hheader (by decide)
    · omega
  | torn => cases hs'

theorem Fresh.run (h : w.Fresh config) (hmax : 0 < config.maxLineages) (hinv : w.Inv config)
    (hsafe : w.SafeRun config steps) : (w.run config steps).Fresh config := by
  induction steps generalizing w with
  | nil => exact h
  | cons a steps ih => exact ih (h.step hmax hinv hsafe.1) (hinv.step hmax hsafe.1) hsafe.2

theorem fresh_start : (start s d).Fresh config := by
  intro s₁ hs₁ i u _ hu
  obtain rfl : s = s₁ := Option.some.inj hs₁
  exact @states_snoc (fun u => Remembers config u s.durable) [] s.durable .refl i u
    (fun hold => absurd hold (Nat.not_lt_zero i)) hu

/-- A crash between two operations loses nothing but the last of the lineages: what is opened again
remembers less than the store did, and is the same in everything else. -/
theorem crash_loses_lineages (config : DurableConfig) (hmax : 0 < config.maxLineages)
    (d d₀ : Disk) (s : DurableStore) (hfaults : d.faults = []) (hsynced : d.bytes.length ≤ d.synced)
    (hopen : DurableStore.openAt config d = (.ok s, d₀)) (steps : List Step)
    (hsafe : (start s d₀).SafeRun config steps) (s₁ : DurableStore)
    (hstore : ((start s d₀).run config steps).store = some s₁) (kept : Nat)
    (hheader : kHeaderBytes ≤ (((start s d₀).run config steps).disk.crash kept).bytes.length) :
    ∃ s' d', DurableStore.openAt config (((start s d₀).run config steps).disk.crash kept) =
        (.ok s', d') ∧ Remembers config s'.durable s₁.durable := by
  have hstart : (start s d₀).Inv config := inv_start hfaults hsynced hopen
  have htail := fresh_start.run hmax hstart hsafe s₁ hstore
  rcases hstart.run hmax hsafe with ⟨s₂, hstore₂, hahead⟩ | ⟨hnone, -⟩
  · obtain ⟨s', d', hagain, i, hi, hstate⟩ :=
      hahead.reopens (Disk.crash_cut kept) hahead.kept.faults hheader
    exact ⟨s', d', hagain, htail i s'.durable hi hstate⟩
  · rw [hnone] at hstore
    cases hstore

/-- A lineage that is not synced is lost. -/
theorem lineage_lost : ∃ s d₀ s₁, DurableStore.openAt {} {} = (.ok s, d₀) ∧
    let w := (start s d₀).run {} oneLineage
    w.store = some s₁ ∧ s₁.durable.lineages = [⟨1, 2⟩] ∧
      ∃ s' d', DurableStore.openAt {} (w.disk.crash 100) = (.ok s', d') ∧
        Remembers {} s'.durable s₁.durable := by
  have hsome : (DurableStore.openAt {} {}).1.toOption.map (fun s =>
      let w := (start s (DurableStore.openAt {} {}).2).run {} oneLineage
      (w.store.map fun s₁ => s₁.durable.lineages,
        decide (kHeaderBytes ≤ (w.disk.crash 100).bytes.length))) =
      some (some [⟨1, 2⟩], true) := by
    decide +kernel
  rcases hopen : DurableStore.openAt {} {} with ⟨r, d₀⟩
  rw [hopen] at hsome
  cases r with
  | error st => cases hsome
  | ok s =>
    obtain ⟨hlineages, hheader⟩ := Prod.mk.inj (Option.some.inj hsome)
    obtain ⟨s₁, hstore, hs₁⟩ := Option.map_eq_some_iff.mp hlineages
    have hsafe : (start s d₀).SafeRun {} oneLineage :=
      ⟨fun _ _ => trivial, fun _ _ => trivial, trivial⟩
    exact ⟨s, d₀, s₁, rfl, hstore, hs₁, crash_loses_lineages {} (by decide) {} d₀ s rfl (le_refl _)
      hopen oneLineage hsafe s₁ hstore 100 (of_decide_eq_true hheader)⟩

end StoreHistory

end Backpressure
