import Backpressure.Store.Healthy

/-!
# Replay refines the live store

In every run of calls that succeed, the records of the journal take an empty store to what the live
store keeps.
-/

namespace Backpressure

open Lib (LittleEndian.encode)

namespace DurableStore

/-- The calls that change a store. -/
inductive Call
  | establishEpoch (now : Tick)
  | recordBoot (incarnation : Incarnation) (now : Tick)
  | persistPolicy (policy : PropagationPolicy) (now : Tick)
  | bindTopology (digest : Digest128) (generation : Generation) (now : Tick)
  | putFence (fence : Fence) (now : Tick)
  | removeFence (id : FenceId) (now : Tick)
  | recordLineage (lineage : Digest128) (now : Tick)
  | requestRevalidation (resource : ResourceId) (now : Tick)
  | clearRevalidation (resource : ResourceId) (now : Tick)
  | recordPressureFootprint (entries : List (SourceId × ResourceId)) (now : Tick)
  | beginAttempt (id : AttemptId) (now : Tick)
  | commitAttempt (id : AttemptId) (now : Tick)
  | abortAttempt (id : AttemptId) (now : Tick)
  | compact

namespace Call

def run : Call → DurableStore → Disk → Status × DurableStore × Disk
  | establishEpoch now, s, d => s.establishEpoch now d
  | recordBoot incarnation now, s, d => s.recordBoot incarnation now d
  | persistPolicy policy now, s, d => s.persistPolicy policy now d
  | bindTopology digest generation now, s, d => s.bindTopology digest generation now d
  | putFence fence now, s, d => s.putFence fence now d
  | removeFence id now, s, d => s.removeFence id now d
  | recordLineage lineage now, s, d => s.recordLineage lineage now d
  | requestRevalidation resource now, s, d => s.requestRevalidation resource now d
  | clearRevalidation resource now, s, d => s.clearRevalidation resource now d
  | recordPressureFootprint entries now, s, d => s.recordPressureFootprint entries now d
  | beginAttempt id now, s, d => s.beginAttempt id now d
  | commitAttempt id now, s, d => s.commitAttempt id now d
  | abortAttempt id now, s, d => s.abortAttempt id now d
  | compact, s, d => s.compact d

/-- Every identity that the call is given is valid. -/
def Identified : Call → Prop
  | putFence fence _ => fence.id.valid = true ∧ fence.resource.valid = true
  | removeFence id _ => id.valid = true
  | requestRevalidation resource _ | clearRevalidation resource _ => resource.valid = true
  | recordPressureFootprint entries _ => ∀ e ∈ entries, e.1.valid = true ∧ e.2.valid = true
  | beginAttempt id _ | commitAttempt id _ | abortAttempt id _ => id.valid = true
  | _ => True

/-- A footprint has fewer entries than its count can say. -/
def Counted : Call → Prop
  | recordPressureFootprint entries _ => entries.length < UInt32.size
  | _ => True

end Call

/-- The stores after an open and calls that all succeed, whatever the disk meets in between. -/
inductive Reached (config : DurableConfig) (allowed : Call → Prop) : DurableStore → Disk → Prop
  | opened {d d' : Disk} {s : DurableStore} : openAt config d = (.ok s, d') →
      Reached config allowed s d'
  | call {c : Call} {s s' : DurableStore} {d d' : Disk} {st : Status} {faults : List (Option Nat)} :
      Reached config allowed s d → c.Identified → allowed c →
      c.run s { d with faults } = (st, s', d') → st.ok = true → Reached config allowed s' d'

variable {config : DurableConfig} {s s' : DurableStore} {d d' : Disk} {st : Status}

/-- What every reached store satisfies. -/
structure Refined (config : DurableConfig) (s : DurableStore) : Prop where
  same : s.config = config
  bytes : kMaxJournalPayload ≤ config.journalLimits.maxRecordBytes
  valid : s.journal.limits.Valid
  replays : Replays config s.journal.records s.durable

/-- What a store that was opened is. -/
theorem openAt_ok (h : openAt config d = (.ok s, d')) :
    Refined config s ∧ s.journal.limits = config.journalLimits ∧ s.journal.Live d' ∧
      ∃ j, Journal.openAt config.journalLimits true d = (.ok j, d') ∧ s.journal = j := by
  unfold openAt at h
  split at h
  · cases h
  case isFalse hbytes =>
    split at h
    · cases h
    case h_2 j d₁ hopen =>
      unfold replay at h
      cases hall : applyAll j.records ({ config, journal := j } : DurableStore) with
      | error refused =>
        rw [show ({ config, journal := j } : DurableStore).journal.records = j.records from rfl,
          hall] at h
        cases h
      | ok s₁ =>
        rw [show ({ config, journal := j } : DurableStore).journal.records = j.records from rfl,
          hall] at h
        cases h
        obtain ⟨hreplays, hconfig, hjournal, -⟩ := Replays.of_applyAll hall
        obtain ⟨hlive, hlimits⟩ := Journal.openAt_live hopen
        rw [← hjournal] at hlive hlimits hreplays
        exact ⟨⟨hconfig, not_lt.mp hbytes, hlive.valid, hreplays⟩, hlimits, hlive, j, hopen, hjournal⟩

theorem Refined.does (h : Refined config s) (hdoes : Does s s') : Refined config s' where
  same := hdoes.config.trans h.same
  bytes := h.bytes
  valid := hdoes.limits ▸ h.valid
  replays := by
    have hnext := hdoes.replays (h.same.symm ▸ h.replays)
    rwa [hdoes.config, h.same] at hnext

/-- A call that succeeds keeps the records and the store together. -/
theorem Refined.call (h : Refined config s) (hmax : 0 < config.maxLineages) {c : Call}
    (hidentified : c.Identified) (hcounted : c.Counted) (hrun : c.run s d = (st, s', d'))
    (hst : st.ok = true) : Refined config s' := by
  have hreplays : Replays s.config s.journal.records s.durable := h.same.symm ▸ h.replays
  have hsane := hreplays.sane
  have hbytes : 117 ≤ s.config.journalLimits.maxRecordBytes := by
    have hmin := h.bytes
    rw [h.same]
    unfold kMaxJournalPayload at hmin
    omega
  cases c with
  | establishEpoch now => exact h.does (establishEpoch_does hrun hst)
  | recordBoot incarnation now => exact h.does (recordBoot_does hrun hst)
  | persistPolicy policy now => exact h.does (persistPolicy_does hrun hst hbytes)
  | bindTopology digest generation now => exact h.does (bindTopology_does hrun hst)
  | putFence fence now => exact h.does (putFence_does hrun hst)
  | removeFence id now => exact h.does (removeFence_does hrun hst hsane)
  | recordLineage lineage now => exact h.does (recordLineage_does hrun hst)
  | requestRevalidation resource now => exact h.does (requestRevalidation_does hrun hst)
  | clearRevalidation resource now =>
    exact h.does (clearRevalidation_does hrun hst hidentified)
  | recordPressureFootprint entries now =>
    exact h.does (recordPressureFootprint_does hrun hst hidentified hcounted)
  | beginAttempt id now => exact h.does (beginAttempt_does hrun hst)
  | commitAttempt id now => exact h.does (commitAttempt_does hrun hst hsane)
  | abortAttempt id now => exact h.does (abortAttempt_does hrun hst hsane)
  | compact =>
    obtain ⟨image, -, hconfig, hdurable, hkept, -, hlimits⟩ :=
      compact_ok hrun hst hreplays h.valid (h.same.symm ▸ hmax) hbytes
    refine ⟨hconfig.trans h.same, h.bytes, hlimits ▸ h.valid, ?_⟩
    rw [hdurable, ← h.same]
    exact hkept

/-- In every run whose footprints can be counted the records take an empty store to what the live
store keeps. -/
theorem replay_refines (hmax : 0 < config.maxLineages) (h : Reached config Call.Counted s d) :
    Replays config s.journal.records s.durable := by
  suffices hrefined : Refined config s from hrefined.replays
  induction h with
  | opened hopen => exact (openAt_ok hopen).1
  | call _ hidentified hcounted hrun hst ih => exact ih.call hmax hidentified hcounted hrun hst

/-- A new store in its first epoch. -/
theorem first_epoch_refines : ∃ s d, Reached {} Call.Counted s d ∧ s.durable.epoch = ⟨1⟩ ∧
    Replays {} s.journal.records s.durable := by
  obtain ⟨s, d, hopen, hhealthy, -, hdurable, -, -⟩ :=
    @openAt_new {} 1 {} ⟨by decide, by decide, by decide, by decide, by decide⟩ rfl rfl
  have hnew : s.state.epoch.known = false := by
    rw [show s.state.epoch = s.durable.epoch from rfl, hdurable]
    rfl
  obtain ⟨s', bytes, hcall, -, -, hkept, -⟩ := @Healthy.establishEpoch _ _ _ 0 hhealthy hnew
  have hsame : ({ d with faults := d.faults } : Disk) = d := rfl
  have hreached : Reached {} Call.Counted s' _ := .call (c := .establishEpoch 0) (.opened hopen)
    trivial trivial (hsame.symm ▸ hcall) rfl
  refine ⟨s', _, hreached, ?_, replay_refines (by decide) hreached⟩
  rw [hkept]

/-- A footprint whose count is lost is not read back. -/
theorem footprint_unreadable {r : JournalRecord} {entries : List (SourceId × ResourceId)}
    (htype : r.type = .revalidation) (hentries : entries ≠ [])
    (hcount : UInt32.ofNat entries.length = 0)
    (h : ByteWriter.take (5 + entries.length * 16) (encodeFootprint entries) = .ok r.payload)
    (s : DurableStore) : ∃ st, s.applyRecord r = .error st := by
  have hwrite : Appends (encodeFootprint entries) _ :=
    (Appends.u8 kRevalidationFootprint).seq <| (Appends.u32 (.ofNat entries.length)).seq <|
      appends_entries entries
  have hlength := length_entryBytes entries
  have hpayload := hwrite.eq_of_take (by
    simp only [List.length_append, Lib.LittleEndian.length_encode]
    omega) h
  have hrest : entryBytes entries ≠ [] := by
    intro hnil
    rw [hnil, List.length_nil] at hlength
    have hpos := List.length_pos_iff.mpr hentries
    omega
  have hread : Stops (readRevalidation s.config.maxFootprintEntries s.state) r.payload
      (.error .malformedInput "trailing bytes" (entryBytes entries).length) := by
    rw [hpayload, hcount]
    refine Stops.bind (.u8 kRevalidationFootprint) ?_
    rw [if_neg (by decide), if_pos rfl]
    refine Stops.bind (.u32 0) <| Stops.step (.refuse (Nat.not_lt_zero _)) ?_
    exact Stops.step (.pure s.state) <| Stops.first (.trailing hrest)
  have heffect : Stops (readEffect s r) r.payload
      (.error .malformedInput "trailing bytes" (entryBytes entries).length) := by
    unfold readEffect
    rw [htype]
    exact hread.first
  exact ⟨_, heffect.decode⟩

/-- A footprint within the limits of a healthy store is written and synced. -/
theorem Healthy.footprint {n : Nat} {now : Tick} {entries : List (SourceId × ResourceId)}
    (h : s.Healthy d n) (hknown : s.state.epoch.known = true)
    (hmax : entries.length ≤ s.config.maxFootprintEntries)
    (hrecord : 5 + entries.length * 16 = s.config.journalLimits.maxRecordBytes)
    (hsame : s.journal.limits = s.config.journalLimits)
    (hroom : 5 + entries.length * 16 ≤ n * kMaxJournalPayload) :
    ∃ s' d' r, s.recordPressureFootprint entries now d = (.success, s', d') ∧
      s'.journal.records = s.journal.records ++ [r] ∧ r.type = .revalidation ∧
      ByteWriter.take (5 + entries.length * 16) (encodeFootprint entries) = .ok r.payload := by
  have hwrite : Appends (encodeFootprint entries) _ :=
    (Appends.u8 kRevalidationFootprint).seq <| (Appends.u32 (.ofNat entries.length)).seq <|
      appends_entries entries
  have hlength : (LittleEndian.encode 1 kRevalidationFootprint.toNat ++
      (LittleEndian.encode 4 (UInt32.ofNat entries.length).toNat ++ entryBytes entries)).length =
      5 + entries.length * 16 := by
    simp only [List.length_append, Lib.LittleEndian.length_encode, length_entryBytes]
    omega
  have htake := hwrite.take (hlength.trans hrecord).le
  have hpos : 0 < n := by
    apply Nat.pos_of_ne_zero
    rintro rfl
    omega
  have hcheck := @Healthy.check _ _ _ h .revalidation _ (by decide) hpos
    ((hlength.trans hrecord).trans (by rw [hsame])).le (hlength.trans_le hroom)
  unfold recordPressureFootprint
  rw [withEpoch_known hknown, if_neg (Nat.not_lt.mpr hmax), if_neg (by omega), htake,
    write_of_check hcheck h.faults]
  refine ⟨_, _, _, rfl, rfl, rfl, ?_⟩
  rw [hrecord]
  exact htake

/-- The limits of a store that takes a footprint of `2^32` entries. -/
def wideConfig : DurableConfig where
  journalLimits :=
    { maxRecordBytes := 5 + UInt32.size * 16
      maxRecords := 33554432
      maxFileBytes := 1099511627776
      maxRetainedBytes := 1099511627776 }
  maxFootprintEntries := UInt32.size

/-- A footprint of `2^32` entries. -/
theorem wide_footprint_lost :
    ¬∀ (config : DurableConfig) (s : DurableStore) (d : Disk), 0 < config.maxLineages →
      Reached config (fun _ => True) s d → Replays config s.journal.records s.durable := by
  intro hrefines
  let entries : List (SourceId × ResourceId) := List.replicate UInt32.size (⟨1⟩, ⟨1⟩)
  have hentries : entries.length = UInt32.size := List.length_replicate
  have hlimits : Roomy wideConfig.journalLimits 16777220 :=
    ⟨by decide, by decide, by decide, by decide, by decide⟩
  obtain ⟨s₀, d₀, hopen, hhealthy₀, hconfig₀, hdurable₀, hsame₀, -⟩ :=
    @openAt_new {} 16777220 wideConfig hlimits rfl rfl
  have hnew : s₀.state.epoch.known = false := by
    rw [show s₀.state.epoch = s₀.durable.epoch from rfl, hdurable₀]
    rfl
  obtain ⟨s₁, bytes, hcall, hhealthy, hconfig, hdurable, hsame, -⟩ :=
    @Healthy.establishEpoch _ _ _ 0 hhealthy₀ hnew
  rw [hconfig₀] at hconfig
  rw [hsame₀] at hsame
  have hknown : s₁.state.epoch.known = true := by
    rw [show s₁.state.epoch = s₁.durable.epoch from rfl, hdurable]
    rfl
  obtain ⟨s₂, d₂, r, hfootprint, hrecords, htype, hpayload⟩ :=
    @Healthy.footprint s₁ _ 16777219 0 entries hhealthy hknown (by rw [hconfig, hentries]; rfl)
      (by rw [hconfig, hentries]; rfl) (by rw [hsame, hconfig]) (by rw [hentries]; decide)
  have hepoch : Reached wideConfig (fun _ => True) s₁ (d₀.logged true bytes) :=
    .call (c := .establishEpoch 0) (.opened hopen) trivial trivial hcall rfl
  have hidentified : (Call.recordPressureFootprint entries 0).Identified := by
    intro e he
    rw [List.eq_of_mem_replicate he]
    decide
  have hreached := hepoch.call hidentified trivial hfootprint rfl
  -- the replay of that record stops behind its count
  obtain ⟨s', hall, -⟩ := hrefines wideConfig _ _ (by decide) hreached
  rw [hrecords, applyAll_append] at hall
  split at hall
  · cases hall
  · obtain ⟨st, hfails⟩ := footprint_unreadable htype (List.ne_nil_of_length_pos (by rw [hentries]; decide))
      (by rw [hentries]; decide) hpayload _
    rw [applyAll, hfails] at hall
    cases hall

end DurableStore

end Backpressure
