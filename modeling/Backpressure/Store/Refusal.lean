import Backpressure.Store.Refinement

/-!
# What a refusal leaves

A change that the store refuses leaves the records and the live state as they were, unless it is
refused behind the append of its record: a new fence and a new request for revalidation look for
room only then, and the record of the refused change stays in the journal.
-/

namespace Backpressure

namespace DurableStore

variable {s s' : DurableStore} {d d' : Disk} {st : Status} {now : Tick}

/-- The records, the file and everything that is live but the count of what found no room. -/
structure Unchanged (s : DurableStore) (d : Disk) (s' : DurableStore) (d' : Disk) : Prop where
  records : s'.journal.records = s.journal.records
  bytes : d'.bytes = d.bytes
  attempts : s'.openAttempts = s.openAttempts
  state : { s'.state with footprintOverflow := 0 } = { s.state with footprintOverflow := 0 }

/-- A refusal that is not an input or output error changes nothing. -/
def Call.Atomic (c : Call) (s : DurableStore) (d : Disk) : Prop :=
  ∀ st s' d', c.run s d = (st, s', d') → st.ok = false → st.code ≠ .ioError → s.Unchanged d s' d'

/-- The journal takes the record, and the disk writes and syncs it. -/
def Takes (s : DurableStore) (d : Disk) (type : RecordType) (payload : Result Bytes) : Prop :=
  ∃ bytes, payload = .ok bytes ∧ (s.journal.checkAppend type bytes).ok = true ∧ d.fault = none ∧
    d.next.fault = none

/-- The record of the call is written, and then the state has no room for what it says. -/
def Call.Overruns (s : DurableStore) (d : Disk) : Call → Prop
  | putFence fence _ =>
    fence.validate.ok = true ∧ s.state.epoch.known = true ∧
      (s.state.fences.any fun existing => existing.id == fence.id) = false ∧
      kMaxFences ≤ s.state.fences.length ∧
      (∀ bytes, serializeFence fence = .ok bytes →
        bytes.length ≤ s.config.journalLimits.maxRecordBytes) ∧
      s.Takes d .fencePut (serializeFence fence)
  | requestRevalidation resource _ =>
    resource.valid = true ∧ s.state.epoch.known = true ∧
      resource ∉ s.state.revalidationRequired ∧
      s.config.maxFootprintEntries ≤ s.state.revalidationRequired.length ∧
      s.Takes d .revalidation
        (ByteWriter.take 16 (encodeRevalidation kRevalidationRequest resource))
  | _ => False

/-! ## Refusals that leave the store alone -/

/-- A result that gives the store and the disk back when it is a refusal. -/
def Spares (s : DurableStore) (d : Disk) (r : Status × DurableStore × Disk) : Prop :=
  r.1.ok = false → r.1.code ≠ .ioError → r.2.1 = s ∧ r.2.2 = d

theorem Spares.same : s.Spares d (st, s, d) := fun _ _ => ⟨rfl, rfl⟩

theorem Spares.withEpoch {next : Status × DurableStore × Disk}
    (h : s.state.epoch.known = true → s.Spares d next) : s.Spares d (s.withEpoch d next) := by
  unfold DurableStore.withEpoch
  split
  · exact .same
  case isFalse hknown => exact h (by simpa using hknown)

theorem Spares.unchanged (h : s.Spares d (st, s', d')) (hno : st.ok = false)
    (hio : st.code ≠ .ioError) : s.Unchanged d s' d' := by
  obtain ⟨rfl, rfl⟩ := h hno hio
  exact ⟨rfl, rfl, rfl, rfl⟩

/-- A sync of an open journal fails on the disk only. -/
theorem code_of_sync {j : Journal} (h : j.sync d = (st, d')) (hopen : j.isOpen = true)
    (hno : st.ok = false) : st.code = .ioError ∧ d.fault ≠ none := by
  unfold Journal.sync at h
  rw [hopen, Bool.not_true, if_neg (by decide)] at h
  unfold Disk.sync at h
  split at h
  case h_1 hfault =>
    cases h
    exact ⟨rfl, by rw [hfault]; exact Option.some_ne_none _⟩
  case h_2 hfault =>
    cases h
    exact ⟨rfl, by rw [hfault]; exact Option.some_ne_none _⟩
  case h_3 =>
    cases h
    cases hno

section Write

variable {type : RecordType} {epoch : Epoch} {payload : Result Bytes} {sync : Bool}
  {effect : DurableStore → Status × DurableStore}

/-- A write whose effect cannot refuse what the journal takes. -/
theorem Spares.write (heffect : ∀ bytes, payload = .ok bytes →
      (s.journal.checkAppend type bytes).ok = true → d.fault = none → (sync = true → d.next.fault = none) →
      (effect (s.logged type now epoch bytes)).1.ok = true) :
    s.Spares d (s.write type now epoch payload sync effect d) := by
  intro hno hio
  have hopen : ∀ {bytes}, (s.journal.checkAppend type bytes).ok = true →
      (s.logged type now epoch bytes).journal.isOpen = true := fun hcheck =>
    (Journal.checkAppend_ok.mp hcheck).1
  rcases hwrite : s.write type now epoch payload sync effect d with ⟨st, s', d'⟩
  rw [hwrite] at hno hio
  cases write_cases hwrite with
  | unencoded => exact ⟨rfl, rfl⟩
  | refused => exact ⟨rfl, rfl⟩
  | torn => exact absurd rfl hio
  | unsynced _ hcheck _ _ hsync hfailed =>
    exact absurd (code_of_sync hsync (hopen hcheck) hfailed).1 hio
  | @written bytes _ hpayload hcheck hfault hsync =>
    have hsynced : sync = true → d.next.fault = none := by
      intro htrue
      rcases hsync with ⟨hfalse, -⟩ | ⟨-, st', hok, hsync⟩
      · rw [htrue] at hfalse
        cases hfalse
      · by_contra hfault'
        unfold Journal.sync at hsync
        rw [hopen hcheck, Bool.not_true, if_neg (by decide)] at hsync
        unfold Disk.sync at hsync
        split at hsync
        · cases hsync
          cases hok
        · cases hsync
          cases hok
        case h_3 hnone => exact hfault' hnone
    have hyes := heffect bytes hpayload hcheck hfault hsynced
    rw [hyes] at hno
    cases hno

theorem Spares.succeed {f : DurableStore → DurableStore} :
    s.Spares d (s.write type now epoch payload sync (DurableStore.succeed f) d) :=
  .write fun _ _ _ _ _ => rfl

/-- What is written when the journal takes the record. -/
theorem write_of_takes {bytes : Bytes} (hpayload : payload = .ok bytes)
    (hcheck : (s.journal.checkAppend type bytes).ok = true) (hfault : d.fault = none)
    (hsynced : d.next.fault = none) (h : s.write type now epoch payload true effect d = (st, s', d')) :
    st = (effect (s.logged type now epoch bytes)).1 ∧
      s' = (effect (s.logged type now epoch bytes)).2 := by
  subst hpayload
  cases write_cases h with
  | unencoded herror => cases herror
  | refused hbytes hno =>
    cases hbytes
    rw [hcheck] at hno
    cases hno
  | torn _ hfault' =>
    rw [hfault] at hfault'
    cases hfault'
  | unsynced hbytes _ _ _ hsync hno =>
    cases hbytes
    have hopen := (Journal.checkAppend_ok.mp hcheck).1
    exact absurd hsynced (code_of_sync hsync hopen hno).2
  | written hbytes =>
    cases hbytes
    exact ⟨rfl, rfl⟩

end Write

/-! ## The calls -/

theorem spares_putFence {fence : Fence} (h : ¬(Call.putFence fence now).Overruns s d) :
    s.Spares d (s.putFence fence now d) := by
  unfold DurableStore.putFence
  split
  · exact .same
  case isFalse hvalid =>
    refine .withEpoch fun hknown => ?_
    split
    · exact .same
    case h_2 bytes hbytes =>
      split
      · exact .same
      case isFalse hlength =>
        refine .write fun bytes' hbytes' hcheck hfault hsynced => ?_
        cases hbytes'
        have hroom : (s.state.fences.any fun existing => existing.id == fence.id) = true ∨
            s.state.fences.length < kMaxFences := by
          by_contra hnone
          obtain ⟨hnew, hfull⟩ := not_or.mp hnone
          refine h ⟨by simpa using hvalid, hknown, by simpa using hnew, not_lt.mp hfull, ?_,
            bytes, hbytes, hcheck, hfault, hsynced rfl⟩
          intro bytes' hbytes'
          rw [hbytes] at hbytes'
          cases hbytes'
          exact not_lt.mp hlength
        have hput := @putFence_ok s.state fence "fence capacity" hroom
        split
        case h_1 hrefused => cases hput.symm.trans hrefused
        case h_2 => rfl

theorem spares_requestRevalidation {resource : ResourceId}
    (h : ¬(Call.requestRevalidation resource now).Overruns s d) (hst : st.ok = false)
    (hio : st.code ≠ .ioError) (hrun : s.requestRevalidation resource now d = (st, s', d')) :
    s.Unchanged d s' d' := by
  have hspares : s.Spares d (s.requestRevalidation resource now d) := by
    unfold DurableStore.requestRevalidation
    split
    · exact .same
    case isFalse hvalid =>
      refine .withEpoch fun hknown => .write fun bytes hbytes hcheck hfault hsynced => ?_
      by_cases hmem : resource ∈ s.state.revalidationRequired
      · rw [if_pos (show resource ∈ (s.logged _ _ _ _).state.revalidationRequired from hmem)]
        rfl
      · rw [if_neg (show resource ∉ (s.logged _ _ _ _).state.revalidationRequired from hmem)]
        split
        case isTrue hfull =>
          exact absurd ⟨by simpa using hvalid, hknown, hmem, hfull, bytes, hbytes, hcheck, hfault,
            hsynced rfl⟩ h
        · rfl
  rw [hrun] at hspares
  exact hspares.unchanged hst hio

/-- A call that does not overrun gives the store back when it is refused. -/
theorem spares_run {c : Call} (hc : c ≠ .compact) (h : ¬c.Overruns s d) : c.Atomic s d := by
  intro st s' d' hrun hno hio
  have hspares : (∀ resource now, c ≠ .requestRevalidation resource now) → s.Spares d (c.run s d) := by
    intro hother
    cases c with
    | establishEpoch now =>
      show s.Spares d (s.establishEpoch now d)
      unfold DurableStore.establishEpoch
      split
      · exact .same
      · exact .succeed
    | recordBoot incarnation now =>
      show s.Spares d (s.recordBoot incarnation now d)
      unfold DurableStore.recordBoot
      split
      · exact .same
      · exact .withEpoch fun _ => .succeed
    | persistPolicy policy now =>
      show s.Spares d (s.persistPolicy policy now d)
      unfold DurableStore.persistPolicy
      split
      · exact .same
      · refine .withEpoch fun _ => ?_
        split
        · split
          · exact .same
          · exact .same
        · exact .succeed
    | bindTopology digest generation now =>
      show s.Spares d (s.bindTopology digest generation now d)
      unfold DurableStore.bindTopology
      split
      · exact .same
      · exact .withEpoch fun _ => .succeed
    | putFence fence now => exact spares_putFence h
    | removeFence id now =>
      refine .withEpoch fun _ => ?_
      split
      · exact .same
      · exact .succeed
    | recordLineage lineage now =>
      show s.Spares d (s.recordLineage lineage now d)
      unfold DurableStore.recordLineage
      split
      · exact .same
      · exact .withEpoch fun _ => .succeed
    | requestRevalidation resource now => exact absurd rfl (hother resource now)
    | clearRevalidation resource now => exact .withEpoch fun _ => .succeed
    | recordPressureFootprint entries now =>
      refine .withEpoch fun _ => ?_
      split
      · exact .same
      · split
        · exact .same
        · exact .succeed
    | beginAttempt id now =>
      show s.Spares d (s.beginAttempt id now d)
      unfold DurableStore.beginAttempt
      split
      · exact .same
      · refine .withEpoch fun _ => ?_
        split
        · exact .same
        · exact .succeed
    | commitAttempt id now =>
      show s.Spares d (s.commitAttempt id now d)
      unfold DurableStore.commitAttempt
      split
      · exact .same
      · exact .succeed
    | abortAttempt id now =>
      show s.Spares d (s.abortAttempt id now d)
      unfold DurableStore.abortAttempt
      split
      · exact .same
      · exact .succeed
    | compact => exact absurd rfl hc
  by_cases hrequest : ∃ resource now, c = .requestRevalidation resource now
  · obtain ⟨resource, now, rfl⟩ := hrequest
    exact spares_requestRevalidation h hno hio hrun
  · have hall := hspares fun resource now hc => hrequest ⟨resource, now, hc⟩
    rw [hrun] at hall
    exact hall.unchanged hno hio

/-- A call that overruns is refused behind the append of its record. -/
theorem overrun_appends {c : Call} (h : c.Overruns s d) (hrun : c.run s d = (st, s', d')) :
    st.ok = false ∧ st.code ≠ .ioError ∧
      ∃ r, s'.journal.records = s.journal.records ++ [r] := by
  cases c with
  | putFence fence now =>
    obtain ⟨hvalid, hknown, hnew, hfull, hlength, bytes, hbytes, hcheck, hfault, hsynced⟩ := h
    have hrun : s.putFence fence now d = (st, s', d') := hrun
    unfold DurableStore.putFence at hrun
    rw [hvalid, Bool.not_true, if_neg (by decide), withEpoch_known hknown, hbytes] at hrun
    dsimp only at hrun
    rw [if_neg (not_lt.mpr (hlength bytes hbytes))] at hrun
    obtain ⟨rfl, rfl⟩ := write_of_takes rfl hcheck hfault hsynced hrun
    have hrefused : s.state.putFence fence "fence capacity" =
        fail .limitExceeded "fence capacity" s.state.fences.length := by
      unfold RecoveredState.putFence
      rw [if_neg (by rw [hnew]; decide), if_pos hfull]
    have hstate : (s.logged .fencePut now s.state.epoch bytes).state = s.state := rfl
    rw [hstate, hrefused]
    exact ⟨rfl, nofun, _, rfl⟩
  | requestRevalidation resource now =>
    obtain ⟨hvalid, hknown, hnew, hfull, bytes, hbytes, hcheck, hfault, hsynced⟩ := h
    have hrun : s.requestRevalidation resource now d = (st, s', d') := hrun
    unfold DurableStore.requestRevalidation at hrun
    rw [hvalid, Bool.not_true, if_neg (by decide), withEpoch_known hknown] at hrun
    obtain ⟨rfl, rfl⟩ := write_of_takes hbytes hcheck hfault hsynced hrun
    have hstate : (s.logged .revalidation now s.state.epoch bytes).state = s.state := rfl
    have hconfig : (s.logged .revalidation now s.state.epoch bytes).config = s.config := rfl
    rw [hstate, if_neg hnew, hconfig, if_pos hfull]
    exact ⟨rfl, nofun, _, rfl⟩
  | _ => exact h.elim

/-- A call is atomic on refusal exactly when it does not overrun. -/
theorem atomic_iff_no_overrun (c : Call) (s : DurableStore) (d : Disk) (hc : c ≠ .compact) :
    c.Atomic s d ↔ ¬c.Overruns s d := by
  constructor
  · intro hatomic hoverruns
    rcases hrun : c.run s d with ⟨st, s', d'⟩
    obtain ⟨hno, hio, r, hrecords⟩ := overrun_appends hoverruns hrun
    have hsame := (hatomic st s' d' hrun hno hio).records
    rw [hrecords] at hsame
    exact absurd (congrArg List.length hsame) (by simp)
  · exact spares_run hc

/-- A new store with room for one resource, after some calls. -/
def crowded (calls : List Call) : Option (DurableStore × Disk) :=
  match openAt { maxFootprintEntries := 1 } {} with
  | (.error _, _) => none
  | (.ok s, d) =>
    some (calls.foldl (fun w c => (c.run w.1 w.2).2) (s, d))

/-- An attempt that is begun twice. -/
theorem atomic_twice : ∃ w, crowded [.establishEpoch 0, .beginAttempt ⟨1⟩ 0] = some w ∧
    ((Call.beginAttempt ⟨1⟩ 0).run w.1 w.2).1.ok = false ∧
    (Call.beginAttempt ⟨1⟩ 0).Atomic w.1 w.2 := by
  have hrefused : (crowded [.establishEpoch 0, .beginAttempt ⟨1⟩ 0]).map (fun w =>
      ((Call.beginAttempt ⟨1⟩ 0).run w.1 w.2).1.ok) = some false := by decide +kernel
  obtain ⟨w, hw, hrefused⟩ := Option.map_eq_some_iff.mp hrefused
  exact ⟨w, hw, hrefused, (atomic_iff_no_overrun (.beginAttempt ⟨1⟩ 0) w.1 w.2 nofun).mpr id⟩

/-- A second request is refused, and its record stays. -/
theorem refused_request_recorded :
    ¬∀ (c : Call) (s : DurableStore) (d : Disk), c ≠ .compact → c.Atomic s d := by
  intro h
  have hrun : ∃ w, crowded [.establishEpoch 0, .requestRevalidation ⟨1⟩ 0] = some w ∧
      ((Call.requestRevalidation ⟨2⟩ 0).run w.1 w.2).1 =
        .error .limitExceeded "revalidation footprint" 1 ∧ w.1.journal.records.length = 2 ∧
      ((Call.requestRevalidation ⟨2⟩ 0).run w.1 w.2).2.1.journal.records.length = 3 := by
    have hprobe : (crowded [.establishEpoch 0, .requestRevalidation ⟨1⟩ 0]).map (fun w =>
        (((Call.requestRevalidation ⟨2⟩ 0).run w.1 w.2).1, w.1.journal.records.length,
          ((Call.requestRevalidation ⟨2⟩ 0).run w.1 w.2).2.1.journal.records.length)) =
        some (.error .limitExceeded "revalidation footprint" 1, 2, 3) := by
      decide +kernel
    obtain ⟨w, hw, hall⟩ := Option.map_eq_some_iff.mp hprobe
    rw [Prod.mk.injEq, Prod.mk.injEq] at hall
    exact ⟨w, hw, hall⟩
  obtain ⟨w, -, hst, hbefore, hafter⟩ := hrun
  rcases hcall : (Call.requestRevalidation ⟨2⟩ 0).run w.1 w.2 with ⟨st, s', d'⟩
  rw [hcall] at hst hafter
  dsimp only at hst hafter
  have hsame := h (.requestRevalidation ⟨2⟩ 0) w.1 w.2 nofun st s' d' hcall (by rw [hst]; rfl)
    (by rw [hst]; decide)
  have hlength := congrArg List.length hsame.records
  rw [hbefore] at hlength
  rw [hafter] at hlength
  cases hlength

end DurableStore

end Backpressure
