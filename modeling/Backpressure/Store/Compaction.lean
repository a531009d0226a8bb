import Backpressure.Store.Mutators
import Mathlib.Data.List.Forall2

/-!
# What a compaction keeps

The records of a compacted journal take an empty store to what the live store keeps.
-/

namespace Backpressure

open Lib (LittleEndian.encode)

/-- Replays depend on what an append is given, not on sequence numbers and chains. -/
theorem DurableStore.applyAll_congr {rs rs' : List JournalRecord}
    (h : rs.map JournalRecord.draft = rs'.map JournalRecord.draft) (s : DurableStore) :
    applyAll rs s = applyAll rs' s := by
  induction rs generalizing rs' s with
  | nil =>
    rw [List.map_nil, eq_comm, List.map_eq_nil_iff] at h
    rw [h]
  | cons r rest ih =>
    cases rs' with
    | nil => cases h
    | cons r' rest' =>
      rw [List.map_cons, List.map_cons, List.cons.injEq] at h
      have hrecord : s.applyRecord r = s.applyRecord r' := by
        obtain ⟨htype, -, hepoch, hpayload⟩ := Draft.mk.injEq .. ▸ h.1
        unfold applyRecord readEffect
        rw [htype, hepoch, hpayload]
      rw [applyAll, applyAll, hrecord]
      cases s.applyRecord r' with
      | error st => rfl
      | ok s' => exact ih h.2 _

namespace Replays

variable {config : DurableConfig} {rs rs' seg : List JournalRecord} {v : Durable} {α : Type}

theorem congr (h : Replays config rs v)
    (hdrafts : rs.map JournalRecord.draft = rs'.map JournalRecord.draft) : Replays config rs' v := by
  obtain ⟨s, hall, hs⟩ := h
  exact ⟨s, DurableStore.applyAll_congr hdrafts _ ▸ hall, hs⟩

/-- Records for the elements of a list, which take what is kept from stage to stage. -/
theorem segment {xs : List α} (ev : α → DurableEvent) (stage : List α → Durable)
    (h : Replays config rs (stage []))
    (hsaid : List.Forall₂ (fun x r => r.Says config (ev x)) xs seg)
    (hstep : ∀ front x back, xs = front ++ x :: back →
      (ev x).Possible config (stage front) ∧ (ev x).apply config (stage front) = stage (front ++ [x])) :
    Replays config (rs ++ seg) (stage xs) := by
  suffices hsuff : ∀ front back : List α, ∀ rs seg : List JournalRecord, xs = front ++ back →
      Replays config rs (stage front) → List.Forall₂ (fun x r => r.Says config (ev x)) back seg →
      Replays config (rs ++ seg) (stage xs) from hsuff [] xs rs seg rfl h hsaid
  intro front back
  induction back generalizing front with
  | nil =>
    intro rs seg hxs hfront hback
    cases hback
    rw [List.append_nil] at hxs ⊢
    rwa [hxs]
  | cons x back ih =>
    intro rs seg hxs hfront hback
    cases hback with
    | @cons _ r _ seg hr hrest =>
      obtain ⟨hpossible, happly⟩ := hstep front x back hxs
      have hnext := hfront.snoc hr hpossible
      rw [happly] at hnext
      have hall := ih (front ++ [x]) (rs ++ [r]) seg (by simpa using hxs) hnext hrest
      rwa [List.append_assoc, List.singleton_append] at hall

/-- One record. -/
theorem one {x : α} {ev : α → DurableEvent} (h : Replays config rs v)
    (hsaid : List.Forall₂ (fun x r => r.Says config (ev x)) [x] seg)
    (hpossible : (ev x).Possible config v) :
    Replays config (rs ++ seg) ((ev x).apply config v) := by
  cases hsaid with
  | cons hr hnil =>
    cases hnil
    exact h.snoc hr hpossible

/-- A record that is there or not. -/
theorem optional {c : Bool} {x : α} {ev : α → DurableEvent} (h : Replays config rs v)
    (hsaid : List.Forall₂ (fun x r => r.Says config (ev x)) (if c then [x] else []) seg)
    (hpossible : c = true → (ev x).Possible config v) :
    Replays config (rs ++ seg) (if c then (ev x).apply config v else v) := by
  cases c with
  | true => exact h.one hsaid (hpossible rfl)
  | false =>
    cases hsaid
    rwa [List.append_nil]

end Replays

/-- A record that says an event and fits into any journal. -/
structure JournalRecord.Keeps (config : DurableConfig) (r : JournalRecord) (ev : DurableEvent) :
    Prop where
  record : r.Says config ev
  type : r.type ≠ .count
  length : r.payload.length < 256 ^ 4

namespace DurableStore

variable {s : DurableStore} {config : DurableConfig} {α : Type}

theorem compactedRecords_ok {type : RecordType} {payload : α → Result Bytes} {xs : List α}
    {rs : List JournalRecord} (h : s.compactedRecords type payload xs = .ok rs) :
    List.Forall₂ (fun x r => r.type = type ∧ r.epoch = s.state.epoch ∧ payload x = .ok r.payload)
      xs rs := by
  unfold compactedRecords at h
  induction xs generalizing rs with
  | nil =>
    cases h
    exact .nil
  | cons x rest ih =>
    rw [List.mapM_cons] at h
    cases hpayload : payload x with
    | error st =>
      rw [hpayload] at h
      cases h
    | ok bytes =>
      rw [hpayload] at h
      cases hrest : (rest.mapM fun x => do
          let bytes ← payload x
          return ({ type, tick := kNoTick, epoch := s.state.epoch, payload := bytes } :
            JournalRecord)) with
      | error st =>
        erw [hrest] at h
        cases h
      | ok later =>
        erw [hrest] at h
        cases h
        exact .cons ⟨rfl, rfl, hpayload⟩ (ih hrest)

/-- A step of a computation that gives a value. -/
theorem bind_eq_ok {β γ : Type} {x : Result β} {f : β → Result γ} {c : γ}
    (h : (x >>= f) = .ok c) : ∃ b, x = .ok b ∧ f b = .ok c := by
  cases x with
  | error st => cases h
  | ok b => exact ⟨b, rfl, h⟩

/-! ### The records by kind -/

section Kinds

variable {r : JournalRecord} {epoch : Epoch}

theorem keeps_epoch {v : UInt64} (h : r.type = .epoch ∧ r.epoch = epoch ∧
    ByteWriter.take 16 (ByteWriter.u64 v) = .ok r.payload) : r.Keeps config (.epoch epoch) where
  record := h.2.1 ▸ says_epoch h.1
  type := by simp [h.1]
  length := by
    rw [(Appends.u64 v).eq_of_take (by simp) h.2.2]
    simp

theorem keeps_boot {i : Incarnation} (h : r.type = .boot ∧ r.epoch = epoch ∧
    ByteWriter.take 64 (encodeIncarnation i) = .ok r.payload) : r.Keeps config (.boot i) where
  record := says_boot h.1 h.2.2
  type := by simp [h.1]
  length := by
    obtain ⟨bytes, hlength, hwrite, -⟩ := incarnation_codec i
    rw [hwrite.eq_of_take (by omega) h.2.2, hlength]
    decide

theorem keeps_policy {p : PropagationPolicy} {n : Nat} (hvalid : p.validate.ok = true) (hn : 117 ≤ n)
    (h : r.type = .policy ∧ r.epoch = epoch ∧ serializePolicy p n = .ok r.payload) :
    r.Keeps config (.policy p) where
  record := says_policy hn h.1 h.2.2
  type := by simp [h.1]
  length := by
    obtain ⟨bytes, hlength, hwrite, -⟩ := policy_codec hvalid
    rw [hwrite.eq_of_take (le_min (by omega) (by rw [hlength]; decide)) h.2.2, hlength]
    decide

theorem keeps_binding {t : Digest128 × Generation} (h : r.type = .topologyBinding ∧
    r.epoch = epoch ∧ ByteWriter.take 32 (encodeBinding t.1 t.2) = .ok r.payload) :
    r.Keeps config (.binding t.1 t.2) where
  record := says_binding h.1 h.2.2
  type := by simp [h.1]
  length := by
    have hwrite : Appends (encodeBinding t.1 t.2) _ :=
      (Appends.digest t.1).seq (Appends.u64 t.2.value)
    rw [hwrite.eq_of_take (by simp) h.2.2]
    simp

theorem keeps_putFence {f : Fence} (hvalid : f.validate.ok = true) (h : r.type = .fencePut ∧
    r.epoch = epoch ∧ serializeFence f = .ok r.payload) : r.Keeps config (.putFence f) where
  record := says_putFence h.1 h.2.2
  type := by simp [h.1]
  length := by
    obtain ⟨bytes, hlength, hwrite, -⟩ := fence_codec hvalid
    rw [hwrite.eq_of_take (by rw [hlength]; decide) h.2.2, hlength]
    decide

theorem keeps_require {resource : ResourceId} (h : r.type = .revalidation ∧ r.epoch = epoch ∧
    ByteWriter.take 16 (encodeRevalidation kRevalidationRequest resource) = .ok r.payload) :
    r.Keeps config (.require resource) where
  record := says_require h.1 h.2.2
  type := by simp [h.1]
  length := by
    have hwrite : Appends (encodeRevalidation kRevalidationRequest resource) _ :=
      (Appends.u8 kRevalidationRequest).seq (Appends.u64 resource.value)
    rw [hwrite.eq_of_take (by simp) h.2.2]
    simp

theorem keeps_lineage {lineage : Digest128} (h : r.type = .lineage ∧ r.epoch = epoch ∧
    ByteWriter.take 24 (ByteWriter.digest lineage) = .ok r.payload) :
    r.Keeps config (.lineage lineage) where
  record := says_lineage h.1 h.2.2
  type := by simp [h.1]
  length := by
    rw [(Appends.digest lineage).eq_of_take (by simp) h.2.2]
    simp

theorem keeps_begin {id : AttemptId} (h : r.type = .attemptBegin ∧ r.epoch = epoch ∧
    attemptPayload id = .ok r.payload) : r.Keeps config (.beginAttempt id) where
  record := says_begin h.1 h.2.2
  type := by simp [h.1]
  length := by
    rw [(Appends.u64 id.value).eq_of_take (by simp) h.2.2]
    simp

theorem keeps_compaction {v : UInt64} (h : r.type = .compaction ∧ r.epoch = epoch ∧
    ByteWriter.take 16 (ByteWriter.u64 v) = .ok r.payload) : r.Keeps config .compaction where
  record := says_compaction (by decide) h.1 h.2.2
  type := by simp [h.1]
  length := by
    rw [(Appends.u64 v).eq_of_take (by simp) h.2.2]
    simp

end Kinds

/-! ### The stages of a compaction -/

section Stages

variable {t v : Durable} {rs seg : List JournalRecord}

theorem boot_stage (h : t.Sane config) (hboot : v.boot = {}) (hincarnation : v.incarnation = {})
    (hnone : v.bootRecorded = false) :
    (if t.bootRecorded then DurableEvent.apply config (.boot t.incarnation) v else v) =
      { v with boot := t.boot, incarnation := t.incarnation, bootRecorded := t.bootRecorded } := by
  cases hrecorded : t.bootRecorded with
  | true =>
    rw [if_pos rfl, h.booted hrecorded]
    rfl
  | false =>
    obtain ⟨hnoboot, hunknown⟩ := h.unbooted hrecorded
    rw [if_neg (by decide), hnoboot, hunknown]
    cases v
    cases hboot
    cases hincarnation
    cases hnone
    rfl

theorem policy_stage (h : t.Sane config) (hpolicy : v.policy = {}) (hnone : v.hasPolicy = false) :
    (if t.hasPolicy then DurableEvent.apply config (.policy t.policy) v else v) =
      { v with policy := t.policy, hasPolicy := t.hasPolicy } := by
  cases hhas : t.hasPolicy with
  | true => rfl
  | false =>
    rw [if_neg (by decide), h.noPolicy hhas]
    cases v
    cases hpolicy
    cases hnone
    rfl

theorem binding_stage (h : t.Sane config) (hdigest : v.topologyDigest = {})
    (hgeneration : v.topologyGeneration = {}) (hnone : v.hasTopologyBinding = false) :
    (if t.hasTopologyBinding then
        DurableEvent.apply config (.binding t.topologyDigest t.topologyGeneration) v else v) =
      { v with
        topologyDigest := t.topologyDigest, topologyGeneration := t.topologyGeneration
        hasTopologyBinding := t.hasTopologyBinding } := by
  cases hhas : t.hasTopologyBinding with
  | true => rfl
  | false =>
    obtain ⟨hnodigest, hunknown⟩ := h.unbound hhas
    rw [if_neg (by decide), hnodigest, hunknown]
    cases v
    cases hdigest
    cases hgeneration
    cases hnone
    rfl

theorem new_of_nodup {β : Type} {front back : List β} {x : β} (h : (front ++ x :: back).Nodup) :
    x ∉ front :=
  fun hin => (List.nodup_append.mp h).2.2 _ hin _ List.mem_cons_self rfl

theorem short_of_bound {β : Type} {front back : List β} {x : β} {n : Nat}
    (h : (front ++ x :: back).length ≤ n) : front.length < n := by
  rw [List.length_append, List.length_cons] at h
  omega

/-- Fences of distinct identities come one after the other. -/
theorem fence_stage (h : t.Sane config) (hreplays : Replays config rs v) (hnone : v.fences = [])
    (hsaid : List.Forall₂ (fun f r => r.Says config (.putFence f)) t.fences seg) :
    Replays config (rs ++ seg) { v with fences := t.fences } := by
  have hstart : v = { v with fences := [] } := by rw [← hnone]
  rw [hstart] at hreplays
  refine hreplays.segment .putFence (fun front => { v with fences := front }) hsaid
    fun front f back hfences => ?_
  have hcount := h.fenceCount
  have hids := h.fenceIds
  rw [hfences] at hcount hids
  rw [List.map_append, List.map_cons] at hids
  have hnew : ¬(front.any fun existing => existing.id == f.id) = true := by
    rw [any_id]
    exact new_of_nodup hids
  refine ⟨⟨h.fences f ?_, .inr (short_of_bound hcount)⟩, ?_⟩
  · rw [hfences]
    exact List.mem_append_right _ List.mem_cons_self
  · show ({ v with fences := putFences front f } : Durable) = _
    rw [putFences, if_neg hnew]

theorem required_stage (h : t.Sane config) (hreplays : Replays config rs v)
    (hnone : v.revalidationRequired = [])
    (hsaid : List.Forall₂ (fun resource r => r.Says config (.require resource))
      t.revalidationRequired seg) :
    Replays config (rs ++ seg) { v with revalidationRequired := t.revalidationRequired } := by
  have hstart : v = { v with revalidationRequired := [] } := by rw [← hnone]
  rw [hstart] at hreplays
  refine hreplays.segment .require (fun front => { v with revalidationRequired := front }) hsaid
    fun front resource back hrequired => ?_
  have hcount := h.requiredCount
  have hnodup := h.required
  rw [hrequired] at hcount hnodup
  refine ⟨h.requiredIds resource ?_, ?_⟩
  · rw [hrequired]
    exact List.mem_append_right _ List.mem_cons_self
  · show ({ v with revalidationRequired := enlist _ front resource } : Durable) = _
    rw [enlist, if_neg (new_of_nodup hnodup), if_neg (not_le.mpr (short_of_bound hcount))]

theorem lineage_stage (h : t.Sane config) (hmax : 0 < config.maxLineages)
    (hreplays : Replays config rs v) (hnone : v.lineages = [])
    (hsaid : List.Forall₂ (fun lineage r => r.Says config (.lineage lineage)) t.lineages seg) :
    Replays config (rs ++ seg) { v with lineages := t.lineages } := by
  have hstart : v = { v with lineages := [] } := by rw [← hnone]
  rw [hstart] at hreplays
  refine hreplays.segment .lineage (fun front => { v with lineages := front }) hsaid
    fun front lineage back hlineages => ⟨trivial, ?_⟩
  have hcount := h.lineageCount hmax
  have hnodup := h.lineages
  rw [hlineages] at hcount hnodup
  show ({ v with lineages := remember _ front lineage } : Durable) = _
  rw [remember, if_neg (new_of_nodup hnodup), if_neg (not_le.mpr (short_of_bound hcount))]

theorem attempt_stage (h : t.Sane config) (hreplays : Replays config rs v)
    (hnone : v.openAttempts = [])
    (hsaid : List.Forall₂ (fun id r => r.Says config (.beginAttempt id)) t.openAttempts seg) :
    Replays config (rs ++ seg) { v with openAttempts := t.openAttempts } := by
  have hstart : v = { v with openAttempts := [] } := by rw [← hnone]
  rw [hstart] at hreplays
  refine hreplays.segment .beginAttempt (fun front => { v with openAttempts := front }) hsaid
    fun front id back hattempts => ⟨?_, rfl⟩
  have hnodup := h.attempts
  rw [hattempts] at hnodup
  refine ⟨h.attemptIds id ?_, new_of_nodup hnodup⟩
  rw [hattempts]
  exact List.mem_append_right _ List.mem_cons_self

end Stages

theorem said {xs : List α} {rs : List JournalRecord} {ev : α → DurableEvent}
    (h : List.Forall₂ (fun x r => r.Keeps config (ev x)) xs rs) :
    List.Forall₂ (fun x r => r.Says config (ev x)) xs rs :=
  h.imp fun _ _ hr => hr.record

theorem fits_of_keeps {xs : List α} {rs : List JournalRecord} {ev : α → DurableEvent}
    (h : List.Forall₂ (fun x r => r.Keeps config (ev x)) xs rs) :
    ∀ r ∈ rs, r.type ≠ .count ∧ r.payload.length < 256 ^ 4 := by
  intro r hr
  induction h with
  | nil => cases hr
  | cons hfirst _ ih =>
    rcases List.mem_cons.mp hr with rfl | hr
    · exact ⟨hfirst.type, hfirst.length⟩
    · exact ih hr

theorem compactedRecords_succeeds {type : RecordType} {payload : α → Result Bytes} {xs : List α}
    (h : ∀ x ∈ xs, ∃ bytes, payload x = .ok bytes) :
    ∃ rs, s.compactedRecords type payload xs = .ok rs := by
  unfold compactedRecords
  induction xs with
  | nil => exact ⟨[], rfl⟩
  | cons x rest ih =>
    obtain ⟨bytes, hbytes⟩ := h x List.mem_cons_self
    obtain ⟨rs, hrest⟩ := ih fun y hy => h y (List.mem_cons_of_mem x hy)
    refine ⟨{ type, tick := kNoTick, epoch := s.state.epoch, payload := bytes } :: rs, ?_⟩
    rw [List.mapM_cons, hbytes]
    erw [hrest]
    rfl

/-- The payloads of a compaction fit their encoders. -/
theorem compacted_succeeds (hsane : s.durable.Sane s.config)
    (hbytes : 117 ≤ s.config.journalLimits.maxRecordBytes) : ∃ records, s.compacted = .ok records := by
  have hpolicy : ∀ p ∈ (if s.state.hasPolicy then [s.state.policy] else []), ∃ bytes,
      serializePolicy p s.config.journalLimits.maxRecordBytes = .ok bytes := by
    intro p hp
    split at hp
    case isTrue hhas =>
      rw [List.mem_singleton.mp hp]
      obtain ⟨bytes, hlength, hwrite, -⟩ := policy_codec (hsane.policy hhas)
      exact ⟨bytes, hwrite.take (le_min (by omega) (by rw [hlength]; decide))⟩
    case isFalse => cases hp
  have hfence : ∀ f ∈ s.state.fences, ∃ bytes, serializeFence f = .ok bytes := by
    intro f hf
    obtain ⟨bytes, hlength, hwrite, -⟩ := fence_codec (hsane.fences f hf)
    exact ⟨bytes, hwrite.take (by rw [hlength]; decide)⟩
  have hboot : ∀ i : Incarnation, ∃ bytes, ByteWriter.take 64 (encodeIncarnation i) = .ok bytes := by
    intro i
    obtain ⟨bytes, hlength, hwrite, -⟩ := incarnation_codec i
    exact ⟨bytes, hwrite.take (by omega)⟩
  have hbinding : ∀ t : Digest128 × Generation, ∃ bytes,
      ByteWriter.take 32 (encodeBinding t.1 t.2) = .ok bytes := fun t =>
    ⟨_, ((Appends.digest t.1).seq (Appends.u64 t.2.value)).take (by simp)⟩
  have hrequest : ∀ resource : ResourceId, ∃ bytes,
      ByteWriter.take 16 (encodeRevalidation kRevalidationRequest resource) = .ok bytes :=
    fun resource => ⟨_, ((Appends.u8 kRevalidationRequest).seq
      (Appends.u64 resource.value)).take (by simp)⟩
  unfold compacted
  obtain ⟨epochs, hepochs⟩ := @compactedRecords_succeeds s _ .epoch
    (fun v => ByteWriter.take 16 (ByteWriter.u64 v)) [s.state.epoch.value]
    fun v _ => take_u64 (by decide) v
  obtain ⟨boots, hboots⟩ := @compactedRecords_succeeds s _ .boot _
    (if s.state.bootRecorded then [s.state.incarnation] else []) fun i _ => hboot i
  obtain ⟨policies, hpolicies⟩ := @compactedRecords_succeeds s _ .policy _ _ hpolicy
  obtain ⟨bindings, hbindings⟩ := @compactedRecords_succeeds s _ .topologyBinding _
    (if s.state.hasTopologyBinding then [(s.state.topologyDigest, s.state.topologyGeneration)]
      else []) fun t _ => hbinding t
  obtain ⟨fences, hfences⟩ := @compactedRecords_succeeds s _ .fencePut _ _ hfence
  obtain ⟨required, hrequired⟩ := @compactedRecords_succeeds s _ .revalidation _
    s.state.revalidationRequired fun resource _ => hrequest resource
  obtain ⟨lineages, hlineages⟩ := @compactedRecords_succeeds s _ .lineage
    (fun lineage => ByteWriter.take 24 (ByteWriter.digest lineage)) s.state.lineages
    fun lineage _ => ⟨_, (Appends.digest lineage).take (by simp)⟩
  obtain ⟨attempts, hattempts⟩ := @compactedRecords_succeeds s _ .attemptBegin attemptPayload
    s.openAttempts fun id _ => take_u64 (by decide) _
  obtain ⟨markers, hmarkers⟩ := @compactedRecords_succeeds s _ .compaction
    (fun v => ByteWriter.take 16 (ByteWriter.u64 v)) [s.state.epoch.value]
    fun v _ => take_u64 (by decide) v
  rw [hepochs, hboots, hpolicies, hbindings, hfences, hrequired, hlineages, hattempts, hmarkers]
  exact ⟨_, rfl⟩

/-- The records of a compaction bring back what the store keeps, and fit into any journal. -/
theorem compacted_replays {records : List JournalRecord} (h : s.compacted = .ok records)
    (hsane : s.durable.Sane s.config) (hmax : 0 < s.config.maxLineages)
    (hbytes : 117 ≤ s.config.journalLimits.maxRecordBytes) :
    Replays s.config records s.durable ∧
      ∀ r ∈ records, r.type ≠ .count ∧ r.payload.length < 256 ^ 4 := by
  unfold compacted at h
  obtain ⟨epochs, hepochs, h⟩ := bind_eq_ok h
  obtain ⟨boots, hboots, h⟩ := bind_eq_ok h
  obtain ⟨policies, hpolicies, h⟩ := bind_eq_ok h
  obtain ⟨bindings, hbindings, h⟩ := bind_eq_ok h
  obtain ⟨fences, hfences, h⟩ := bind_eq_ok h
  obtain ⟨required, hrequired, h⟩ := bind_eq_ok h
  obtain ⟨lineages, hlineages, h⟩ := bind_eq_ok h
  obtain ⟨attempts, hattempts, h⟩ := bind_eq_ok h
  obtain ⟨markers, hmarkers, h⟩ := bind_eq_ok h
  cases h
  have hvalidPolicy : ∀ p ∈ (if s.state.hasPolicy then [s.state.policy] else []),
      p.validate.ok = true := by
    intro p hp
    split at hp
    case isTrue hhas =>
      rw [List.mem_singleton.mp hp]
      exact hsane.policy hhas
    case isFalse => cases hp
  -- what the records of each kind say
  have kepochs := (compactedRecords_ok hepochs).imp fun _ r hr => @keeps_epoch s.config r _ _ hr
  have kboots := (compactedRecords_ok hboots).imp fun _ r hr => @keeps_boot s.config r _ _ hr
  have kbindings := (compactedRecords_ok hbindings).imp fun _ r hr =>
    @keeps_binding s.config r _ _ hr
  have kpolicies := ((List.forall₂_and_left _ _).mpr ⟨hvalidPolicy, compactedRecords_ok hpolicies⟩).imp
    fun _ r hr => @keeps_policy s.config r _ _ _ hr.1 hbytes hr.2
  have kfences := ((List.forall₂_and_left _ _).mpr ⟨hsane.fences, compactedRecords_ok hfences⟩).imp
    fun _ r hr => @keeps_putFence s.config r _ _ hr.1 hr.2
  have krequired := (compactedRecords_ok hrequired).imp fun _ r hr =>
    @keeps_require s.config r _ _ hr
  have klineages := (compactedRecords_ok hlineages).imp fun _ r hr =>
    @keeps_lineage s.config r _ _ hr
  have kattempts := (compactedRecords_ok hattempts).imp fun _ r hr => @keeps_begin s.config r _ _ hr
  have kmarkers := (compactedRecords_ok hmarkers).imp fun _ r hr =>
    @keeps_compaction s.config r _ _ hr
  refine ⟨?_, ?_⟩
  · have r₁ : Replays s.config epochs { epoch := s.state.epoch } :=
      Replays.nil.one (said kepochs) trivial
    have r₂ := r₁.optional (said kboots) fun _ => trivial
    rw [show s.state.incarnation = s.durable.incarnation from rfl,
      show s.state.bootRecorded = s.durable.bootRecorded from rfl, boot_stage hsane rfl rfl rfl] at r₂
    have r₃ := r₂.optional (said kpolicies) fun hhas => hsane.policy hhas
    rw [show s.state.policy = s.durable.policy from rfl,
      show s.state.hasPolicy = s.durable.hasPolicy from rfl, policy_stage hsane rfl rfl] at r₃
    have r₄ := r₃.optional (said kbindings) fun _ => trivial
    rw [show s.state.topologyDigest = s.durable.topologyDigest from rfl,
      show s.state.topologyGeneration = s.durable.topologyGeneration from rfl,
      show s.state.hasTopologyBinding = s.durable.hasTopologyBinding from rfl,
      binding_stage hsane rfl rfl rfl] at r₄
    have r₅ := fence_stage hsane r₄ rfl (said kfences)
    have r₆ := required_stage hsane r₅ rfl (said krequired)
    have r₇ := lineage_stage hsane hmax r₆ rfl (said klineages)
    have r₈ := attempt_stage hsane r₇ rfl (said kattempts)
    exact r₈.one (said kmarkers) trivial
  · intro r hr
    simp only [List.mem_append] at hr
    rcases hr with (((((((hr | hr) | hr) | hr) | hr) | hr) | hr) | hr) | hr
    · exact fits_of_keeps kepochs r hr
    · exact fits_of_keeps kboots r hr
    · exact fits_of_keeps kpolicies r hr
    · exact fits_of_keeps kbindings r hr
    · exact fits_of_keeps kfences r hr
    · exact fits_of_keeps krequired r hr
    · exact fits_of_keeps klineages r hr
    · exact fits_of_keeps kattempts r hr
    · exact fits_of_keeps kmarkers r hr

/-- A compaction that succeeds keeps what is kept, in a journal that is live. -/
theorem compact_ok {s' : DurableStore} {d d' : Disk} {st : Status} (h : s.compact d = (st, s', d'))
    (hst : st.ok = true) (hreplays : Replays s.config s.journal.records s.durable)
    (hvalid : s.journal.limits.Valid) (hmax : 0 < s.config.maxLineages)
    (hbytes : 117 ≤ s.config.journalLimits.maxRecordBytes) :
    ∃ image, d' = (d.next.replace image).next.next.next ∧ s'.config = s.config ∧
      s'.durable = s.durable ∧ Replays s.config s'.journal.records s.durable ∧ s'.journal.Live d' ∧
      s'.journal.limits = s.journal.limits := by
  unfold compact at h
  cases hrecords : s.compacted with
  | error refused =>
    rw [hrecords] at h
    cases h
    obtain ⟨bytes, herror⟩ := compacted_succeeds hreplays.sane hbytes
    rw [hrecords] at herror
    cases herror
  | ok records =>
    obtain ⟨hkept, hfits⟩ := compacted_replays hrecords hreplays.sane hmax hbytes
    rw [hrecords] at h
    dsimp only at h
    rcases hrewrite : s.journal.rewrite records d with ⟨st₁, j₁, d₁⟩
    rw [hrewrite] at h
    dsimp only at h
    cases hok : st₁.ok with
    | false =>
      rw [hok, Bool.not_false, if_pos rfl] at h
      cases h
      rw [hok] at hst
      cases hst
    | true =>
      rw [hok, Bool.not_true, if_neg (by decide)] at h
      cases h
      obtain ⟨image, -, hd, hdrafts, hlive, hlimits⟩ := Journal.rewrite_ok hrewrite hok hvalid
        (fun r hr => (hfits r hr).1) fun r hr => (hfits r hr).2
      exact ⟨image, hd, rfl, rfl, hkept.congr hdrafts.symm, hlive, hlimits⟩

end DurableStore

end Backpressure
