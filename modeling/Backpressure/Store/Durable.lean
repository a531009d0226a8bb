import Backpressure.Store.Codecs

/-!
# What a store keeps

The durable state without its counters, and the events that change it. A record of the journal says
an event: wherever the event is possible, the replay of the record does it. What a change of the
store does and what the replay of its record does meet in the event.
-/

namespace Backpressure

open Lib (LittleEndian.encode)

/-- Everything that a journal has to bring back. -/
@[ext] structure Durable where
  epoch : Epoch := {}
  boot : BootId := {}
  incarnation : Incarnation := {}
  bootRecorded : Bool := false
  hasPolicy : Bool := false
  policy : PropagationPolicy := {}
  hasTopologyBinding : Bool := false
  topologyDigest : Digest128 := {}
  topologyGeneration : Generation := {}
  fences : List Fence := []
  lineages : List Digest128 := []
  revalidationRequired : List ResourceId := []
  openAttempts : List AttemptId := []
  deriving DecidableEq

def DurableStore.durable (s : DurableStore) : Durable where
  epoch := s.state.epoch
  boot := s.state.boot
  incarnation := s.state.incarnation
  bootRecorded := s.state.bootRecorded
  hasPolicy := s.state.hasPolicy
  policy := s.state.policy
  hasTopologyBinding := s.state.hasTopologyBinding
  topologyDigest := s.state.topologyDigest
  topologyGeneration := s.state.topologyGeneration
  fences := s.state.fences
  lineages := s.state.lineages
  revalidationRequired := s.state.revalidationRequired
  openAttempts := s.openAttempts

inductive DurableEvent
  | epoch (e : Epoch)
  | boot (i : Incarnation)
  | policy (p : PropagationPolicy)
  | binding (digest : Digest128) (generation : Generation)
  | putFence (f : Fence)
  | removeFence (id : FenceId)
  | lineage (lineage : Digest128)
  | require (resource : ResourceId)
  | release (resource : ResourceId)
  | footprint (entries : List (SourceId × ResourceId))
  | beginAttempt (id : AttemptId)
  /-- The attempt is committed or aborted. -/
  | closeAttempt (id : AttemptId)
  | compaction

/-- A lineage at the back of a queue that forgets its oldest when it is full. -/
def remember (maxLineages : Nat) (lineages : List Digest128) (lineage : Digest128) :
    List Digest128 :=
  if lineage ∈ lineages then lineages
  else if maxLineages ≤ lineages.length then lineages.tail ++ [lineage]
  else lineages ++ [lineage]

/-- A resource at the end of a list that refuses when it is full. -/
def enlist (maxEntries : Nat) (resources : List ResourceId) (resource : ResourceId) :
    List ResourceId :=
  if resource ∈ resources then resources
  else if maxEntries ≤ resources.length then resources
  else resources ++ [resource]

/-- A fence in the place of the one with its identity, or at the end. -/
def putFences (fences : List Fence) (f : Fence) : List Fence :=
  if fences.any fun existing => existing.id == f.id then
    fences.replaceF fun existing => if existing.id = f.id then some f else none
  else fences ++ [f]

namespace DurableEvent

/-- When an event can be done. -/
def Possible (config : DurableConfig) : DurableEvent → Durable → Prop
  | policy p, _ => p.validate.ok = true
  | putFence f, v =>
    f.validate.ok = true ∧
      ((v.fences.any fun existing => existing.id == f.id) = true ∨ v.fences.length < kMaxFences)
  | removeFence id, v => id.valid = true ∧ (v.fences.any fun f => f.id == id) = true
  | require resource, _ => resource.valid = true
  | release resource, _ => resource.valid = true
  | footprint entries, _ =>
    entries.length ≤ config.maxFootprintEntries ∧ entries.length < UInt32.size ∧
      ∀ e ∈ entries, e.1.valid = true ∧ e.2.valid = true
  | beginAttempt id, v => id.valid = true ∧ id ∉ v.openAttempts
  | closeAttempt id, v => id.valid = true ∧ id ∈ v.openAttempts
  | _, _ => True

/-- What an event does. -/
def apply (config : DurableConfig) : DurableEvent → Durable → Durable
  | epoch e, v => { v with epoch := e }
  | boot i, v => { v with boot := i.boot, incarnation := i, bootRecorded := true }
  | policy p, v => { v with policy := p, hasPolicy := true }
  | binding digest generation, v =>
    { v with
      topologyDigest := digest, topologyGeneration := generation, hasTopologyBinding := true }
  | putFence f, v => { v with fences := putFences v.fences f }
  | removeFence id, v => { v with fences := v.fences.eraseP fun f => f.id == id }
  | lineage l, v => { v with lineages := remember config.maxLineages v.lineages l }
  | require resource, v =>
    { v with
      revalidationRequired :=
        enlist config.maxFootprintEntries v.revalidationRequired resource }
  | release resource, v =>
    { v with revalidationRequired := v.revalidationRequired.erase resource }
  | footprint entries, v =>
    { v with
      revalidationRequired := (entries.map Prod.snd).foldl (enlist config.maxFootprintEntries)
        v.revalidationRequired }
  | beginAttempt id, v => { v with openAttempts := v.openAttempts ++ [id] }
  | closeAttempt id, v => { v with openAttempts := v.openAttempts.erase id }
  | compaction, v => v

end DurableEvent

/-- The record does the event wherever the event is possible. -/
def JournalRecord.Says (config : DurableConfig) (r : JournalRecord) (ev : DurableEvent) : Prop :=
  ∀ s : DurableStore, s.config = config → ev.Possible config s.durable →
    ∃ s' : DurableStore, s.applyRecord r = .ok s' ∧ s'.config = config ∧ s'.journal = s.journal ∧
      s'.durable = ev.apply config s.durable

namespace DurableStore

variable {config : DurableConfig} {s s' : DurableStore} {r : JournalRecord}

theorem applyRecord_of_ends (h : Ends (readEffect s r) r.payload s') : s.applyRecord r = .ok s' :=
  h.decode

/-! ## What the records say -/

theorem says_epoch (htype : r.type = .epoch) : r.Says config (.epoch r.epoch) := by
  intro s hconfig _
  refine ⟨{ s with state := { s.state with previousEpoch := s.state.epoch, epoch := r.epoch } },
    ?_, hconfig, rfl, rfl⟩
  unfold applyRecord readEffect
  rw [htype]
  rfl

theorem says_compaction {epoch : UInt64} {n : Nat} (hn : 8 ≤ n) (htype : r.type = .compaction)
    (h : ByteWriter.take n (ByteWriter.u64 epoch) = .ok r.payload) : r.Says config .compaction := by
  intro s hconfig _
  have hpayload := (Appends.u64 epoch).eq_of_take (by simpa using hn) h
  refine ⟨{ s with state := { s.state with previousEpoch := ⟨epoch⟩ } },
    applyRecord_of_ends ?_, hconfig, rfl, rfl⟩
  unfold readEffect
  rw [htype, hpayload]
  exact Ends.last (.u64 epoch) <| Ends.expectEnd (.pure _)

theorem says_boot {i : Incarnation} (htype : r.type = .boot)
    (h : ByteWriter.take 64 (encodeIncarnation i) = .ok r.payload) : r.Says config (.boot i) := by
  intro s hconfig _
  obtain ⟨bytes, hlength, hwrite, hread⟩ := incarnation_codec i
  have hpayload := hwrite.eq_of_take (by omega) h
  refine ⟨{ s with
      state := { s.state with boot := i.boot, incarnation := i, bootRecorded := true } },
    applyRecord_of_ends ?_, hconfig, rfl, rfl⟩
  unfold readEffect
  rw [htype, hpayload]
  exact hread.andThen fun rest => ⟨rest, rfl⟩

theorem says_policy {p : PropagationPolicy} {n : Nat} (hn : 117 ≤ n) (htype : r.type = .policy)
    (h : serializePolicy p n = .ok r.payload) : r.Says config (.policy p) := by
  intro s hconfig hvalid
  obtain ⟨bytes, hlength, hwrite, hread⟩ := policy_codec hvalid
  have hpayload := hwrite.eq_of_take (le_min (by omega) (by rw [hlength]; decide)) h
  refine ⟨{ s with state := { s.state with policy := p, hasPolicy := true } },
    applyRecord_of_ends ?_, hconfig, rfl, rfl⟩
  unfold readEffect
  rw [htype, hpayload]
  exact hread.andThen fun rest => ⟨rest, rfl⟩

theorem says_binding {digest : Digest128} {generation : Generation} (htype : r.type = .topologyBinding)
    (h : ByteWriter.take 32 (encodeBinding digest generation) = .ok r.payload) :
    r.Says config (.binding digest generation) := by
  intro s hconfig _
  have hwrite : Appends (encodeBinding digest generation) _ :=
    (Appends.digest digest).seq (Appends.u64 generation.value)
  have hpayload := hwrite.eq_of_take (by simp) h
  refine ⟨{ s with
      state := { s.state with
        topologyDigest := digest, topologyGeneration := generation, hasTopologyBinding := true } },
    applyRecord_of_ends ?_, hconfig, rfl, rfl⟩
  unfold readEffect
  rw [htype, hpayload]
  exact Ends.bind (.digest digest) <| Ends.last (.u64 generation.value) <| Ends.expectEnd (.pure _)

theorem putFence_ok {s : RecoveredState} {f : Fence} {context : String}
    (h : (s.fences.any fun existing => existing.id == f.id) = true ∨
      s.fences.length < kMaxFences) :
    s.putFence f context = .ok { s with fences := putFences s.fences f } := by
  unfold RecoveredState.putFence putFences
  by_cases hany : (s.fences.any fun existing => existing.id == f.id) = true
  · rw [if_pos hany, if_pos hany]
  · rw [if_neg hany, if_neg hany, if_neg (not_le.mpr (h.resolve_left hany))]

theorem says_putFence {f : Fence} (htype : r.type = .fencePut)
    (h : serializeFence f = .ok r.payload) : r.Says config (.putFence f) := by
  intro s hconfig ⟨hvalid, hroom⟩
  obtain ⟨bytes, hlength, hwrite, hread⟩ := fence_codec hvalid
  have hpayload := hwrite.eq_of_take (by rw [hlength]; decide) h
  refine ⟨{ s with state := { s.state with fences := putFences s.state.fences f } },
    applyRecord_of_ends ?_, hconfig, rfl, rfl⟩
  unfold readEffect
  rw [htype, hpayload]
  refine hread.andThen fun rest => ⟨rest, ?_⟩
  rw [putFence_ok hroom]
  rfl

theorem says_removeFence {id : FenceId} (htype : r.type = .fenceRemove)
    (h : ByteWriter.take 16 (ByteWriter.u64 id.value) = .ok r.payload) :
    r.Says config (.removeFence id) := by
  intro s hconfig ⟨hvalid, hany⟩
  have hpayload := (Appends.u64 id.value).eq_of_take (by simp) h
  refine ⟨{ s with state := s.state.eraseFence id }, applyRecord_of_ends ?_, hconfig, rfl, rfl⟩
  unfold readEffect
  rw [htype, hpayload]
  exact Ends.last (.id hvalid) <| Ends.step (.refuse (not_not.mpr hany)) <| Ends.expectEnd (.pure _)

theorem lineages_rememberLineage {s : RecoveredState} {maxLineages : Nat} {lineage : Digest128} :
    (s.rememberLineage maxLineages lineage).lineages = remember maxLineages s.lineages lineage := by
  unfold RecoveredState.rememberLineage remember
  split_ifs <;> rfl

/-- A lineage touches the queue and its counter only. -/
theorem durable_rememberLineage {maxLineages : Nat} {lineage : Digest128} :
    { s with state := s.state.rememberLineage maxLineages lineage }.durable =
      { s.durable with lineages := remember maxLineages s.state.lineages lineage } := by
  unfold RecoveredState.rememberLineage remember
  split_ifs <;> rfl

theorem says_lineage {lineage : Digest128} (htype : r.type = .lineage)
    (h : ByteWriter.take 24 (ByteWriter.digest lineage) = .ok r.payload) :
    r.Says config (.lineage lineage) := by
  intro s hconfig _
  have hpayload := (Appends.digest lineage).eq_of_take (by simp) h
  refine ⟨{ s with state := s.state.rememberLineage s.config.maxLineages lineage },
    applyRecord_of_ends ?_, hconfig, rfl, ?_⟩
  · unfold readEffect
    rw [htype, hpayload]
    exact Ends.last (.digest lineage) (.pure _)
  · rw [durable_rememberLineage, hconfig]
    rfl

theorem says_begin {id : AttemptId} (htype : r.type = .attemptBegin)
    (h : attemptPayload id = .ok r.payload) : r.Says config (.beginAttempt id) := by
  intro s hconfig ⟨hvalid, hnew⟩
  have hpayload := (Appends.u64 id.value).eq_of_take (by simp) h
  refine ⟨{ s with openAttempts := s.openAttempts ++ [id] }, applyRecord_of_ends ?_, hconfig, rfl,
    rfl⟩
  unfold readEffect
  rw [htype, hpayload]
  exact Ends.last (.id hvalid) <| Ends.step (.refuse hnew) <| Ends.expectEnd (.pure _)

theorem says_commit {id : AttemptId} (htype : r.type = .attemptCommit)
    (h : attemptPayload id = .ok r.payload) : r.Says config (.closeAttempt id) := by
  intro s hconfig ⟨hvalid, hopen⟩
  have hpayload := (Appends.u64 id.value).eq_of_take (by simp) h
  refine ⟨{ s with
      openAttempts := s.openAttempts.erase id
      state := { s.state with attemptsCommitted := s.state.attemptsCommitted + 1 } },
    applyRecord_of_ends ?_, hconfig, rfl, rfl⟩
  unfold readEffect
  rw [htype, hpayload]
  exact Ends.last (.id hvalid) <| Ends.step (.refuse (not_not.mpr hopen)) <|
    Ends.expectEnd (.pure _)

theorem says_abort {id : AttemptId} (htype : r.type = .attemptAbort)
    (h : attemptPayload id = .ok r.payload) : r.Says config (.closeAttempt id) := by
  intro s hconfig ⟨hvalid, hopen⟩
  have hpayload := (Appends.u64 id.value).eq_of_take (by simp) h
  refine ⟨{ s with
      openAttempts := s.openAttempts.erase id
      state := { s.state with attemptsAborted := s.state.attemptsAborted + 1 } },
    applyRecord_of_ends ?_, hconfig, rfl, rfl⟩
  unfold readEffect
  rw [htype, hpayload]
  exact Ends.last (.id hvalid) <| Ends.step (.refuse (not_not.mpr hopen)) <|
    Ends.expectEnd (.pure _)

/-- What the replay of a request makes of the state. -/
def requested (maxEntries : Nat) (s : RecoveredState) (resource : ResourceId) : RecoveredState :=
  if resource ∈ s.revalidationRequired then s
  else if maxEntries ≤ s.revalidationRequired.length then
    { s with footprintOverflow := s.footprintOverflow + 1 }
  else { s with revalidationRequired := s.revalidationRequired ++ [resource] }

theorem says_require {resource : ResourceId} (htype : r.type = .revalidation)
    (h : ByteWriter.take 16 (encodeRevalidation kRevalidationRequest resource) = .ok r.payload) :
    r.Says config (.require resource) := by
  intro s hconfig hvalid
  have hwrite : Appends (encodeRevalidation kRevalidationRequest resource) _ :=
    (Appends.u8 kRevalidationRequest).seq (Appends.u64 resource.value)
  have hpayload := hwrite.eq_of_take (by simp) h
  refine ⟨{ s with state := requested s.config.maxFootprintEntries s.state resource },
    applyRecord_of_ends ?_, hconfig, rfl, ?_⟩
  · have hread : Ends (readRevalidation s.config.maxFootprintEntries s.state) r.payload
        (requested s.config.maxFootprintEntries s.state resource) := by
      rw [hpayload]
      refine Ends.bind (.u8 _) ?_
      rw [if_pos (.inl rfl)]
      refine Ends.last (.id hvalid) ?_
      rw [if_neg (by decide)]
      unfold requested
      by_cases hmem : resource ∈ s.state.revalidationRequired
      · rw [if_pos hmem, if_pos hmem]
        exact Ends.expectEnd (.pure _)
      · rw [if_neg hmem, if_neg hmem]
        by_cases hfull : s.config.maxFootprintEntries ≤ s.state.revalidationRequired.length
        · rw [if_pos hfull, if_pos hfull]
          exact .pure _
        · rw [if_neg hfull, if_neg hfull]
          exact Ends.expectEnd (.pure _)
    unfold readEffect
    rw [htype]
    exact hread.andThen fun rest => ⟨rest, rfl⟩
  · rw [← hconfig]
    unfold requested DurableEvent.apply enlist durable
    dsimp only
    split_ifs <;> rfl

theorem says_release {resource : ResourceId} (htype : r.type = .revalidation)
    (h : ByteWriter.take 16 (encodeRevalidation kRevalidationClear resource) = .ok r.payload) :
    r.Says config (.release resource) := by
  intro s hconfig hvalid
  have hwrite : Appends (encodeRevalidation kRevalidationClear resource) _ :=
    (Appends.u8 kRevalidationClear).seq (Appends.u64 resource.value)
  have hpayload := hwrite.eq_of_take (by simp) h
  refine ⟨{ s with
      state := { s.state with
        revalidationRequired := s.state.revalidationRequired.erase resource } },
    applyRecord_of_ends ?_, hconfig, rfl, rfl⟩
  have hread : Ends (readRevalidation s.config.maxFootprintEntries s.state) r.payload
      { s.state with revalidationRequired := s.state.revalidationRequired.erase resource } := by
    rw [hpayload]
    refine Ends.bind (.u8 _) ?_
    rw [if_pos (.inr rfl)]
    refine Ends.last (.id hvalid) ?_
    rw [if_pos rfl]
    exact Ends.expectEnd (.pure _)
  unfold readEffect
  rw [htype]
  exact hread.andThen fun rest => ⟨rest, rfl⟩

/-! ### Footprints -/

/-- The bytes of the entries of a footprint. -/
def entryBytes (entries : List (SourceId × ResourceId)) : Bytes :=
  entries.flatMap fun e =>
    LittleEndian.encode 8 e.1.value.toNat ++ LittleEndian.encode 8 e.2.value.toNat

theorem length_entryBytes (entries : List (SourceId × ResourceId)) :
    (entryBytes entries).length = entries.length * 16 := by
  induction entries with
  | nil => rfl
  | cons e rest ih =>
    rw [entryBytes, List.flatMap_cons, List.length_append, ← entryBytes, ih]
    simp only [List.length_append, Lib.LittleEndian.length_encode, List.length_cons]
    omega

theorem appends_entries (entries : List (SourceId × ResourceId)) :
    Appends (entries.forM fun e => do
      ByteWriter.u64 e.1.value
      ByteWriter.u64 e.2.value) (entryBytes entries) := by
  induction entries with
  | nil =>
    intro w _
    rw [entryBytes, List.flatMap_nil, List.append_nil]
    rfl
  | cons e rest ih =>
    rw [entryBytes, List.flatMap_cons]
    exact ((Appends.u64 e.1.value).seq (Appends.u64 e.2.value)).seq ih

/-- The replay of the entries of a footprint. -/
def requireEntries (maxEntries : Nat) (entries : List (SourceId × ResourceId)) (s : RecoveredState) :
    RecoveredState :=
  entries.foldl (fun s e => s.requireFootprint maxEntries e.2) s

/-- The state after the entries of a footprint. -/
theorem reads_footprint {maxEntries : Nat} {entries : List (SourceId × ResourceId)}
    (h : ∀ e ∈ entries, e.1.valid = true ∧ e.2.valid = true) (s : RecoveredState) :
    Reads (readFootprint maxEntries entries.length s) (entryBytes entries)
      (requireEntries maxEntries entries s) := by
  induction entries generalizing s with
  | nil => exact .pure s
  | cons e rest ih =>
    obtain ⟨hsource, hresource⟩ := h e List.mem_cons_self
    rw [entryBytes, List.flatMap_cons, List.append_assoc]
    refine Reads.bind (.u64 _) <| Reads.bind (.u64 _) <|
      Reads.step (.accept (StrongId.fromU64_value hsource)) <|
      Reads.step (.accept (StrongId.fromU64_value hresource)) ?_
    exact ih (fun e' he' => h e' (List.mem_cons_of_mem e he')) _

theorem durable_requireEntries {maxEntries : Nat} (entries : List (SourceId × ResourceId))
    (s : DurableStore) :
    { s with state := requireEntries maxEntries entries s.state }.durable =
      { s.durable with
        revalidationRequired := (entries.map Prod.snd).foldl (enlist maxEntries)
          s.state.revalidationRequired } := by
  induction entries generalizing s with
  | nil => rfl
  | cons e rest ih =>
    have hstep := ih { s with state := s.state.requireFootprint maxEntries e.2 }
    rw [requireEntries, List.foldl_cons, ← requireEntries, List.map_cons, List.foldl_cons]
    refine hstep.trans ?_
    have hone : (s.state.requireFootprint maxEntries e.2).revalidationRequired =
        enlist maxEntries s.state.revalidationRequired e.2 := by
      unfold RecoveredState.requireFootprint enlist
      split_ifs <;> rfl
    dsimp only
    rw [hone]
    unfold RecoveredState.requireFootprint durable
    split_ifs <;> rfl

theorem says_footprint {entries : List (SourceId × ResourceId)} {n : Nat}
    (hn : 5 + entries.length * 16 ≤ n) (htype : r.type = .revalidation)
    (h : ByteWriter.take n (encodeFootprint entries) = .ok r.payload) :
    r.Says config (.footprint entries) := by
  intro s hconfig ⟨hmax, hsize, hvalid⟩
  have hwrite : Appends (encodeFootprint entries) _ :=
    (Appends.u8 kRevalidationFootprint).seq <| (Appends.u32 (.ofNat entries.length)).seq <|
      appends_entries entries
  have hcount : (UInt32.ofNat entries.length).toNat = entries.length :=
    UInt32.toNat_ofNat_of_lt' hsize
  have hlength := length_entryBytes entries
  have hpayload := hwrite.eq_of_take (by
    simp only [List.length_append, Lib.LittleEndian.length_encode]
    omega) h
  refine ⟨{ s with
      state := { requireEntries s.config.maxFootprintEntries entries s.state with
        footprintEntries := (requireEntries s.config.maxFootprintEntries entries
          s.state).revalidationRequired.length } }, applyRecord_of_ends ?_, hconfig, rfl, ?_⟩
  · have hread : Ends (readRevalidation s.config.maxFootprintEntries s.state) r.payload
        { requireEntries s.config.maxFootprintEntries entries s.state with
          footprintEntries := (requireEntries s.config.maxFootprintEntries entries
            s.state).revalidationRequired.length } := by
      rw [hpayload]
      refine Ends.bind (.u8 _) ?_
      rw [if_neg (by decide), if_pos rfl]
      refine Ends.bind (.u32 _) ?_
      rw [hcount]
      refine Ends.step (.refuse (by rw [hconfig]; exact not_lt.mpr hmax)) ?_
      exact Ends.last (reads_footprint hvalid s.state) <| Ends.expectEnd (.pure _)
    unfold readEffect
    rw [htype]
    exact hread.andThen fun rest => ⟨rest, rfl⟩
  · have hkept := @durable_requireEntries s.config.maxFootprintEntries entries s
    rw [hconfig] at hkept ⊢
    exact hkept

end DurableStore

end Backpressure
