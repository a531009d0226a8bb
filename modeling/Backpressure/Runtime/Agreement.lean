import Backpressure.Engine.Probe
import Backpressure.Engine.Rehearsal
import Backpressure.Runtime.Fabric
import Backpressure.Store.Mutators

/-!
# Publishing is never an internal error

What a publish plans is what it commits, and no failure of the journal is reported as an internal
error; so the check of the two fingerprints never fails.
-/

namespace Backpressure

/-! ## The codes of the store -/

namespace Journal

variable {j : Journal} {d : Disk}

theorem checkAppend_code {type : RecordType} {payload : Bytes} :
    (j.checkAppend type payload).code ≠ .internal := by
  unfold checkAppend
  split_ifs <;> simp [Status.error, Status.success]

theorem sync_code : (j.sync d).1.code ≠ .internal := by
  unfold sync
  split
  · simp [Status.error]
  · unfold Disk.sync
    split <;> simp [Status.error, Status.success]

end Journal

namespace DurableStore

variable {s s' : DurableStore} {d d' : Disk} {st : Status} {now : Tick}

theorem write_code {type : RecordType} {epoch : Epoch} {payload : Result Bytes} {sync : Bool}
    {effect : DurableStore → Status × DurableStore}
    (h : s.write type now epoch payload sync effect d = (st, s', d'))
    (hpayload : ∃ bytes, payload = .ok bytes)
    (heffect : ∀ s : DurableStore, (effect s).1.code ≠ .internal) : st.code ≠ .internal := by
  obtain ⟨bytes, hbytes⟩ := hpayload
  cases write_cases h with
  | unencoded herror =>
    rw [hbytes] at herror
    cases herror
  | refused => exact Journal.checkAppend_code
  | torn => simp [Status.error]
  | @unsynced written _ _ _ _ _ _ hsync _ =>
    have hcode := @Journal.sync_code (s.logged type now epoch written).journal
      (d.next.write (s.journal.nextRecord type now epoch written).encode)
    rwa [hsync] at hcode
  | written => exact heffect _

theorem withEpoch_code {next : Status × DurableStore × Disk}
    (h : s.withEpoch d next = (st, s', d')) (hnext : next = (st, s', d') → st.code ≠ .internal) :
    st.code ≠ .internal := by
  unfold withEpoch at h
  split at h
  · cases h
    simp [Status.error]
  · exact hnext h

theorem succeed_code {f : DurableStore → DurableStore} (s : DurableStore) :
    (succeed f s).1.code ≠ .internal := by
  simp [succeed, Status.success]

theorem beginAttempt_code {id : AttemptId} (h : s.beginAttempt id now d = (st, s', d')) :
    st.code ≠ .internal := by
  unfold beginAttempt at h
  split at h
  · cases h
    simp [Status.error]
  · refine withEpoch_code h fun h => ?_
    split at h
    · cases h
      simp [Status.error]
    · exact write_code h (take_u64 (by decide) _) succeed_code

theorem recordLineage_code {lineage : Digest128}
    (h : s.recordLineage lineage now d = (st, s', d')) : st.code ≠ .internal := by
  unfold recordLineage at h
  split at h
  · cases h
    simp [Status.error]
  · refine withEpoch_code h fun h => ?_
    exact write_code h ⟨_, (Appends.digest lineage).take (by simp)⟩ succeed_code

theorem commitAttempt_code {id : AttemptId} (h : s.commitAttempt id now d = (st, s', d')) :
    st.code ≠ .internal := by
  unfold commitAttempt at h
  split at h
  · cases h
    simp [Status.error]
  · exact write_code h (take_u64 (by decide) _) succeed_code

end DurableStore

namespace Fabric

variable {F : Fabric} {d : Disk} {pq : EntryQueue} {request : PropagationRequest}
  {planned : PropagationOutcome}

theorem recordLineages_code {attempt : AttemptId} {now : Tick} {lineages : List Digest128}
    {s s' : DurableStore} {d' : Disk} {st : Status}
    (h : recordLineages attempt now lineages s d = (st, s', d')) : st.code ≠ .internal := by
  induction lineages generalizing s d with
  | nil =>
    cases h
    simp [Status.success]
  | cons lineage rest ih =>
    unfold recordLineages at h
    rcases hone : s.recordLineage lineage now d with ⟨st₁, s₁, d₁⟩
    rw [hone] at h
    dsimp only at h
    split at h
    · cases h
      exact DurableStore.recordLineage_code hone
    · exact ih h

theorem recordIntent_code {attempt : AttemptId} {lineages : List Digest128} {now : Tick}
    {s s' : DurableStore} {d' : Disk} {st : Status}
    (h : recordIntent attempt lineages now s d = (st, s', d')) : st.code ≠ .internal := by
  unfold recordIntent at h
  rcases hbegin : s.beginAttempt attempt now d with ⟨st₁, s₁, d₁⟩
  rw [hbegin] at h
  dsimp only at h
  split at h
  · cases h
    exact DurableStore.beginAttempt_code hbegin
  · exact recordLineages_code h

/-! ## The durable part of a publish -/

/-- The plan is what a dry run on the ledger of the fabric decides. -/
def Planned (pq : EntryQueue) (F : Fabric) (request : PropagationRequest)
    (planned : PropagationOutcome) : Prop :=
  planned = (PropagationEngine.propagate pq F.context { request with dryRun := true }).1

/-- A dry run leaves the fabric as it is. -/
theorem propagate_dryRun :
    F.propagate pq { request with dryRun := true } =
      ((PropagationEngine.propagate pq F.context { request with dryRun := true }).1, F) := by
  have hkeeps := PropagationEngine.dryRun_keeps pq F.context request
  unfold propagate
  rcases hrun : PropagationEngine.propagate pq F.context { request with dryRun := true } with ⟨o, l⟩
  rw [hrun] at hkeeps
  dsimp only at hkeeps ⊢
  rw [hkeeps]
  rfl

/-- An ending that is not an internal error. -/
def Ending.Sound : Ending → Prop
  | .refused st | .uncommitted st => st.code ≠ .internal
  | .mismatch => False
  | .failed _ | .done _ => True

/-- A run that succeeds has the fingerprint of its plan. -/
theorem apply_sound {attempt : Option AttemptId} (hplanned : Planned pq F request planned) :
    (F.apply pq attempt request planned d).1.Sound := by
  have hrun := PropagationEngine.run_agrees pq F.context request
  unfold Planned at hplanned
  rw [← hplanned] at hrun
  unfold apply propagate
  rcases hpropagate : PropagationEngine.propagate pq F.context { request with dryRun := false } with
    ⟨outcome, l⟩
  rw [hpropagate] at hrun
  dsimp only at hrun ⊢
  split
  · trivial
  case isFalse hok =>
    have hagree := hrun (by simpa using hok)
    rw [if_neg (by rw [hagree.fingerprint]; simp)]
    split
    case h_1 id store _ =>
      rcases hcommit : store.commitAttempt id request.now d with ⟨st, store', d'⟩
      dsimp only
      split
      · exact DurableStore.commitAttempt_code hcommit
      · trivial
    · trivial

theorem transact_sound {durableIntent : Bool} {ending : Ending} {F' : Fabric} {d' : Disk}
    (h : F.transact pq request planned durableIntent d = (ending, F', d'))
    (hplanned : Planned pq F request planned) : ending.Sound := by
  suffices (F.transact pq request planned durableIntent d).1.Sound by rwa [h] at this
  unfold transact
  split
  · exact apply_sound hplanned
  case h_2 store _ =>
    split
    · unfold draw
      rcases hintent : recordIntent ⟨F.attempts⟩ (request.signals.map PressureSignal.lineage)
        request.now store d with ⟨st, store', d'⟩
      dsimp only
      rw [hintent]
      dsimp only
      split
      · exact recordIntent_code hintent
      · exact apply_sound hplanned
    · exact apply_sound hplanned

/-! ## Publishing -/

theorem fail_code {α : Type} {code : ErrorCode} {context : String} {detail : Nat} {st : Status}
    (h : (fail code context detail : Result α) = .error st) (hcode : code ≠ .internal) :
    st.code ≠ .internal := by
  cases h
  exact hcode

theorem publishLocked_code {signal : PressureSignal} {now : Tick} {durableIntent cancelFlag : Bool}
    {st : Status}
    (h : (F.publishLocked pq signal now durableIntent cancelFlag d).1 = .error st) :
    st.code ≠ .internal := by
  unfold publishLocked at h
  split at h
  · exact fail_code h (by decide)
  split at h
  case h_2 => exact fail_code h (by decide)
  split at h
  · exact fail_code h (by decide)
  split at h
  · exact fail_code h (by decide)
  split at h
  · exact fail_code h (by decide)
  split at h
  · exact fail_code h (by decide)
  split at h
  · exact fail_code h (by decide)
  unfold draw at h
  dsimp only at h
  rw [propagate_dryRun] at h
  dsimp only at h
  split at h
  · cases h
  split at h
  · cases h
  split at h
  case h_1 htransact =>
    have hsound := transact_sound htransact rfl
    cases h
    exact hsound
  case h_2 => cases h
  case h_3 htransact =>
    have hsound := transact_sound htransact rfl
    exact hsound.elim
  case h_4 htransact =>
    have hsound := transact_sound htransact rfl
    cases h
    exact hsound
  case h_5 => cases h

theorem checkPublishers_code {signals : List PressureSignal} :
    (F.checkPublishers signals).code ≠ .internal := by
  induction signals with
  | nil => simp [checkPublishers, Status.success]
  | cons signal rest ih =>
    unfold checkPublishers Status.andThen
    split
    · exact ih
    · unfold checkPublisher
      split
      · simp [Status.error]
      · split_ifs <;> simp [Status.error, Status.success]

theorem publishBatch_code {signals : List PressureSignal} {now : Tick} {st : Status}
    (h : (F.publishBatch pq signals now d).1 = .error st) : st.code ≠ .internal := by
  unfold publishBatch at h
  split at h
  · exact fail_code h (by decide)
  split at h
  case h_2 => exact fail_code h (by decide)
  split at h
  · exact fail_code h (by decide)
  split at h
  · cases h
    exact checkPublishers_code
  unfold draw at h
  dsimp only at h
  rw [propagate_dryRun] at h
  dsimp only at h
  split at h
  · cases h
  split at h
  case h_1 htransact =>
    have hsound := transact_sound htransact rfl
    cases h
    exact hsound
  case h_2 => cases h
  case h_3 htransact => exact (transact_sound htransact rfl).elim
  case h_4 htransact =>
    have hsound := transact_sound htransact rfl
    cases h
    exact hsound
  case h_5 => cases h

/-! ## Plan and commit -/

/-- A dry run leaves the ledger as it is and reports what the run after it reports; so publishing
never ends in an internal error. -/
theorem plan_and_commit_agree :
    (∀ (pq : EntryQueue) (ctx : EngineContext) (request : PropagationRequest),
      let dry := PropagationEngine.propagate pq ctx { request with dryRun := true }
      let run := PropagationEngine.propagate pq { ctx with ledger := dry.2 }
        { request with dryRun := false }
      dry.2 = ctx.ledger ∧
        (run.1.status.ok = true → PropagationEngine.Agrees run.1 dry.1)) ∧
    (∀ (pq : EntryQueue) (F : Fabric) (signal : PressureSignal) (now : Tick)
      (durableIntent cancelFlag : Bool) (d : Disk) (st : Status),
      (F.publishLocked pq signal now durableIntent cancelFlag d).1 = .error st →
        st.code ≠ .internal) ∧
    (∀ (pq : EntryQueue) (F : Fabric) (signal : PressureSignal) (now : Tick) (d : Disk)
      (st : Status), (F.publish pq signal now d).1 = .error st → st.code ≠ .internal) ∧
    ∀ (pq : EntryQueue) (F : Fabric) (signals : List PressureSignal) (now : Tick) (d : Disk)
      (st : Status), (F.publishBatch pq signals now d).1 = .error st → st.code ≠ .internal := by
  refine ⟨fun pq ctx request => ?_, fun _ _ _ _ _ _ _ _ => publishLocked_code,
    fun _ _ _ _ _ _ => publishLocked_code, fun _ _ _ _ _ _ => publishBatch_code⟩
  have hkeeps := PropagationEngine.dryRun_keeps pq ctx request
  refine ⟨hkeeps, fun hok => ?_⟩
  rw [hkeeps] at hok ⊢
  exact PropagationEngine.run_agrees pq ctx request hok

/-- A committed run along one edge reports what its plan reports. -/
theorem edge_plan_committed :
    let topo := probeTopology [probeResource ⟨1⟩, probeResource ⟨2⟩] [probeEdge ⟨1⟩ ⟨1⟩ ⟨2⟩]
    let ctx := EngineContext.of topo probePolicy (.make 4 4 4) none probeEpoch
    let request := probeRequest probePolicy topo ⟨1⟩ 5
    let dry := PropagationEngine.propagate .scan ctx { request with dryRun := true }
    let run := PropagationEngine.propagate .scan { ctx with ledger := dry.2 }
      { request with dryRun := false }
    dry.2 = ctx.ledger ∧ PropagationEngine.Agrees run.1 dry.1 := by
  intro topo ctx request dry run
  obtain ⟨hkeeps, hagrees⟩ := plan_and_commit_agree.1 .scan ctx request
  exact ⟨hkeeps, hagrees (by decide +kernel)⟩

end Fabric

end Backpressure
