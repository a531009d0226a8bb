import Backpressure.Lib.Recent
import Backpressure.Engine.Evidence
import Backpressure.Engine.Removal
import Backpressure.Runtime.Fences
import Backpressure.Runtime.Refused
import Backpressure.Store.Epochs

/-!
# The lineages that a publish records

The store is given the lineage of every signal of a publish before the engine has run; the ledger
marks those that traverse. A lineage that the store has taken stays in its queue when the attempt is
given up.
-/

namespace Lib.Window

variable {α : Type} [DecidableEq α] {w : Window α} {a : α} {l : List α}

/-- New elements that fit into the window all stay, beside those that came in before them. -/
theorem subset_foldl_mark {front back : List α} (hq : w.queue = front ++ back)
    (hnew : ∀ a ∈ l, a ∉ front) (hfit : (back ++ l).toFinset.card ≤ w.capacity) :
    back ++ l ⊆ (l.foldl mark w).queue := by
  induction l generalizing w front back with
  | nil =>
    rw [List.append_nil, List.foldl_nil, hq]
    exact List.subset_append_right front back
  | cons x rest ih =>
    rw [List.foldl_cons]
    have hrest : ∀ a ∈ rest, a ∉ front := fun a ha => hnew a (List.mem_cons_of_mem x ha)
    by_cases hx : x ∈ back
    · have hsame : (back ++ x :: rest).toFinset = (back ++ rest).toFinset := by
        ext a
        simp only [List.mem_toFinset, List.mem_append, List.mem_cons]
        constructor
        · rintro (hback | rfl | hrest)
          · exact .inl hback
          · exact .inl hx
          · exact .inr hrest
        · rintro (hback | hrest)
          · exact .inl hback
          · exact .inr (.inr hrest)
      rw [mark_of_mem (hq ▸ List.mem_append_right front hx)]
      refine fun a ha => ih hq hrest (hsame ▸ hfit) ?_
      rw [← List.mem_toFinset, ← hsame, List.mem_toFinset]
      exact ha
    · have hout : x ∉ w.queue := by
        rw [hq]
        exact fun hm => (List.mem_append.mp hm).elim (hnew x List.mem_cons_self) hx
      rw [List.append_cons back x rest] at hfit ⊢
      have hnodup : (back ++ [x]).Nodup := by
        have hwhole := nodup_append_new fun hm => hout ((w.coherent x).mp hm)
        rw [hq, List.append_assoc] at hwhole
        exact (List.nodup_append.mp hwhole).2.1
      have hcount : (back ++ [x]).length ≤ (back ++ [x] ++ rest).toFinset.card := by
        rw [← List.toFinset_card_of_nodup hnodup]
        refine Finset.card_le_card fun y hy => ?_
        simp only [List.mem_toFinset] at hy ⊢
        exact List.mem_append_left rest hy
      rw [List.length_append, List.length_singleton] at hcount
      obtain ⟨front', hfront⟩ := queue_mark_new hout hq (by omega)
      have hkept : front' ⊆ front := by
        rcases mark_suffix (w := w) (a := x) with ⟨dropped, hdropped⟩ | hsame
        · rw [hfront, hq, List.append_assoc front, ← List.append_assoc dropped] at hdropped
          rw [← List.append_cancel_right hdropped]
          exact List.subset_append_right dropped front'
        · exact absurd (hsame ▸ mem_mark_self) hout
      exact ih hfront (fun a ha hm => hrest a ha (hkept hm)) (by rwa [capacity_mark])

/-- New elements all stay exactly when they fit into the window. -/
theorem subset_foldl_mark_iff (hnew : ∀ a ∈ l, a ∉ w.queue) :
    l ⊆ (l.foldl mark w).queue ↔ l.toFinset.card ≤ w.capacity := by
  constructor
  · intro hall
    have hcard : l.toFinset.card ≤ (l.foldl mark w).queue.toFinset.card :=
      Finset.card_le_card fun a ha => List.mem_toFinset.mpr (hall (List.mem_toFinset.mp ha))
    have hbounded := (l.foldl mark w).bounded
    rw [capacity_foldl_mark] at hbounded
    exact hcard.trans ((List.toFinset_card_le _).trans hbounded)
  · exact fun hfit => subset_foldl_mark (List.append_nil _).symm hnew hfit

end Lib.Window

namespace Backpressure

/-! ## What a plan is about to mark -/

namespace PropagationEngine

variable {pq : EntryQueue} {topo : Topology} {policy : PropagationPolicy}
  {ledger : PropagationLedger} {fences : Option FenceTable} {liveEpoch : Epoch}
  {pins : List (Option Generation)} {request : PropagationRequest} {p : Plan}

/-- What a plan holds. -/
structure PlanParts (pq : EntryQueue) (topo : Topology) (policy : PropagationPolicy)
    (ledger : PropagationLedger) (fences : Option FenceTable) (liveEpoch : Epoch)
    (request : PropagationRequest) (pins : List (Option Generation)) (p : Plan) : Prop where
  ready : Ready topo policy liveEpoch pins request
  outcome : p.outcome = assembled pq topo policy ledger fences pins request
  live : p.live = liveSignals policy ledger request
  truncated : p.truncated = (progress pq topo policy ledger fences pins request).truncated

theorem parts_of_plan (h : plan pq topo policy ledger fences liveEpoch request = .ok p) :
    ∃ pins, PlanParts pq topo policy ledger fences liveEpoch request pins p := by
  have hcase : PlanCase pq topo policy ledger fences liveEpoch request
    (plan pq topo policy ledger fences liveEpoch request) := plan_cases
  rw [h] at hcase
  cases hcase with
  | @planned pins hready => exact ⟨pins, hready, rfl, rfl, rfl⟩

/-- A plan that accepts nothing has nothing to mark. -/
theorem live_of_plan (h : plan pq topo policy ledger fences liveEpoch request = .ok p)
    (hidle : p.outcome.counters.signalsAccepted = 0) : p.live = [] := by
  obtain ⟨pins, hparts⟩ := parts_of_plan h
  have hrejections : p.outcome.rejections = [] := by
    unfold plan at h
    dsimp only at h
    split at h
    · cases h
    split at h
    · cases h
    split at h
    · cases h
    split at h
    · cases h
    unfold planSignals at h
    dsimp only at h
    split at h
    · cases h
    split at h
    · cases h
    case h_2 hno =>
      cases h
      dsimp only at hidle ⊢
      rcases hr : (assemble policy (admittedOutcome topo request) _).rejections with _ | ⟨r, rest⟩
      · rfl
      · exact absurd hr (hno r rest hidle)
  rw [hparts.outcome] at hidle hrejections
  rw [hparts.live]
  exact live_of_idle hidle hrejections

/-- A plan whose rehearsal is a success. -/
theorem plan_of_rehearsal
    (h : (propagate pq (.of topo policy ledger fences liveEpoch)
      { request with dryRun := true }).1.status.ok = true) :
    ∃ p, plan pq topo policy ledger fences liveEpoch request = .ok p ∧
      (propagate pq (.of topo policy ledger fences liveEpoch)
        { request with dryRun := true }).1.counters.signalsAccepted =
          p.outcome.counters.signalsAccepted := by
  have hcase : PlanCase pq topo policy ledger fences liveEpoch request
    (plan pq topo policy ledger fences liveEpoch request) := plan_cases
  unfold propagate at h ⊢
  dsimp only [EngineContext.of] at h ⊢
  rw [plan_withDryRun] at h
  cases hplan : plan pq topo policy ledger fences liveEpoch request with
  | error o =>
    rw [hplan] at h hcase
    have hno : o.status.ok = false := by
      cases hcase with
      | refused _ hno => exact hno
      | allRefused _ hno => exact hno
    dsimp only at h
    rw [finalize_status, hno] at h
    cases h
  | ok p =>
    refine ⟨p, rfl, ?_⟩
    rw [plan_withDryRun, hplan]
    dsimp only
    rw [if_neg (by simp), finalize_counters]

/-- A signal that is accepted has an origin. -/
theorem origin_of_accepted
    (h : (progress pq topo policy ledger fences pins request).counters.signalsAccepted ≠ 0) :
    ∃ s ∈ liveSignals policy ledger request, (topo.indexOf s.origin).isSome = true := by
  refine progress_induction (P := fun l p => p.counters.signalsAccepted ≠ 0 →
    ∃ s ∈ l, (topo.indexOf s.origin).isSome = true) (fun hsome => ?_) ?_ h
  · exact absurd unstarted_spec.accepted hsome
  · intro before s after _ hp hsome
    cases traverse_cases pq topo policy ledger fences pins request
      (progressBefore pq topo policy ledger fences pins request s) s with
    | refused _ _ _ _ _ _ hsame =>
      rw [hsame] at hsome
      obtain ⟨s', hs', horigin⟩ := hp hsome
      exact ⟨s', List.mem_append_left _ hs', horigin⟩
    | ran hrun => exact ⟨s, List.mem_append_right _ List.mem_cons_self, origin_of_success hrun⟩

/-- What a planned run leaves, and when it is a success. -/
theorem run_of_plan (h : plan pq topo policy ledger fences liveEpoch request = .ok p)
    (hdry : request.dryRun = false) :
    let run := propagate pq (.of topo policy ledger fences liveEpoch) request
    (p.truncated = true → run.2 = some ledger) ∧
      (p.truncated = false → run.2 = some (commit request.now p ledger).2) ∧
      (run.1.status.ok = true ↔
        ¬Overflows pq (.of topo policy ledger fences liveEpoch) request) := by
  obtain ⟨pins, hparts⟩ := parts_of_plan h
  have hstatus : p.outcome.status = .success := by rw [hparts.outcome, assembled_status]
  have hnodup : (plannedKeys p.outcome.nodes).Nodup := by
    rw [hparts.outcome]
    exact plannedKeys_nodup keyed_progress
  rw [overflows_of_plan h]
  unfold propagate
  dsimp only [EngineContext.of]
  rw [h]
  dsimp only
  rw [hdry]
  cases htruncated : p.truncated with
  | true =>
    refine ⟨fun _ => rfl, fun hno => (by cases hno), iff_of_true ?_ fun hno => by cases hno.2.1⟩
    show p.outcome.status.ok = true
    rw [hstatus]
    rfl
  | false =>
    refine ⟨fun hno => (by cases hno), fun _ => rfl, ?_⟩
    show (commit request.now p ledger).1.status.ok = true ↔ _
    rw [commit_ok_iff hstatus hnodup]
    simp

end PropagationEngine

/-! ## What the queues gain -/

namespace RecoveredState

variable {s : RecoveredState} {n : Nat} {b : Digest128} {l : List Digest128}

/-- A store that is given a lineage forgets its oldest one when it is full. -/
theorem forgets :
    Lib.Forgets n RecoveredState.lineages (fun s => s.rememberLineage n) fun _ => True where
  keeps _ _ := id
  shifts s lineage _ := by
    unfold rememberLineage
    split
    case isTrue hmem => exact .kept hmem
    case isFalse hnew =>
      split
      case isTrue hfull => exact .shifted hnew hfull
      case isFalse => exact .pushed hnew

/-- The lineages remembered one after the other. -/
def rememberAll (s : RecoveredState) (n : Nat) (l : List Digest128) : RecoveredState :=
  l.foldl (fun s => s.rememberLineage n) s

theorem lineages_rememberAll {s' : RecoveredState} (h : s'.lineages = s.lineages) :
    (s'.rememberAll n l).lineages = (s.rememberAll n l).lineages := by
  induction l generalizing s s' with
  | nil => exact h
  | cons x rest ih =>
    have hstep : (s'.rememberLineage n x).lineages = (s.rememberLineage n x).lineages := by
      rw [DurableStore.lineages_rememberLineage, DurableStore.lineages_rememberLineage, h]
    exact ih hstep

/-- A queue gains every new lineage of a list that it has room for. -/
theorem gains_rememberAll (hroom : l.length ≤ n) (hnew : b ∉ s.lineages) :
    b ∈ (s.rememberAll n l).lineages ↔ b ∈ l :=
  ⟨fun h => (forgets.mem_of_mem trivial h).resolve_right hnew,
    fun h => (forgets.arrives trivial h hnew hroom).mem⟩

end RecoveredState

/-! ## The steps of an attempt and the queue of the store -/

namespace DurableStore

variable {s s' s'' : DurableStore} {d d' : Disk} {st : Status} {now : Tick} {id : AttemptId}

/-- The store keeps its queue of lineages. -/
structure SameQueue (s s' : DurableStore) : Prop where
  config : s'.config = s.config
  lineages : s'.state.lineages = s.state.lineages

theorem SameQueue.refl : SameQueue s s := ⟨rfl, rfl⟩

theorem SameQueue.trans (h : SameQueue s s') (h' : SameQueue s' s'') : SameQueue s s'' :=
  ⟨h'.config.trans h.config, h'.lineages.trans h.lineages⟩

section Write

variable {type : RecordType} {epoch : Epoch} {payload : Result Bytes} {sync : Bool}
  {effect : DurableStore → Status × DurableStore}

theorem write_sameQueue (h : s.write type now epoch payload sync effect d = (st, s', d'))
    (heffect : ∀ s, SameQueue s (effect s).2) : SameQueue s s' := by
  cases write_cases h with
  | unencoded => exact .refl
  | refused => exact .refl
  | torn => exact .refl
  | unsynced => exact ⟨rfl, rfl⟩
  | @written bytes =>
    have hlogged : SameQueue s (s.logged type now epoch bytes) := ⟨rfl, rfl⟩
    exact hlogged.trans (heffect _)

end Write

theorem beginAttempt_sameQueue (h : s.beginAttempt id now d = (st, s', d')) : SameQueue s s' := by
  unfold beginAttempt withEpoch at h
  split at h
  · cases h
    exact .refl
  split at h
  · cases h
    exact .refl
  split at h
  · cases h
    exact .refl
  · exact write_sameQueue h fun _ => ⟨rfl, rfl⟩

theorem commitAttempt_sameQueue (h : s.commitAttempt id now d = (st, s', d')) :
    SameQueue s s' := by
  unfold commitAttempt at h
  split at h
  · cases h
    exact .refl
  · exact write_sameQueue h fun _ => ⟨rfl, rfl⟩

theorem abortAttempt_sameQueue (h : s.abortAttempt id now d = (st, s', d')) :
    SameQueue s s' := by
  unfold abortAttempt at h
  split at h
  · cases h
    exact .refl
  · exact write_sameQueue h fun _ => ⟨rfl, rfl⟩

theorem compact_sameQueue (h : s.compact d = (st, s', d')) : SameQueue s s' := by
  unfold compact at h
  split at h
  · cases h
    exact .refl
  · dsimp only at h
    split at h
    · cases h
      exact ⟨rfl, rfl⟩
    · cases h
      exact ⟨rfl, rfl⟩

theorem compactIfNeeded_sameQueue (threshold : Nat) :
    SameQueue s (s.compactIfNeeded threshold d).2.1 := by
  unfold compactIfNeeded
  split
  · exact .refl
  · rcases hcompact : s.compact d with ⟨st, s', d'⟩
    exact compact_sameQueue hcompact

end DurableStore

namespace Fabric

variable {pq : EntryQueue} {F F' : Fabric} {d d' : Disk} {now : Tick} {topology : Topology}
  {policy : PropagationPolicy} {signals : List PressureSignal} {c : PublishCall}
  {s s' : DurableStore} {st : Status}

open DurableStore (SameQueue)

/-! ## Durable intent -/

/-- No lineage but zero is refused: the journal has room, and nothing fails. -/
def Unhindered (now : Tick) : List Digest128 → DurableStore → Disk → Prop
  | [], _, _ => True
  | lineage :: rest, s, d => lineage.isZero = false →
    (s.recordLineage lineage now d).1.ok = true ∧
      Unhindered now rest (s.recordLineage lineage now d).2.1 (s.recordLineage lineage now d).2.2

instance : ∀ (lineages : List Digest128) (s : DurableStore) (d : Disk),
    Decidable (Unhindered now lineages s d)
  | [], _, _ => isTrue trivial
  | lineage :: rest, s, d =>
    have : Decidable (Unhindered now rest (s.recordLineage lineage now d).2.1
      (s.recordLineage lineage now d).2.2) := instDecidableUnhindered rest _ _
    inferInstanceAs (Decidable (lineage.isZero = false →
      (s.recordLineage lineage now d).1.ok = true ∧
        Unhindered now rest (s.recordLineage lineage now d).2.1
          (s.recordLineage lineage now d).2.2))

/-- The lineages before the first that is zero. -/
def recordable (lineages : List Digest128) : List Digest128 :=
  lineages.takeWhile fun lineage => !lineage.isZero

/-- The store takes the lineages before the first that is zero, and succeeds when none is. -/
theorem recordLineages_queue {id : AttemptId} {lineages : List Digest128}
    (h : recordLineages id now lineages s d = (st, s', d'))
    (hserved : Unhindered now lineages s d) :
    (st.ok = true ↔ recordable lineages = lineages) ∧
      s'.state.lineages =
        (s.state.rememberAll s.config.maxLineages (recordable lineages)).lineages := by
  induction lineages generalizing s d with
  | nil =>
    cases h
    exact ⟨iff_of_true rfl rfl, rfl⟩
  | cons lineage rest ih =>
    rw [recordLineages] at h
    rw [Unhindered] at hserved
    rcases hrecord : s.recordLineage lineage now d with ⟨st₁, s₁, d₁⟩
    rw [hrecord] at h hserved
    dsimp only at h hserved
    obtain ⟨hconfig, ⟨hno, hstate⟩ | ⟨hyes, hsome, hstate⟩⟩ :=
      DurableStore.recordLineage_queue hrecord
    · have hzero : lineage.isZero = true := by
        by_contra hne
        rw [(hserved (by simpa using hne)).1] at hno
        cases hno
      rw [hno, Bool.not_false, if_pos rfl] at h
      rcases habort : s₁.abortAttempt id now d₁ with ⟨st₂, s₂, d₂⟩
      rw [habort] at h
      cases h
      have hnone : recordable (lineage :: rest) = [] := by
        rw [recordable, List.takeWhile_cons_of_neg (by simp [hzero])]
      rw [hnone, (DurableStore.abortAttempt_sameQueue habort).lineages, hstate]
      exact ⟨iff_of_false (by rw [hno]; decide) (by simp), rfl⟩
    · rw [hyes, Bool.not_true, if_neg Bool.false_ne_true] at h
      have hcons : recordable (lineage :: rest) = lineage :: recordable rest := by
        rw [recordable, List.takeWhile_cons_of_pos (by simp [hsome])]
        rfl
      obtain ⟨hiff, hqueue⟩ := ih h (hserved hsome).2
      rw [hcons, hqueue, hstate, hconfig, hiff]
      exact ⟨by simp, rfl⟩

/-- The store refuses nothing but a number in use and a lineage of zero: its journal has room, and
nothing fails. -/
structure Served (F : Fabric) (signals : List PressureSignal) (now : Tick) (s : DurableStore)
    (d : Disk) : Prop where
  lineages : (s.beginAttempt F.attemptId now d).1.ok = true →
    Unhindered now (signals.map PressureSignal.lineage) (s.beginAttempt F.attemptId now d).2.1
      (s.beginAttempt F.attemptId now d).2.2
  commit : (F.intent signals now s d).1.ok = true →
    ((F.intent signals now s d).2.1.commitAttempt F.attemptId now
      (F.intent signals now s d).2.2).1.ok = true

instance : Decidable (F.Served signals now s d) :=
  decidable_of_iff
    (((s.beginAttempt F.attemptId now d).1.ok = true →
        Unhindered now (signals.map PressureSignal.lineage) (s.beginAttempt F.attemptId now d).2.1
          (s.beginAttempt F.attemptId now d).2.2) ∧
      ((F.intent signals now s d).1.ok = true →
        ((F.intent signals now s d).2.1.commitAttempt F.attemptId now
          (F.intent signals now s d).2.2).1.ok = true))
    ⟨fun h => ⟨h.1, h.2⟩, fun h => ⟨h.lineages, h.commit⟩⟩

theorem intent_of_refused (hno : (s.beginAttempt F.attemptId now d).1.ok = false)
    (h : F.intent signals now s d = (st, s', d')) : st.ok = false ∧ SameQueue s s' := by
  unfold intent recordIntent at h
  rcases hbegin : s.beginAttempt F.attemptId now d with ⟨st₁, s₁, d₁⟩
  rw [hbegin] at h hno
  dsimp only at h hno
  rw [hno, Bool.not_false, if_pos rfl] at h
  cases h
  exact ⟨hno, DurableStore.beginAttempt_sameQueue hbegin⟩

theorem begun_of_intent (h : F.intent signals now s d = (st, s', d')) (hyes : st.ok = true) :
    (s.beginAttempt F.attemptId now d).1.ok = true := by
  by_contra hrefused
  have hno := (intent_of_refused (Bool.not_eq_true _ ▸ hrefused) h).1
  exact absurd (hyes.symm.trans hno) (by decide)

/-- The store takes the lineages before the first that is zero. -/
theorem intent_queue (hserved : F.Served signals now s d)
    (hbegun : (s.beginAttempt F.attemptId now d).1.ok = true)
    (h : F.intent signals now s d = (st, s', d')) :
    (st.ok = true ↔ recordable (signals.map PressureSignal.lineage) =
        signals.map PressureSignal.lineage) ∧
      s'.state.lineages = (s.state.rememberAll s.config.maxLineages
        (recordable (signals.map PressureSignal.lineage))).lineages := by
  have hunhindered := hserved.lineages hbegun
  unfold intent recordIntent at h
  rcases hbegin : s.beginAttempt F.attemptId now d with ⟨st₁, s₁, d₁⟩
  rw [hbegin] at h hbegun hunhindered
  dsimp only at h hbegun hunhindered
  rw [hbegun, Bool.not_true, if_neg Bool.false_ne_true] at h
  have hsame := DurableStore.beginAttempt_sameQueue hbegin
  obtain ⟨hiff, hqueue⟩ := recordLineages_queue h hunhindered
  refine ⟨hiff, ?_⟩
  rw [hqueue, hsame.config]
  exact RecoveredState.lineages_rememberAll hsame.lineages

/-! ## The calls -/

/-- The call has added the lineage to the queue of the store. -/
def Recorded (F F' : Fabric) (lineage : Digest128) : Prop :=
  ∃ s s', F.store = some s ∧ F'.store = some s' ∧ lineage ∈ s'.state.lineages ∧
    lineage ∉ s.state.lineages

/-- The call has added the lineage to the window of the ledger. -/
def Marked (F F' : Fabric) (lineage : Digest128) : Prop :=
  F'.ledger.hasLineage lineage = true ∧ F.ledger.hasLineage lineage = false

instance {lineage : Digest128} : Decidable (Marked F F' lineage) :=
  inferInstanceAs (Decidable (_ ∧ _))

/-- A signal with the lineage, which is new to the ledger, is accepted by a call that succeeds. -/
def Fresh (pq : EntryQueue) (F : Fabric) (c : PublishCall) (now : Tick)
    (result : Result PropagationOutcome) (lineage : Digest128) : Prop :=
  ∃ o topology policy signal, result = .ok o ∧ o.status.ok = true ∧ F.topology = some topology ∧
    F.policy = some policy ∧
    PropagationEngine.Taken pq F.context (F.request topology policy c.signals now) signal ∧
    F.ledger.hasLineage signal.lineage = false ∧ signal.lineage = lineage

/-- What a call adds to the queue of the store is what it adds to the ledger, and that is what it
accepts. -/
structure Paired (pq : EntryQueue) (F : Fabric) (c : PublishCall) (now : Tick)
    (after : Result PropagationOutcome × Fabric × Disk) : Prop where
  recorded : ∀ lineage, Recorded F after.2.1 lineage ↔ Marked F after.2.1 lineage
  marked : ∀ lineage, Marked F after.2.1 lineage ↔ F.Fresh pq c now after.1 lineage

/-- The signals that traverse when the call runs. -/
def liveOf (F : Fabric) (topology : Topology) (policy : PropagationPolicy)
    (signals : List PressureSignal) (now : Tick) : List PressureSignal :=
  PropagationEngine.liveSignals policy F.ledger (F.request topology policy signals now)

/-- The lineages that remembering the list adds to the queue of the store. -/
def queued (s : DurableStore) (lineages : List Digest128) : List Digest128 :=
  (s.state.rememberAll s.config.maxLineages lineages).lineages.filter
    fun lineage => decide (lineage ∉ s.state.lineages)

theorem mem_queued {lineages : List Digest128} {lineage : Digest128} :
    lineage ∈ queued s lineages ↔
      lineage ∈ (s.state.rememberAll s.config.maxLineages lineages).lineages ∧
        lineage ∉ s.state.lineages := by
  rw [queued, List.mem_filter, decide_eq_true_eq]

/-- A queue that has room for the list gains what it did not hold. -/
theorem mem_queued_of_few {lineages : List Digest128} {lineage : Digest128}
    (hroom : lineages.length ≤ s.config.maxLineages) :
    lineage ∈ queued s lineages ↔ lineage ∈ lineages ∧ lineage ∉ s.state.lineages := by
  rw [mem_queued]
  exact and_congr_left fun hnew => RecoveredState.gains_rememberAll hroom hnew

/-- A signal that traverses from an origin has the lineage. -/
def Starts (F : Fabric) (topology : Topology) (policy : PropagationPolicy)
    (signals : List PressureSignal) (now : Tick) (lineage : Digest128) : Prop :=
  ∃ signal ∈ F.liveOf topology policy signals now, signal.lineage = lineage ∧
    (topology.indexOf signal.origin).isSome = true

/-- The lineages of the signals that traverse. -/
def liveLineages (F : Fabric) (topology : Topology) (policy : PropagationPolicy)
    (signals : List PressureSignal) (now : Tick) : List Digest128 :=
  (F.liveOf topology policy signals now).map PressureSignal.lineage

/-- The run is written as a whole, and the lineages that start are what the queue of the store
gains, and what the ledger keeps of those that traverse. -/
structure Matched (pq : EntryQueue) (F : Fabric) (topology : Topology) (policy : PropagationPolicy)
    (signals : List PressureSignal) (now : Tick) (s : DurableStore) : Prop where
  uncut : ¬F.Cut pq topology policy signals now
  fits : ¬PropagationEngine.Overflows pq F.context (F.request topology policy signals now)
  queued : ∀ lineage, lineage ∈ Fabric.queued s (signals.map PressureSignal.lineage) ↔
    F.Starts topology policy signals now lineage
  kept : ∀ lineage ∈ F.liveLineages topology policy signals now,
    lineage ∈ ((F.liveLineages topology policy signals now).foldl Lib.Window.mark
        F.ledger.lineages).queue ↔ F.Starts topology policy signals now lineage

theorem Starts.live {lineage : Digest128} (h : F.Starts topology policy signals now lineage) :
    lineage ∈ F.liveLineages topology policy signals now := by
  obtain ⟨signal, hsignal, rfl, -⟩ := h
  exact List.mem_map_of_mem hsignal

/-- A signal that traverses is new to the ledger. -/
theorem new_of_live {lineage : Digest128}
    (h : lineage ∈ F.liveLineages topology policy signals now) :
    lineage ∉ F.ledger.lineages.queue := by
  obtain ⟨signal, hsignal, rfl⟩ := List.mem_map.mp h
  intro hknown
  have hnew := (List.mem_filter.mp hsignal).2
  have hheld : F.ledger.hasLineage signal.lineage = true := Lib.Window.has_iff.mpr hknown
  rw [PropagationEngine.isLive, hheld] at hnew
  cases hnew

/-- For a request that fits into both queues, each of its lineages must be new to the store exactly
when it traverses, and those that traverse must start. -/
theorem matched_iff_of_few (hstore : signals.length ≤ s.config.maxLineages)
    (hledger : (F.liveLineages topology policy signals now).toFinset.card ≤
      F.ledger.lineages.capacity) :
    F.Matched pq topology policy signals now s ↔ ¬F.Cut pq topology policy signals now ∧
      ¬PropagationEngine.Overflows pq F.context (F.request topology policy signals now) ∧
      (∀ lineage ∈ signals.map PressureSignal.lineage, lineage ∉ s.state.lineages ↔
        lineage ∈ F.liveLineages topology policy signals now) ∧
      ∀ lineage ∈ F.liveLineages topology policy signals now,
        F.Starts topology policy signals now lineage := by
  have hfew : ∀ lineage, lineage ∈ Fabric.queued s (signals.map PressureSignal.lineage) ↔
      lineage ∈ signals.map PressureSignal.lineage ∧ lineage ∉ s.state.lineages := fun lineage =>
    mem_queued_of_few (by rwa [List.length_map])
  have hkept := (Lib.Window.subset_foldl_mark_iff fun lineage => new_of_live).mpr hledger
  have hrequested : ∀ lineage ∈ F.liveLineages topology policy signals now,
      lineage ∈ signals.map PressureSignal.lineage := fun lineage hlive => by
    obtain ⟨signal, hsignal, rfl⟩ := List.mem_map.mp hlive
    exact List.mem_map_of_mem
      (PropagationEngine.accepted_of_mem (List.mem_filter.mp hsignal).1).requested
  constructor
  · intro h
    have hstarts : ∀ lineage ∈ F.liveLineages topology policy signals now,
        F.Starts topology policy signals now lineage :=
      fun lineage hlive => (h.kept lineage hlive).mp (hkept hlive)
    refine ⟨h.uncut, h.fits, fun lineage hlineage => ?_, hstarts⟩
    rw [← and_iff_right (b := lineage ∉ s.state.lineages) hlineage, ← hfew, h.queued]
    exact ⟨Starts.live, hstarts lineage⟩
  · rintro ⟨huncut, hfits, hnew, hstarts⟩
    refine ⟨huncut, hfits, fun lineage => ?_, fun lineage hlive =>
      iff_of_true (hkept hlive) (hstarts lineage hlive)⟩
    rw [hfew]
    constructor
    · rintro ⟨hlineage, hout⟩
      exact hstarts lineage ((hnew lineage hlineage).mp hout)
    · intro h
      have hlineage := hrequested lineage h.live
      exact ⟨hlineage, (hnew lineage hlineage).mpr h.live⟩

/-! ## What a call records, marks and accepts -/

theorem context_of_attempts (h : F.Attempts pq c now topology policy) :
    F.context = .of topology policy F.ledger (some F.fences) F.epoch := by
  unfold context EngineContext.of
  rw [← h.hasTopology, ← h.hasPolicy]

theorem recorded_iff {lineage : Digest128} (hstore : F.store = some s)
    (hafter : F'.store = some s') :
    Recorded F F' lineage ↔ lineage ∈ s'.state.lineages ∧ lineage ∉ s.state.lineages := by
  constructor
  · rintro ⟨s₀, s₀', hs, hs', hlineage⟩
    cases hstore.symm.trans hs
    cases hafter.symm.trans hs'
    exact hlineage
  · exact fun hlineage => ⟨s, s', hstore, hafter, hlineage⟩

theorem marked_iff {lineage : Digest128} :
    Marked F F' lineage ↔
      lineage ∈ F'.ledger.lineages.queue ∧ lineage ∉ F.ledger.lineages.queue := by
  rw [Marked, PropagationLedger.hasLineage, PropagationLedger.hasLineage, Lib.Window.has_iff,
    ← Bool.not_eq_true, Lib.Window.has_iff]

/-- What a call that succeeds accepts afresh are the signals that traverse from an origin. -/
theorem fresh_iff {o : PropagationOutcome} {lineage : Digest128}
    (h : F.Attempts pq c now topology policy) (hok : o.status.ok = true) :
    F.Fresh pq c now (.ok o) lineage ↔ F.Starts topology policy c.signals now lineage := by
  constructor
  · rintro ⟨_, topology', policy', signal, _, _, htopology, hpolicy, htaken, hnew, hlineage⟩
    cases h.hasTopology.symm.trans htopology
    cases h.hasPolicy.symm.trans hpolicy
    obtain ⟨_, _, _, _, ht, hp, hl, _, hadmitted, hthrough⟩ := PropagationEngine.taken_iff.mp htaken
    rw [context_of_attempts h] at ht hp hl
    cases ht
    cases hp
    cases hl
    refine ⟨signal, List.mem_filter.mpr ⟨hadmitted, by rw [PropagationEngine.isLive, hnew]; rfl⟩,
      hlineage, hthrough.resolve_left (by rw [hnew]; exact Bool.false_ne_true)⟩
  · rintro ⟨signal, hsignal, hlineage, horigin⟩
    have hplanned := h.planned
    rw [planOf, context_of_attempts h] at hplanned
    obtain ⟨p, hplan, -⟩ := PropagationEngine.plan_of_rehearsal hplanned
    obtain ⟨pins, hparts⟩ := PropagationEngine.parts_of_plan hplan
    obtain ⟨hadmitted, hlive⟩ := List.mem_filter.mp hsignal
    refine ⟨o, topology, policy, signal, rfl, hok, h.hasTopology, h.hasPolicy,
      PropagationEngine.taken_iff.mpr ?_, by simpa [PropagationEngine.isLive] using hlive, hlineage⟩
    rw [context_of_attempts h]
    exact ⟨topology, policy, F.ledger, pins, rfl, rfl, rfl, hparts.ready, hadmitted, .inr horigin⟩

/-- A run that is cut leaves the ledger, and any other marks the lineages that traverse. -/
structure RanLineages (pq : EntryQueue) (F : Fabric) (topology : Topology)
    (policy : PropagationPolicy) (signals : List PressureSignal) (now : Tick) : Prop where
  ok : (F.ranOf pq topology policy signals now).1.status.ok = true ↔
    ¬PropagationEngine.Overflows pq F.context (F.request topology policy signals now)
  cut : F.Cut pq topology policy signals now →
    (F.ranOf pq topology policy signals now).2 = F.ledger
  uncut : ¬F.Cut pq topology policy signals now →
    (F.ranOf pq topology policy signals now).2.lineages =
      (F.liveLineages topology policy signals now).foldl Lib.Window.mark F.ledger.lineages
  idle : (F.planOf pq topology policy signals now).counters.signalsAccepted = 0 →
    F.liveOf topology policy signals now = []
  whole : PropagationEngine.Overflows pq F.context (F.request topology policy signals now) →
    ¬F.Cut pq topology policy signals now
  accepts : (F.planOf pq topology policy signals now).counters.signalsAccepted ≠ 0 →
    ∃ signal ∈ F.liveOf topology policy signals now, (topology.indexOf signal.origin).isSome = true

theorem ranLineages (h : F.Attempts pq c now topology policy) :
    F.RanLineages pq topology policy c.signals now := by
  have hplanned := h.planned
  rw [planOf, context_of_attempts h] at hplanned
  obtain ⟨p, hplan, haccepted⟩ := PropagationEngine.plan_of_rehearsal hplanned
  have haccepted : (F.planOf pq topology policy c.signals now).counters.signalsAccepted =
      p.outcome.counters.signalsAccepted := by
    rw [planOf, context_of_attempts h]
    exact haccepted
  obtain ⟨pins, hparts⟩ := PropagationEngine.parts_of_plan hplan
  obtain ⟨hcut, hwhole, hok⟩ := PropagationEngine.run_of_plan hplan rfl
  have hrun := @propagate_context pq F (F.request topology policy c.signals now)
  rw [context_of_attempts h] at hrun
  have hpins : pins = List.replicate topology.edges.length none :=
    (Except.ok.inj hparts.ready.pins).symm
  have htruncated : p.truncated = true ↔ F.Cut pq topology policy c.signals now := by
    rw [hparts.truncated, hpins]
    exact PropagationEngine.progress_flags.1
  constructor
  · rw [context_of_attempts h]
    exact (congrArg (fun r => r.1.status.ok = true) hrun).symm.to_iff.trans hok
  · intro hyes
    exact Option.some.inj ((congrArg Prod.snd hrun).symm.trans (hcut (htruncated.mpr hyes)))
  · intro hno
    have hledger := Option.some.inj
      ((congrArg Prod.snd hrun).symm.trans (hwhole (by simpa using mt htruncated.mp hno)))
    have hlive : p.live = F.liveOf topology policy c.signals now := hparts.live
    rw [liveLineages, ← hlive]
    exact (congrArg PropagationLedger.lineages hledger).trans PropagationEngine.lineages_commit
  · intro hzero
    rw [liveOf, ← hparts.live]
    exact PropagationEngine.live_of_plan hplan (haccepted.symm.trans hzero)
  · rw [context_of_attempts h, PropagationEngine.overflows_of_plan hplan, ← htruncated]
    exact fun hover hyes => absurd (hover.2.1.symm.trans hyes) (by decide)
  · intro hsome
    rw [haccepted, hparts.outcome] at hsome
    exact PropagationEngine.origin_of_accepted hsome

/-- A call that leaves both queues as they are and accepts nothing. -/
theorem paired_of_nothing {result : Result PropagationOutcome} (hstore : F.store = some s)
    (hafter : F'.store = some s') (hsame : SameQueue s s')
    (hledger : F'.ledger.lineages = F.ledger.lineages)
    (hnone : ∀ lineage, ¬F.Fresh pq c now result lineage) : Paired pq F c now (result, F', d') := by
  have hunmarked : ∀ lineage, ¬Marked F F' lineage := fun lineage hmarked => by
    rw [marked_iff, hledger] at hmarked
    exact hmarked.2 hmarked.1
  refine ⟨fun lineage => iff_of_false (fun hrecorded => ?_) (hunmarked lineage),
    fun lineage => iff_of_false (hunmarked lineage) (hnone lineage)⟩
  rw [recorded_iff hstore hafter, hsame.lineages] at hrecorded
  exact hrecorded.2 hrecorded.1

theorem store_journalCompactionLocked (hstore : F.store = some s) :
    ∃ s', (F.journalCompactionLocked d).1.store = some s' ∧ SameQueue s s' := by
  unfold journalCompactionLocked
  rw [hstore]
  exact ⟨_, rfl, DurableStore.compactIfNeeded_sameQueue _⟩

/-- No signal is accepted afresh by a call that fails. -/
theorem fresh_of_error {st : Status} {lineage : Digest128} :
    ¬F.Fresh pq c now (.error st) lineage := by
  rintro ⟨_, _, _, _, hresult, _⟩
  cases hresult

theorem fresh_of_failed {o : PropagationOutcome} {lineage : Digest128} (hno : o.status.ok = false) :
    ¬F.Fresh pq c now (.ok o) lineage := by
  rintro ⟨_, _, _, _, hresult, hok, _⟩
  cases hresult
  rw [hno] at hok
  cases hok

/-- What a call must meet for its two queues to gain what it accepts: where its lineages can all be
recorded the run matches them, and where one is zero those before it are no gain. -/
def Pairs (pq : EntryQueue) (F : Fabric) (topology : Topology) (policy : PropagationPolicy)
    (signals : List PressureSignal) (now : Tick) (s : DurableStore) : Prop :=
  (recordable (signals.map PressureSignal.lineage) = signals.map PressureSignal.lineage →
    F.Matched pq topology policy signals now s) ∧
  (recordable (signals.map PressureSignal.lineage) ≠ signals.map PressureSignal.lineage →
    queued s (recordable (signals.map PressureSignal.lineage)) = [])

/-- Nothing is recorded in a call that does not pair but what the call marks. -/
theorem paired_refused_iff {st : Status} (hstore : F.store = some s) (hafter : F'.store = some s')
    (hqueue : s'.state.lineages = (s.state.rememberAll s.config.maxLineages
      (recordable (c.signals.map PressureSignal.lineage))).lineages)
    (hledger : F'.ledger = F.ledger) :
    Paired pq F c now (.error st, F', d') ↔
      queued s (recordable (c.signals.map PressureSignal.lineage)) = [] := by
  have hunmarked : ∀ lineage, ¬Marked F F' lineage := fun lineage hmarked => by
    rw [marked_iff, hledger] at hmarked
    exact hmarked.2 hmarked.1
  rw [List.eq_nil_iff_forall_not_mem]
  constructor
  · intro hpaired lineage hlineage
    refine hunmarked lineage ((hpaired.recorded lineage).mp ?_)
    rw [recorded_iff hstore hafter, hqueue]
    exact mem_queued.mp hlineage
  · refine fun hnone => ⟨fun lineage => iff_of_false (fun hrecorded => ?_) (hunmarked lineage),
      fun lineage => iff_of_false (hunmarked lineage) fresh_of_error⟩
    rw [recorded_iff hstore hafter, hqueue] at hrecorded
    exact hnone lineage (mem_queued.mpr hrecorded)

/-- A call whose attempt is committed. -/
theorem paired_done_iff {o : PropagationOutcome} (hstore : F.store = some s)
    (hafter : F'.store = some s') (hattempts : F.Attempts pq c now topology policy)
    (hsome : (F.planOf pq topology policy c.signals now).counters.signalsAccepted ≠ 0)
    (hqueue : s'.state.lineages =
      (s.state.rememberAll s.config.maxLineages (c.signals.map PressureSignal.lineage)).lineages)
    (hran : (F.ranOf pq topology policy c.signals now).1.status.ok = true)
    (hledger : F'.ledger.lineages = (F.ranOf pq topology policy c.signals now).2.lineages)
    (hok : o.status.ok = true) :
    Paired pq F c now (.ok o, F', d') ↔ F.Matched pq topology policy c.signals now s := by
  have hlineages := ranLineages hattempts
  have hrecorded : ∀ lineage, Recorded F F' lineage ↔
      lineage ∈ queued s (c.signals.map PressureSignal.lineage) := fun lineage => by
    rw [recorded_iff hstore hafter, hqueue, mem_queued]
  have hfresh : ∀ lineage, F.Fresh pq c now (.ok o) lineage ↔
      F.Starts topology policy c.signals now lineage := fun _ => fresh_iff hattempts hok
  by_cases hcut : F.Cut pq topology policy c.signals now
  · -- the ledger is left as it was, though a signal is accepted
    refine iff_of_false (fun hpaired => ?_) fun hmatched => hmatched.uncut hcut
    obtain ⟨signal, hsignal, horigin⟩ := hlineages.accepts hsome
    have hmarked := (hpaired.marked signal.lineage).mpr
      ((hfresh _).mpr ⟨signal, hsignal, rfl, horigin⟩)
    rw [marked_iff, hledger, hlineages.cut hcut] at hmarked
    exact hmarked.2 hmarked.1
  have hmarked : ∀ lineage, Marked F F' lineage ↔
      lineage ∈ F.liveLineages topology policy c.signals now ∧
        lineage ∈ ((F.liveLineages topology policy c.signals now).foldl Lib.Window.mark
          F.ledger.lineages).queue := fun lineage => by
    rw [marked_iff, hledger, hlineages.uncut hcut]
    exact ⟨fun h => ⟨(Lib.Window.mem_of_mem_foldl_mark h.1).resolve_right h.2, h.1⟩,
      fun h => ⟨h.2, new_of_live h.1⟩⟩
  constructor
  · intro hpaired
    have hstarts : ∀ lineage,
        Marked F F' lineage ↔ F.Starts topology policy c.signals now lineage :=
      fun lineage => (hpaired.marked lineage).trans (hfresh lineage)
    refine ⟨hcut, hlineages.ok.mp hran, fun lineage => ?_, fun lineage hlive => ?_⟩
    · rw [← hrecorded, hpaired.recorded, hstarts]
    · rw [← hstarts, hmarked]
      exact (and_iff_right hlive).symm
  · intro hmatched
    have hstarts : ∀ lineage,
        Marked F F' lineage ↔ F.Starts topology policy c.signals now lineage :=
      fun lineage => by
        rw [hmarked]
        exact ⟨fun h => (hmatched.kept lineage h.1).mp h.2,
          fun h => ⟨h.live, (hmatched.kept lineage h.live).mpr h⟩⟩
    refine ⟨fun lineage => ?_, fun lineage => (hstarts lineage).trans (hfresh lineage).symm⟩
    rw [hrecorded, hmatched.queued, hstarts]

/-- A run that fails has marked the last lineage that traverses, and nothing is accepted. -/
theorem unpaired_of_failed {o : PropagationOutcome}
    (hattempts : F.Attempts pq c now topology policy)
    (hsome : (F.planOf pq topology policy c.signals now).counters.signalsAccepted ≠ 0)
    (hno : o.status.ok = false)
    (hledger : F'.ledger.lineages =
      (F.liveLineages topology policy c.signals now).foldl Lib.Window.mark F.ledger.lineages) :
    ¬Paired pq F c now (.ok o, F', d') := by
  intro hpaired
  have hnew : ∀ lineage ∈ F.liveLineages topology policy c.signals now,
      lineage ∉ F.ledger.lineages.queue := fun _ => new_of_live
  obtain ⟨signal, hsignal, -⟩ := (ranLineages hattempts).accepts hsome
  have hlive : signal.lineage ∈ F.liveLineages topology policy c.signals now :=
    List.mem_map_of_mem hsignal
  rcases List.eq_nil_or_concat (F.liveLineages topology policy c.signals now) with
    hnil | ⟨front, last, hlast⟩
  · rw [hnil] at hlive
    cases hlive
  · rw [hlast, List.concat_eq_append] at hledger hnew
    refine fresh_of_failed hno ((hpaired.marked last).mp (marked_iff.mpr ⟨?_, hnew last ?_⟩))
    · rw [hledger, List.foldl_append]
      exact Lib.Window.mem_mark_self
    · exact List.mem_concat_self

/-- Where nothing fails, a call records what it marks and marks what it accepts exactly when it
makes no attempt, or its attempt pairs. -/
theorem paired_iff (hstore : F.store = some s) (hserved : F.Served c.signals now s d) :
    Paired pq F c now (c.run pq F now d) ↔
      ∀ topology policy, F.Attempts pq c now topology policy →
        (F.planOf pq topology policy c.signals now).counters.signalsAccepted ≠ 0 →
        (s.beginAttempt F.attemptId now d).1.ok = true →
          F.Pairs pq topology policy c.signals now s := by
  have hruns := runs pq F c now d
  generalize c.run pq F now d = after at hruns
  cases hruns with
  | turnedAway hno hresult hsame =>
    refine iff_of_true ?_ fun topology policy hattempts => absurd hattempts (hno topology policy)
    refine paired_of_nothing hstore (hsame.store.trans hstore) .refl (congrArg _ hsame.ledger) ?_
    rintro lineage ⟨o, _, _, _, ho, hok, _⟩
    rw [hresult o ho] at hok
    cases hok
  | @attempted topology policy after hattempts hends =>
    have hthis : (∀ topology policy, F.Attempts pq c now topology policy →
        (F.planOf pq topology policy c.signals now).counters.signalsAccepted ≠ 0 →
        (s.beginAttempt F.attemptId now d).1.ok = true →
          F.Pairs pq topology policy c.signals now s) ↔
        ((F.planOf pq topology policy c.signals now).counters.signalsAccepted ≠ 0 →
          (s.beginAttempt F.attemptId now d).1.ok = true →
            F.Pairs pq topology policy c.signals now s) := by
      refine ⟨fun h => h topology policy hattempts, fun h topology' policy' hattempts' => ?_⟩
      cases hattempts.hasTopology.symm.trans hattempts'.hasTopology
      cases hattempts.hasPolicy.symm.trans hattempts'.hasPolicy
      exact h
    rw [hthis]
    have hlineages := ranLineages hattempts
    have htried := @tried pq F topology policy c.signals now d s hstore
    generalize F.attempt pq topology policy c.signals now d = ended at hends htried
    cases htried with
    | @idle ending F₁ hzero _ hstored hledger hending =>
      refine iff_of_true ?_ fun hsome => absurd hzero hsome
      have hempty : F.liveLineages topology policy c.signals now = [] :=
        congrArg (List.map _) (hlineages.idle hzero)
      have hkept : F₁.ledger.lineages = F.ledger.lineages := by
        rw [hledger]
        by_cases hcut : F.Cut pq topology policy c.signals now
        · rw [hlineages.cut hcut]
        · rw [hlineages.uncut hcut, hempty, List.foldl_nil]
      rcases hending with ⟨hno, rfl⟩ | ⟨hok, rfl⟩
      · cases hends with
        | failed hsame =>
          exact paired_of_nothing hstore (hsame.store.trans hstored) .refl
            ((congrArg _ hsame.ledger).trans hkept) fun _ => fresh_of_failed hno
      · cases hends with
        | @done _ _ F₂ _ hsame =>
          obtain ⟨s', hs', hqueue⟩ :=
            @store_journalCompactionLocked F₂ d s (hsame.store.trans hstored)
          have hledger : (F₂.journalCompactionLocked d).1.ledger.lineages = F.ledger.lineages := by
            rw [ledger_journalCompactionLocked, hsame.ledger, hkept]
          refine @paired_of_nothing pq F (F₂.journalCompactionLocked d).1
            (F₂.journalCompactionLocked d).2 now c s s'
            (.ok (F.ranOf pq topology policy c.signals now).1) hstore hs' hqueue hledger
            fun lineage hfresh => ?_
          have hlive := ((fresh_iff hattempts hok).mp hfresh).live
          rw [hempty] at hlive
          cases hlive
    | @refused st F₁ s₁ d₁ hsome hintent hno _ hstored hledger =>
      cases hends with
      | refused hsame =>
        cases hbegun : (s.beginAttempt F.attemptId now d).1.ok with
        | false =>
          refine iff_of_true ?_ fun _ hyes => by cases hyes
          exact paired_of_nothing hstore (hsame.store.trans hstored)
            (intent_of_refused hbegun hintent).2 (congrArg _ (hsame.ledger.trans hledger))
            fun _ => fresh_of_error
        | true =>
          obtain ⟨hiff, hqueue⟩ := intent_queue hserved hbegun hintent
          have hcut := mt hiff.mpr (by rw [hno]; exact Bool.false_ne_true)
          rw [paired_refused_iff hstore (hsame.store.trans hstored) hqueue
            (hsame.ledger.trans hledger)]
          exact ⟨fun hnone _ _ => ⟨fun hall => absurd hall hcut, fun _ => hnone⟩,
            fun hpairs => (hpairs hsome rfl).2 hcut⟩
    | @failed st st₂ F₁ s₁ s₂ d₁ d₂ hsome hintent hyes hno habort _ hstored hledger =>
      cases hends with
      | @failed _ _ F₂ _ hsame =>
        have hbegun := begun_of_intent hintent hyes
        have hover := not_not.mp (mt hlineages.ok.mpr (by rw [hno]; exact Bool.false_ne_true))
        have hmarks := (congrArg PropagationLedger.lineages (hsame.ledger.trans hledger)).trans
          (hlineages.uncut (hlineages.whole hover))
        refine iff_of_false (unpaired_of_failed hattempts hsome hno hmarks) fun hpairs => ?_
        have hall := (intent_queue hserved hbegun hintent).1.mp hyes
        exact ((hpairs hsome hbegun).1 hall).fits hover
    | @uncommitted st st₂ F₁ s₁ s₂ d₁ d₂ hsome hintent hyes hok hcommit hno =>
      have hcommits := hserved.commit
      rw [hintent, hcommit] at hcommits
      exact absurd ((hcommits hyes).symm.trans hno) (by decide)
    | @done st st₂ F₁ s₁ s₂ d₁ d₂ hsome hintent hyes hok hcommit _ _ hstored hledger =>
      cases hends with
      | @done _ _ F₂ _ hsame =>
        have hbegun := begun_of_intent hintent hyes
        obtain ⟨hiff, hqueue⟩ := intent_queue hserved hbegun hintent
        have hall := hiff.mp hyes
        obtain ⟨s', hs', hkept⟩ :=
          @store_journalCompactionLocked F₂ d₂ s₂ (hsame.store.trans hstored)
        have hafter : s'.state.lineages = (s.state.rememberAll s.config.maxLineages
            (c.signals.map PressureSignal.lineage)).lineages := by
          rw [hkept.lineages, (DurableStore.commitAttempt_sameQueue hcommit).lineages, hqueue, hall]
        have hsame : (F₂.journalCompactionLocked d₂).1.ledger.lineages =
            (F.ranOf pq topology policy c.signals now).2.lineages := by
          rw [ledger_journalCompactionLocked, hsame.ledger, hledger]
        have hdone := @paired_done_iff pq F (F₂.journalCompactionLocked d₂).1
          (F₂.journalCompactionLocked d₂).2 now topology policy c s s'
          (F.ranOf pq topology policy c.signals now).1 hstore hs' hattempts hsome hafter hok hsame
          hok
        refine hdone.trans ⟨fun hmatched _ _ => ⟨fun _ => hmatched, fun hcut => absurd hall hcut⟩,
          fun hpairs => (hpairs hsome hbegun).1 hall⟩

/-- A journal with room for the attempt of one publisher. -/
theorem paired_small : ∃ F d s, smallFabric 10 = (F, d) ∧ F.store = some s ∧
    F.Served [F.smallSignal] 5 s d ∧
    (Paired .scan F (.publish F.smallSignal) 5
        ((PublishCall.publish F.smallSignal).run .scan F 5 d) ↔
      ∀ topology policy, F.Attempts .scan (.publish F.smallSignal) 5 topology policy →
        (F.planOf .scan topology policy [F.smallSignal] 5).counters.signalsAccepted ≠ 0 →
        (s.beginAttempt F.attemptId 5 d).1.ok = true →
          F.Pairs .scan topology policy [F.smallSignal] 5 s) := by
  have hstored : (smallFabric 10).1.store.any (fun s => decide ((smallFabric 10).1.Served
      [(smallFabric 10).1.smallSignal] 5 s (smallFabric 10).2)) = true := by
    decide +kernel
  generalize hsmall : smallFabric 10 = w at hstored
  obtain ⟨F, d⟩ := w
  obtain ⟨s, hstore, hserved⟩ := (Option.any_eq_true _ _).mp hstored
  have hserved : F.Served [F.smallSignal] 5 s d := of_decide_eq_true hserved
  exact ⟨F, d, s, rfl, hstore, hserved, paired_iff (c := .publish F.smallSignal) hstore hserved⟩

end Fabric

end Backpressure
