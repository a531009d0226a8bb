import Backpressure.Runtime.Agreement

/-!
# The attempt of a publish

`publish` and `publish_batch` check their signals each in its own way, and keep their own books.
What they do in between is the same: a plan, an attempt with the lineages of the signals, the run,
and the commit of the attempt.
-/

namespace Backpressure

/-- A call that publishes. -/
inductive PublishCall
  | publish (signal : PressureSignal)
  | publishBatch (signals : List PressureSignal)

namespace PublishCall

def signals : PublishCall → List PressureSignal
  | publish signal => [signal]
  | publishBatch signals => signals

def run (pq : EntryQueue) (c : PublishCall) (F : Fabric) (now : Tick) (d : Disk) :
    Result PropagationOutcome × Fabric × Disk :=
  match c with
  | publish signal => F.publish pq signal now d
  | publishBatch signals => F.publishBatch pq signals now d

/-- What the call checks of its signals before it plans. -/
def Admits (c : PublishCall) (F : Fabric) (topology : Topology) : Prop :=
  match c with
  | publish signal =>
    (F.checkPublisher signal).ok = true ∧ signal.epoch = F.epoch ∧
      signal.topologyDigest = topology.digest
  | publishBatch signals => signals ≠ [] ∧ (F.checkPublishers signals).ok = true

end PublishCall

namespace Fabric

variable {pq : EntryQueue} {F F' : Fabric} {d d' : Disk} {now : Tick} {topology : Topology}
  {policy : PropagationPolicy} {signals : List PressureSignal} {c : PublishCall}

/-- The engine gives the ledger back. -/
theorem propagate_context {request : PropagationRequest} :
    PropagationEngine.propagate pq F.context request =
      ((F.propagate pq request).1, some (F.propagate pq request).2.ledger) := by
  have hcase := PropagationEngine.propagate_cases pq F.context request
  unfold propagate
  generalize PropagationEngine.propagate pq F.context request = r at hcase ⊢
  cases hcase <;> rfl

/-- The request of a publish of the signals. -/
def request (F : Fabric) (topology : Topology) (policy : PropagationPolicy)
    (signals : List PressureSignal) (now : Tick) : PropagationRequest :=
  requestOf policy topology F.epoch F.attempts signals now

/-- What a publish of the signals plans. -/
def planOf (pq : EntryQueue) (F : Fabric) (topology : Topology) (policy : PropagationPolicy)
    (signals : List PressureSignal) (now : Tick) : PropagationOutcome :=
  (PropagationEngine.propagate pq F.context
    { F.request topology policy signals now with dryRun := true }).1

/-- From durable intent to the commit of the attempt. -/
def attempt (pq : EntryQueue) (F : Fabric) (topology : Topology) (policy : PropagationPolicy)
    (signals : List PressureSignal) (now : Tick) (d : Disk) : Ending × Fabric × Disk :=
  F.draw.2.transact pq (F.request topology policy signals now)
    (F.planOf pq topology policy signals now) true d

/-- The same fabric but for its books and its counter. -/
structure SameCore (F F' : Fabric) : Prop where
  config : F'.config = F.config
  store : F'.store = F.store
  ledger : F'.ledger = F.ledger

/-- What a call makes of how its attempt ends. -/
inductive Ends : Ending × Fabric × Disk → Result PropagationOutcome × Fabric × Disk → Prop
  | refused {st : Status} {F F' : Fabric} {d : Disk} : SameCore F F' →
      Ends (.refused st, F, d) (.error st, F', d)
  | failed {o : PropagationOutcome} {F F' : Fabric} {d : Disk} : SameCore F F' →
      Ends (.failed o, F, d) (.ok o, F', d)
  | mismatch {st : Status} {F F' : Fabric} {d : Disk} : SameCore F F' →
      Ends (.mismatch, F, d) (.error st, F', d)
  | uncommitted {st : Status} {F F' : Fabric} {d : Disk} : SameCore F F' →
      Ends (.uncommitted st, F, d) (.error st, F', d)
  | done {o : PropagationOutcome} {F F' : Fabric} {d : Disk} : SameCore F F' →
      Ends (.done o, F, d) (.ok o, F'.journalCompactionLocked d)

/-- The call gets past its checks, and its plan is not refused. -/
structure Attempts (pq : EntryQueue) (F : Fabric) (c : PublishCall) (now : Tick)
    (topology : Topology) (policy : PropagationPolicy) : Prop where
  serving : F.shuttingDown = false
  hasTopology : F.topology = some topology
  hasPolicy : F.policy = some policy
  admits : c.Admits F topology
  planned : (F.planOf pq topology policy c.signals now).status.ok = true

/-- What a call does: nothing but its books, or an attempt. -/
inductive Runs (pq : EntryQueue) (F : Fabric) (c : PublishCall) (now : Tick) (d : Disk) :
    Result PropagationOutcome × Fabric × Disk → Prop
  | turnedAway {result : Result PropagationOutcome} {F' : Fabric} :
      (∀ topology policy, ¬F.Attempts pq c now topology policy) →
      (∀ o, result = .ok o → o.status.ok = false) → SameCore F F' → Runs pq F c now d (result, F', d)
  | attempted {topology : Topology} {policy : PropagationPolicy}
      {after : Result PropagationOutcome × Fabric × Disk} :
      F.Attempts pq c now topology policy →
      Ends (F.attempt pq topology policy c.signals now d) after → Runs pq F c now d after

/-- A call that fails before it has planned. -/
theorem Runs.early {st : Status} (hno : ∀ topology policy, ¬F.Attempts pq c now topology policy)
    (hsame : SameCore F F') : Runs pq F c now d (.error st, F', d) :=
  .turnedAway hno (fun o ho => by cases ho) hsame

theorem publish_runs (pq : EntryQueue) (F : Fabric) (signal : PressureSignal) (now : Tick)
    (d : Disk) : Runs pq F (.publish signal) now d (F.publish pq signal now d) := by
  have hsame : SameCore F F := ⟨rfl, rfl, rfl⟩
  have hrejected : SameCore F (F.rejectFrom signal.source) := ⟨rfl, rfl, rfl⟩
  unfold publish publishLocked
  split
  case isTrue hdown => exact .early (fun _ _ h => by rw [h.serving] at hdown; cases hdown) hsame
  case isFalse hup =>
  split
  case h_2 hnone => exact .early (fun _ _ h => hnone _ _ h.hasTopology h.hasPolicy) hsame
  case h_1 topology policy htopology hpolicy =>
    have htopo : ∀ {t p}, F.Attempts pq (.publish signal) now t p → t = topology := fun h =>
      Option.some.inj (h.hasTopology.symm.trans htopology)
    have hpol : ∀ {t p}, F.Attempts pq (.publish signal) now t p → p = policy := fun h =>
      Option.some.inj (h.hasPolicy.symm.trans hpolicy)
    split
    case h_1 hunknown =>
      refine .early (fun t p h => ?_) hsame
      have hcheck := h.admits.1
      unfold checkPublisher at hcheck
      rw [hunknown] at hcheck
      cases hcheck
    case h_2 record hknown =>
    split
    case isTrue hother =>
      refine .early (fun t p h => ?_) hrejected
      have hcheck := h.admits.1
      unfold checkPublisher at hcheck
      rw [hknown] at hcheck
      dsimp only at hcheck
      rw [if_pos hother] at hcheck
      cases hcheck
    case isFalse hincarnation =>
    split
    case isTrue hdead =>
      refine .early (fun t p h => ?_) hrejected
      have hcheck := h.admits.1
      unfold checkPublisher at hcheck
      rw [hknown] at hcheck
      dsimp only at hcheck
      rw [if_neg hincarnation, if_pos hdead] at hcheck
      cases hcheck
    case isFalse hlive =>
    split
    case isTrue hepoch => exact .early (fun _ _ h => hepoch h.admits.2.1) hrejected
    case isFalse hepoch =>
    split
    case isTrue hdigest =>
      refine .early (fun t p h => hdigest ?_) hrejected
      rw [← htopo h]
      exact h.admits.2.2
    case isFalse hdigest =>
    dsimp only
    rw [propagate_dryRun]
    dsimp only
    split
    case isTrue hno =>
      have hno : (F.planOf pq topology policy [signal] now).status.ok = false :=
        Bool.not_eq_true' _ ▸ hno
      refine .turnedAway (fun t p h => ?_) (fun o ho => ?_) ⟨rfl, rfl, rfl⟩
      · have hplanned := h.planned
        rw [htopo h, hpol h] at hplanned
        exact absurd (hplanned.symm.trans hno) (by decide)
      · cases ho
        exact hno
    case isFalse hok =>
      have hplan : (F.planOf pq topology policy [signal] now).status.ok = true := by
        rw [Bool.not_eq_true', Bool.not_eq_false] at hok
        exact hok
      have hcheck : (F.checkPublisher signal).ok = true := by
        unfold checkPublisher
        rw [hknown]
        dsimp only
        rw [if_neg hincarnation, if_neg hlive]
        rfl
      refine .attempted ⟨by simpa using hup, htopology, hpolicy,
        ⟨hcheck, not_not.mp hepoch, not_not.mp hdigest⟩, hplan⟩ ?_
      rw [if_neg Bool.false_ne_true]
      generalize htransact : Fabric.transact pq _ _ _ _ _ = after
      have hattempt : F.attempt pq topology policy [signal] now d = after := htransact
      show Ends (F.attempt pq topology policy [signal] now d) _
      rw [hattempt]
      obtain ⟨ending, F₁, d₁⟩ := after
      cases ending with
      | refused st => exact .refused ⟨rfl, rfl, rfl⟩
      | failed o => exact .failed ⟨rfl, rfl, rfl⟩
      | mismatch => exact .mismatch ⟨rfl, rfl, rfl⟩
      | uncommitted st => exact .uncommitted ⟨rfl, rfl, rfl⟩
      | done o => exact .done ⟨rfl, rfl, rfl⟩

theorem publishBatch_runs (pq : EntryQueue) (F : Fabric) (signals : List PressureSignal)
    (now : Tick) (d : Disk) :
    Runs pq F (.publishBatch signals) now d (F.publishBatch pq signals now d) := by
  have hsame : SameCore F F := ⟨rfl, rfl, rfl⟩
  unfold publishBatch
  split
  case isTrue hdown => exact .early (fun _ _ h => by rw [h.serving] at hdown; cases hdown) hsame
  case isFalse hup =>
  split
  case h_2 hnone => exact .early (fun _ _ h => hnone _ _ h.hasTopology h.hasPolicy) hsame
  case h_1 topology policy htopology hpolicy =>
    split
    case isTrue hempty => exact .early (fun _ _ h => h.admits.1 hempty) hsame
    case isFalse hsome =>
    split
    case isTrue hno =>
      refine .early (fun t p h => ?_) hsame
      rw [h.admits.2] at hno
      cases hno
    case isFalse hcheck =>
    dsimp only
    rw [propagate_dryRun]
    dsimp only
    split
    case isTrue hno =>
      have hno : (F.planOf pq topology policy signals now).status.ok = false :=
        Bool.not_eq_true' _ ▸ hno
      refine .turnedAway (fun t p h => ?_) (fun o ho => ?_) ⟨rfl, rfl, rfl⟩
      · have hplanned := h.planned
        rw [Option.some.inj (h.hasTopology.symm.trans htopology),
          Option.some.inj (h.hasPolicy.symm.trans hpolicy)] at hplanned
        exact absurd (hplanned.symm.trans hno) (by decide)
      · cases ho
        exact hno
    case isFalse hok =>
      have hplan : (F.planOf pq topology policy signals now).status.ok = true := by
        rw [Bool.not_eq_true', Bool.not_eq_false] at hok
        exact hok
      refine .attempted ⟨by simpa using hup, htopology, hpolicy, ⟨hsome, by simpa using hcheck⟩,
        hplan⟩ ?_
      generalize htransact : Fabric.transact pq _ _ _ _ _ = after
      have hattempt : F.attempt pq topology policy signals now d = after := htransact
      show Ends (F.attempt pq topology policy signals now d) _
      rw [hattempt]
      obtain ⟨ending, F₁, d₁⟩ := after
      cases ending with
      | refused st => exact .refused ⟨rfl, rfl, rfl⟩
      | failed o => exact .failed ⟨rfl, rfl, rfl⟩
      | mismatch => exact .mismatch ⟨rfl, rfl, rfl⟩
      | uncommitted st => exact .uncommitted ⟨rfl, rfl, rfl⟩
      | done o => exact .done ⟨rfl, rfl, rfl⟩

theorem runs (pq : EntryQueue) (F : Fabric) (c : PublishCall) (now : Tick) (d : Disk) :
    Runs pq F c now d (c.run pq F now d) := by
  cases c with
  | publish signal => exact publish_runs pq F signal now d
  | publishBatch signals => exact publishBatch_runs pq F signals now d

/-! ## The steps of an attempt -/

/-- The number of the attempt that a publish makes. -/
def attemptId (F : Fabric) : AttemptId := ⟨F.attempts + 1⟩

/-- What the run of a publish reports, and the ledger after it. -/
def ranOf (pq : EntryQueue) (F : Fabric) (topology : Topology) (policy : PropagationPolicy)
    (signals : List PressureSignal) (now : Tick) : PropagationOutcome × PropagationLedger :=
  let (outcome, F) := F.propagate pq (F.request topology policy signals now)
  (outcome, F.ledger)

/-- Durable intent of a publish: its attempt, and the lineages of its signals. -/
def intent (F : Fabric) (signals : List PressureSignal) (now : Tick) (s : DurableStore) (d : Disk) :
    Status × DurableStore × Disk :=
  recordIntent F.attemptId (signals.map PressureSignal.lineage) now s d

section Steps

variable (pq : EntryQueue) (F : Fabric) (topology : Topology) (policy : PropagationPolicy)
  (signals : List PressureSignal) (now : Tick) (d : Disk)

/-- The attempt of a fabric with a store, step by step. -/
inductive Tried (s : DurableStore) : Ending × Fabric × Disk → Prop
  | idle {ending : Ending} {F₁ : Fabric} :
      (F.planOf pq topology policy signals now).counters.signalsAccepted = 0 →
      F₁.config = F.config → F₁.store = some s →
      F₁.ledger = (F.ranOf pq topology policy signals now).2 →
      ((F.ranOf pq topology policy signals now).1.status.ok = false ∧
          ending = .failed (F.ranOf pq topology policy signals now).1 ∨
        (F.ranOf pq topology policy signals now).1.status.ok = true ∧
          ending = .done (F.ranOf pq topology policy signals now).1) → Tried s (ending, F₁, d)
  | refused {st : Status} {F₁ : Fabric} {s₁ : DurableStore} {d₁ : Disk} :
      (F.planOf pq topology policy signals now).counters.signalsAccepted ≠ 0 →
      F.intent signals now s d = (st, s₁, d₁) → st.ok = false →
      F₁.config = F.config → F₁.store = some s₁ → F₁.ledger = F.ledger →
      Tried s (.refused st, F₁, d₁)
  | failed {st st₂ : Status} {F₁ : Fabric} {s₁ s₂ : DurableStore} {d₁ d₂ : Disk} :
      (F.planOf pq topology policy signals now).counters.signalsAccepted ≠ 0 →
      F.intent signals now s d = (st, s₁, d₁) → st.ok = true →
      (F.ranOf pq topology policy signals now).1.status.ok = false →
      s₁.abortAttempt F.attemptId now d₁ = (st₂, s₂, d₂) →
      F₁.config = F.config → F₁.store = some s₂ →
      F₁.ledger = (F.ranOf pq topology policy signals now).2 →
      Tried s (.failed (F.ranOf pq topology policy signals now).1, F₁, d₂)
  | uncommitted {st st₂ : Status} {F₁ : Fabric} {s₁ s₂ : DurableStore} {d₁ d₂ : Disk} :
      (F.planOf pq topology policy signals now).counters.signalsAccepted ≠ 0 →
      F.intent signals now s d = (st, s₁, d₁) → st.ok = true →
      (F.ranOf pq topology policy signals now).1.status.ok = true →
      s₁.commitAttempt F.attemptId now d₁ = (st₂, s₂, d₂) → st₂.ok = false →
      F₁.config = F.config → F₁.store = some s₂ →
      F₁.ledger = (F.ranOf pq topology policy signals now).2 →
      Tried s (.uncommitted st₂, F₁, d₂)
  | done {st st₂ : Status} {F₁ : Fabric} {s₁ s₂ : DurableStore} {d₁ d₂ : Disk} :
      (F.planOf pq topology policy signals now).counters.signalsAccepted ≠ 0 →
      F.intent signals now s d = (st, s₁, d₁) → st.ok = true →
      (F.ranOf pq topology policy signals now).1.status.ok = true →
      s₁.commitAttempt F.attemptId now d₁ = (st₂, s₂, d₂) → st₂.ok = true →
      F₁.config = F.config → F₁.store = some s₂ →
      F₁.ledger = (F.ranOf pq topology policy signals now).2 →
      Tried s (.done (F.ranOf pq topology policy signals now).1, F₁, d₂)

variable {pq F topology policy signals now d}

/-- A run that is not part of a durable attempt. -/
theorem apply_idle {request : PropagationRequest} {planned : PropagationOutcome}
    (hplanned : Planned pq F request planned) :
    let ran := F.propagate pq { request with dryRun := false }
    ran.1.status.ok = false ∧ F.apply pq none request planned d = (.failed ran.1, ran.2, d) ∨
      ran.1.status.ok = true ∧ F.apply pq none request planned d = (.done ran.1, ran.2, d) := by
  intro ran
  have hsound : (F.apply pq none request planned d).1.Sound := apply_sound hplanned
  revert hsound
  unfold apply
  dsimp only
  split
  case isTrue hno => exact fun _ => .inl ⟨by simpa using hno, rfl⟩
  case isFalse hyes =>
    split
    · exact fun hsound => hsound.elim
    · exact fun _ => .inr ⟨by simpa using hyes, rfl⟩

/-- A run in a durable attempt, and what becomes of the attempt. -/
theorem apply_durable {request : PropagationRequest} {planned : PropagationOutcome}
    {id : AttemptId} {s : DurableStore} (hplanned : Planned pq F request planned)
    (hstore : F.store = some s) :
    let ran := F.propagate pq { request with dryRun := false }
    (ran.1.status.ok = false ∧ ∃ st s₁ d₁, s.abortAttempt id request.now d = (st, s₁, d₁) ∧
        F.apply pq (some id) request planned d =
          (.failed ran.1, { ran.2 with store := some s₁ }, d₁)) ∨
      ran.1.status.ok = true ∧ ∃ st s₁ d₁, s.commitAttempt id request.now d = (st, s₁, d₁) ∧
        (st.ok = false ∧ F.apply pq (some id) request planned d =
            (.uncommitted st, { ran.2 with store := some s₁ }, d₁) ∨
          st.ok = true ∧ F.apply pq (some id) request planned d =
            (.done ran.1, { ran.2 with store := some s₁ }, d₁)) := by
  intro ran
  have hran : ran.2.store = some s := hstore
  have hsound : (F.apply pq (some id) request planned d).1.Sound := apply_sound hplanned
  rcases habort : s.abortAttempt id request.now d with ⟨st₁, s₁, d₁⟩
  rcases hcommit : s.commitAttempt id request.now d with ⟨st₂, s₂, d₂⟩
  have happly : F.apply pq (some id) request planned d =
      if !ran.1.status.ok then (.failed ran.1, { ran.2 with store := some s₁ }, d₁)
      else if ran.1.fingerprint ≠ planned.fingerprint then
        (.mismatch, { ran.2 with store := some s₁ }, d₁)
      else if !st₂.ok then (.uncommitted st₂, { ran.2 with store := some s₂ }, d₂)
      else (.done ran.1, { ran.2 with store := some s₂ }, d₂) := by
    unfold apply abandon
    dsimp only
    rw [hran]
    dsimp only
    rw [habort, hcommit]
  rw [happly] at hsound ⊢
  cases hok : ran.1.status.ok with
  | false => exact .inl ⟨rfl, st₁, s₁, d₁, rfl, rfl⟩
  | true =>
    rw [hok, Bool.not_true, if_neg Bool.false_ne_true] at hsound
    refine .inr ⟨rfl, st₂, s₂, d₂, rfl, ?_⟩
    rw [Bool.not_true, if_neg Bool.false_ne_true]
    split at hsound
    · exact hsound.elim
    case isFalse hsame =>
      rw [if_neg hsame]
      cases hst : st₂.ok with
      | false => exact .inl ⟨rfl, rfl⟩
      | true => exact .inr ⟨rfl, rfl⟩

theorem tried {s : DurableStore} (hstore : F.store = some s) :
    Tried pq F topology policy signals now d s (F.attempt pq topology policy signals now d) := by
  have hdrawn : F.draw.2.store = some s := hstore
  unfold attempt transact
  rw [hdrawn]
  dsimp only
  by_cases hnone : (F.planOf pq topology policy signals now).counters.signalsAccepted = 0
  · rw [hnone, if_neg (by simp)]
    have hidle := @apply_idle pq F.draw.2 d (F.request topology policy signals now)
      (F.planOf pq topology policy signals now) rfl
    rcases hidle with ⟨hno, hidle⟩ | ⟨hyes, hidle⟩
    · rw [hidle]
      exact .idle hnone rfl hstore rfl (.inl ⟨hno, rfl⟩)
    · rw [hidle]
      exact .idle hnone rfl hstore rfl (.inr ⟨hyes, rfl⟩)
  · rw [if_pos (by simpa using Nat.pos_of_ne_zero hnone)]
    rcases hintent : F.intent signals now s d with ⟨st, s₁, d₁⟩
    have hsame : recordIntent ⟨F.draw.2.draw.1⟩
        ((F.request topology policy signals now).signals.map PressureSignal.lineage)
        (F.request topology policy signals now).now s d = (st, s₁, d₁) := hintent
    rw [hsame]
    dsimp only
    cases hst : st.ok with
    | false => exact .refused hnone hintent hst rfl rfl rfl
    | true =>
      rw [Bool.not_true, if_neg Bool.false_ne_true]
      have hdurable := @apply_durable pq { F.draw.2.draw.2 with store := some s₁ } d₁
        (F.request topology policy signals now) (F.planOf pq topology policy signals now)
        F.attemptId s₁ rfl rfl
      rcases hdurable with ⟨hno, st₂, s₂, d₂, habort, hend⟩ |
        ⟨hok, st₂, s₂, d₂, hcommit, ⟨hno, hend⟩ | ⟨hyes, hend⟩⟩
      · rw [show (⟨F.draw.2.draw.1⟩ : AttemptId) = F.attemptId from rfl, hend]
        exact .failed hnone hintent hst hno habort rfl rfl rfl
      · rw [show (⟨F.draw.2.draw.1⟩ : AttemptId) = F.attemptId from rfl, hend]
        exact .uncommitted hnone hintent hst hok hcommit hno rfl rfl rfl
      · rw [show (⟨F.draw.2.draw.1⟩ : AttemptId) = F.attemptId from rfl, hend]
        exact .done hnone hintent hst hok hcommit hyes rfl rfl rfl

end Steps

/-- What an attempt reports is what its run reports, with a store and without. -/
theorem reported {ending : Ending} {F₁ : Fabric} {d₁ : Disk}
    (h : F.attempt pq topology policy signals now d = (ending, F₁, d₁)) :
    (∀ o, ending = .failed o → o.status.ok = false) ∧
      ∀ o, ending = .done o → (o, F₁.ledger) = F.ranOf pq topology policy signals now := by
  cases hstore : F.store with
  | none =>
    have hdrawn : F.draw.2.store = none := hstore
    have hidle := @apply_idle pq F.draw.2 d (F.request topology policy signals now)
      (F.planOf pq topology policy signals now) rfl
    unfold attempt transact at h
    rw [hdrawn] at h
    dsimp only at h
    rcases hidle with ⟨hno, hidle⟩ | ⟨-, hidle⟩
    · rw [hidle] at h
      cases h
      refine ⟨fun o ho => ?_, fun o ho => by cases ho⟩
      cases ho
      exact hno
    · rw [hidle] at h
      cases h
      refine ⟨fun o ho => (by cases ho), fun o ho => ?_⟩
      cases ho
      rfl
  | some s =>
    have htried := @tried pq F topology policy signals now d s hstore
    rw [h] at htried
    cases htried with
    | idle _ _ _ hledger hending =>
      rcases hending with ⟨hno, rfl⟩ | ⟨-, rfl⟩
      · refine ⟨fun o ho => ?_, fun o ho => by cases ho⟩
        cases ho
        exact hno
      · refine ⟨fun o ho => (by cases ho), fun o ho => ?_⟩
        cases ho
        exact Prod.ext rfl hledger
    | refused => exact ⟨fun o ho => (by cases ho), fun o ho => by cases ho⟩
    | failed _ _ _ hno =>
      refine ⟨fun o ho => ?_, fun o ho => by cases ho⟩
      cases ho
      exact hno
    | uncommitted => exact ⟨fun o ho => (by cases ho), fun o ho => by cases ho⟩
    | done _ _ _ _ _ _ _ _ hledger =>
      refine ⟨fun o ho => (by cases ho), fun o ho => ?_⟩
      cases ho
      exact Prod.ext rfl hledger

theorem ledger_journalCompactionLocked : (F.journalCompactionLocked d).1.ledger = F.ledger := by
  unfold journalCompactionLocked
  split <;> rfl

end Fabric

end Backpressure
