import Backpressure.Runtime.Books
import Backpressure.Runtime.FullJournal
import Backpressure.Runtime.Recorded
import Backpressure.Store.Settings

/-!
# What a call does to its store

Whatever a call of the fabric returns, it has taken its store through a course of operations, and
has given it no more lineages than there are signals. What is set in the store is changed by one
operation at most, or, when a footprint is flushed, only grows. The window of the ledger has marked
no more lineages than the store was given.
-/

namespace Backpressure

namespace Fabric

open DurableStore (Course Kept Op recorded recorded_append changes changes_append)

variable {pq : EntryQueue} {config : FabricConfig} {F F₁ F' : Fabric} {s s₁ s' : DurableStore}
  {d d₁ d' : Disk} {st : Status} {now : Tick} {n n' m m' : Nat} {c : DurableStore.Call}
  {ops more : List Op}

/-! ## Courses of calls -/

/-- So many lineages and so many changes of what is set, at most. -/
def Within (n m : Nat) (ops : List Op) : Prop := recorded ops ≤ n ∧ changes ops ≤ m

theorem Within.nil : Within n m [] := ⟨Nat.zero_le n, Nat.zero_le m⟩

theorem Within.append (h : Within n m ops) (h' : Within n' m' more) :
    Within (n + n') (m + m') (ops ++ more) := by
  unfold Within at *
  rw [recorded_append, changes_append]
  omega

theorem Within.mono (h : Within n m ops) (hn : n ≤ n') (hm : m ≤ m') : Within n' m' ops :=
  ⟨h.1.trans hn, h.2.trans hm⟩

/-- The store of the fabric goes through a course within the bounds. -/
def Goes (F : Fabric) (d : Disk) (F' : Fabric) (d' : Disk) (n m : Nat) : Prop :=
  ∃ s s' ops, F.store = some s ∧ F'.store = some s' ∧ Course ops s d s' d' ∧ Within n m ops

namespace Goes

theorem idle (hstore : F.store = some s) (hsame : F'.store = F.store) : F.Goes d F' d n m :=
  ⟨s, s, [], hstore, hsame.trans hstore, .nil, .nil⟩

theorem of_course (hstore : F.store = some s) (hafter : F'.store = some s')
    (hcourse : Course ops s d s' d') (hwithin : Within n m ops) : F.Goes d F' d' n m :=
  ⟨s, s', ops, hstore, hafter, hcourse, hwithin⟩

theorem trans (h : F.Goes d F₁ d₁ n m) (h' : F₁.Goes d₁ F' d' n' m') :
    F.Goes d F' d' (n + n') (m + m') := by
  obtain ⟨s, s₁, ops, hstore, hafter, hcourse, hwithin⟩ := h
  obtain ⟨s₂, s', more, hstore', hend, hcourse', hwithin'⟩ := h'
  cases hafter.symm.trans hstore'
  exact ⟨s, s', ops ++ more, hstore, hend, hcourse.append hcourse', hwithin.append hwithin'⟩

theorem of_same (h : F.Goes d F₁ d' n m) (hsame : F'.store = F₁.store) : F.Goes d F' d' n m := by
  obtain ⟨s, s₁, ops, hstore, hafter, hcourse⟩ := h
  exact ⟨s, s₁, ops, hstore, hsame.trans hafter, hcourse⟩

theorem mono (h : F.Goes d F' d' n m) (hn : n ≤ n') (hm : m ≤ m') : F.Goes d F' d' n' m' := by
  obtain ⟨s, s', ops, hstore, hafter, hcourse, hwithin⟩ := h
  exact ⟨s, s', ops, hstore, hafter, hcourse, hwithin.mono hn hm⟩

end Goes

/-- One call of the store. -/
theorem course_call {after : Status × DurableStore × Disk} (hsafe : c.Safe s)
    (hrun : c.run s d = after) : Course [.call c] s d after.2.1 after.2.2 := by
  subst hrun
  exact .one hsafe rfl

/-- The call gives the store no lineage and leaves alone what is set. -/
theorem within_still (hrecords : (Op.call c).records = 0) (hstill : c.still = true) :
    Within 0 0 [.call c] := by
  refine ⟨?_, ?_⟩
  · rw [DurableStore.recorded_cons, hrecords]
    exact Nat.le_refl 0
  · exact (DurableStore.changes_still (o := .call c) hstill).le

/-- The call gives the store no lineage. -/
theorem within_call (hrecords : (Op.call c).records = 0) : Within 0 1 [.call c] := by
  refine ⟨?_, List.countP_le_length⟩
  rw [DurableStore.recorded_cons, hrecords]
  exact Nat.le_refl 0

/-- A call that changes the store and then the fabric. -/
theorem Goes.withStore {change : DurableStore → Disk → Status × DurableStore × Disk}
    {next : Fabric → Status × Fabric} (hstore : F.store = some s)
    (hchange : change s d = c.run s d) (hsafe : c.Safe s) (hnone : (Op.call c).records = 0)
    (hnext : ∀ F : Fabric, (next F).2.store = F.store) :
    F.Goes d (F.withStore change d next).2.1 (F.withStore change d next).2.2 0 1 := by
  rcases hcall : F.withStore change d next with ⟨st, F', d'⟩
  obtain ⟨st₁, s₁, hwrite, hend⟩ := withStore_cases hstore hcall
  have hrun : (Op.call c).run s d = (s₁, d') := congrArg Prod.snd (hchange.symm.trans hwrite)
  have hafter : F'.store = some s₁ := by
    rcases hend with ⟨-, -, rfl⟩ | ⟨-, hrun⟩
    · rfl
    · have hkept := hnext { F with store := some s₁ }
      rw [← hrun] at hkept
      exact hkept
  exact of_course hstore hafter (.one (o := .call c) hsafe hrun) (within_call hnone)

/-! ## Publishing -/

theorem course_recordLineages {attempt : AttemptId} {lineages : List Digest128}
    (hrun : recordLineages attempt now lineages s d = (st, s', d')) :
    ∃ ops, Course ops s d s' d' ∧ Within lineages.length 0 ops := by
  induction lineages generalizing s d with
  | nil =>
    cases hrun
    exact ⟨[], .nil, .nil⟩
  | cons lineage rest ih =>
    rw [recordLineages] at hrun
    rcases hrecord : s.recordLineage lineage now d with ⟨st₁, s₁, d₁⟩
    rw [hrecord] at hrun
    dsimp only at hrun
    have hone := course_call (c := .recordLineage lineage now) trivial hrecord
    have hwithin : Within 1 0 [.call (.recordLineage lineage now)] := ⟨Nat.le_refl 1, Nat.le_refl 0⟩
    split at hrun
    · rcases habort : s₁.abortAttempt attempt now d₁ with ⟨st₂, s₂, d₂⟩
      rw [habort] at hrun
      cases hrun
      refine ⟨_, hone.append (course_call (c := .abortAttempt attempt now) trivial habort), ?_⟩
      exact (hwithin.append (within_still rfl rfl)).mono (Nat.le_add_left 1 _) (Nat.le_refl 0)
    · obtain ⟨ops, hrest, hcount⟩ := ih hrun
      refine ⟨_, hone.append hrest, (hwithin.append hcount).mono ?_ (Nat.le_refl 0)⟩
      rw [List.length_cons]
      omega

theorem course_intent {signals : List PressureSignal}
    (hintent : F.intent signals now s d = (st, s', d')) :
    ∃ ops, Course ops s d s' d' ∧ Within signals.length 0 ops := by
  unfold intent recordIntent at hintent
  rcases hbegin : s.beginAttempt F.attemptId now d with ⟨st₁, s₁, d₁⟩
  rw [hbegin] at hintent
  dsimp only at hintent
  have hone := course_call (c := .beginAttempt F.attemptId now) trivial hbegin
  have hwithin : Within 0 0 [.call (.beginAttempt F.attemptId now)] := within_still rfl rfl
  split at hintent
  · cases hintent
    exact ⟨_, hone, hwithin.mono (Nat.zero_le _) (Nat.le_refl 0)⟩
  · obtain ⟨ops, hrest, hcount⟩ := course_recordLineages hintent
    refine ⟨_, hone.append hrest, (hwithin.append hcount).mono ?_ (Nat.le_refl 0)⟩
    rw [List.length_map]
    omega

/-- The attempt of a publish, up to its end. -/
theorem attempt_goes {topology : Topology} {policy : PropagationPolicy}
    {signals : List PressureSignal} {after : Ending × Fabric × Disk} (hstore : F.store = some s)
    (h : Tried pq F topology policy signals now d s after) :
    F.Goes d after.2.1 after.2.2 signals.length 0 := by
  cases h with
  | idle _ _ hafter => exact .idle hstore (hafter.trans hstore.symm)
  | refused _ hintent _ _ hafter =>
    obtain ⟨ops, hcourse, hcount⟩ := course_intent hintent
    exact .of_course hstore hafter hcourse hcount
  | failed _ hintent _ _ habort _ hafter =>
    obtain ⟨ops, hcourse, hcount⟩ := course_intent hintent
    exact .of_course hstore hafter
      (hcourse.append (course_call (c := .abortAttempt F.attemptId now) trivial habort))
      (hcount.append (within_still rfl rfl))
  | uncommitted _ hintent _ _ hcommit _ _ hafter =>
    obtain ⟨ops, hcourse, hcount⟩ := course_intent hintent
    exact .of_course hstore hafter
      (hcourse.append (course_call (c := .commitAttempt F.attemptId now) trivial hcommit))
      (hcount.append (within_still rfl rfl))
  | done _ hintent _ _ hcommit _ _ hafter =>
    obtain ⟨ops, hcourse, hcount⟩ := course_intent hintent
    exact .of_course hstore hafter
      (hcourse.append (course_call (c := .commitAttempt F.attemptId now) trivial hcommit))
      (hcount.append (within_still rfl rfl))

theorem journalCompactionLocked_goes (hstore : F.store = some s) (hfits : s.CompactFits) :
    F.Goes d (F.journalCompactionLocked d).1 (F.journalCompactionLocked d).2 0 0 := by
  unfold journalCompactionLocked
  rw [hstore]
  dsimp only
  unfold DurableStore.compactIfNeeded
  split
  · exact .idle hstore hstore.symm
  · rcases hcompact : s.compact d with ⟨st₁, s₁, d₁⟩
    exact .of_course hstore rfl (course_call (c := .compact) hfits hcompact) (within_still rfl rfl)

/-- What the attempt of a call finishes with. -/
theorem finishes_of_attempt {p : PublishCall} {topology : Topology} {policy : PropagationPolicy}
    {o : PropagationOutcome} (hattempts : F.Attempts pq p now topology policy)
    (h : F.attempt pq topology policy p.signals now d = (.done o, F₁, d₁))
    (hafter : F₁.store = some s) : F.Finishes pq p.signals now d s := by
  refine ⟨topology, policy, o, F₁, d₁, hattempts.hasTopology, hattempts.hasPolicy, ?_, hafter⟩
  dsimp only
  rw [propagate_dryRun]
  exact h

theorem publish_goes {p : PublishCall} (hstore : F.store = some s)
    (hfits : ∀ s, F.Finishes pq p.signals now d s → s.CompactFits) :
    F.Goes d (p.run pq F now d).2.1 (p.run pq F now d).2.2 p.signals.length 0 := by
  have hruns := runs pq F p now d
  generalize p.run pq F now d = after at hruns
  cases hruns with
  | turnedAway _ _ hsame => exact .idle hstore hsame.store
  | @attempted topology policy after hattempts hends =>
    have htried := @tried pq F topology policy p.signals now d s hstore
    have hgoes := attempt_goes hstore htried
    rcases hattempt : F.attempt pq topology policy p.signals now d with ⟨ending, F₁, d₁⟩
    rw [hattempt] at hends hgoes
    cases hends with
    | refused hsame => exact hgoes.of_same hsame.store
    | failed hsame => exact hgoes.of_same hsame.store
    | mismatch hsame => exact hgoes.of_same hsame.store
    | uncommitted hsame => exact hgoes.of_same hsame.store
    | @done o _ F₂ _ hsame =>
      obtain ⟨_, s₁, -, -, hafter, -⟩ := hgoes
      have hgoes := attempt_goes hstore htried
      rw [hattempt] at hgoes
      exact (hgoes.of_same hsame.store).trans
        (journalCompactionLocked_goes (hsame.store.trans hafter)
          (hfits s₁ (finishes_of_attempt hattempts hattempt hafter)))

/-! ## The other calls -/

/-- The records of a footprint only add to what is to be revalidated. -/
theorem course_recordFootprints {slices : List (List (SourceId × ResourceId))}
    (hslices : ∀ slice ∈ slices, (∀ e ∈ slice, e.1.valid = true ∧ e.2.valid = true) ∧
      5 + slice.length * 16 < 2 ^ 32)
    (hrun : recordFootprints now slices s d = (st, s', d')) :
    ∃ ops, Course ops s d s' d' ∧ recorded ops = 0 ∧ ∀ o ∈ ops, o.grows = true := by
  induction slices generalizing s d with
  | nil =>
    cases hrun
    exact ⟨[], .nil, rfl, by simp⟩
  | cons slice rest ih =>
    rw [List.forall_mem_cons] at hslices
    rw [recordFootprints] at hrun
    rcases hrecord : s.recordPressureFootprint slice now d with ⟨st₁, s₁, d₁⟩
    rw [hrecord] at hrun
    dsimp only at hrun
    have hone := course_call (c := .recordPressureFootprint slice now) (fun _ _ => hslices.1)
      hrecord
    split at hrun
    · cases hrun
      refine ⟨_, hone, rfl, fun o ho => ?_⟩
      rw [List.mem_singleton.mp ho]
      rfl
    · obtain ⟨ops, hrest, hcount, hgrows⟩ := ih hslices.2 hrun
      refine ⟨_, hone.append hrest, ?_, ?_⟩
      · rw [recorded_append, hcount]
        rfl
      · exact List.forall_mem_cons.mpr ⟨rfl, hgrows⟩

/-- What a flush takes its store through. -/
theorem course_flushLocked (h : F.Resting config d)
    (hshort : ∀ slice ∈ (footprint F.ledger).toChunks (footprintChunk F.config.journalLimits),
      5 + slice.length * 16 < 2 ^ 32) :
    ∃ s s' ops, F.store = some s ∧ (F.flushLocked now d).2.1.store = some s' ∧
      Course ops s d s' (F.flushLocked now d).2.2 ∧ recorded ops = 0 ∧
        ∀ o ∈ ops, o.grows = true := by
  obtain ⟨s, hstore, hkept⟩ := h.store
  unfold flushLocked
  rw [hstore]
  dsimp only
  rcases hrecord : recordFootprints now ((footprint F.ledger).toChunks
    (footprintChunk F.config.journalLimits)) s d with ⟨st₁, s₁, d₁⟩
  obtain ⟨ops, hcourse, hcount, hgrows⟩ := course_recordFootprints (fun slice hslice =>
    ⟨fun e he => identified_footprint h.ledger e (mem_of_mem_toChunks hslice he),
      hshort slice hslice⟩) hrecord
  dsimp only
  split
  · exact ⟨s, s₁, ops, rfl, rfl, hcourse, hcount, hgrows⟩
  · refine ⟨s, s₁, _, rfl, rfl, hcourse.append (.one (o := .sync) trivial rfl), ?_, ?_⟩
    · rw [recorded_append, hcount]
      rfl
    · exact List.forall_mem_append.mpr ⟨hgrows, by simp [Op.grows, Op.still]⟩

theorem flushLocked_goes (h : F.Resting config d)
    (hshort : ∀ slice ∈ (footprint F.ledger).toChunks (footprintChunk F.config.journalLimits),
      5 + slice.length * 16 < 2 ^ 32) :
    ∃ m, F.Goes d (F.flushLocked now d).2.1 (F.flushLocked now d).2.2 0 m := by
  obtain ⟨s, s', ops, hstore, hafter, hcourse, hcount, -⟩ :=
    @course_flushLocked config F d now h hshort
  exact ⟨_, .of_course hstore hafter hcourse ⟨hcount.le, Nat.le_refl _⟩⟩

theorem putFence_goes {fence : Fence} (hstore : F.store = some s)
    (hsafe : (DurableStore.Call.putFence (fence.rebind F.epoch) now).Safe s) :
    F.Goes d (F.putFence fence now d).2.1 (F.putFence fence now d).2.2 0 1 := by
  rcases hcall : F.putFence fence now d with ⟨st, F', d'⟩
  rcases putFence_cases hstore hcall with
    ⟨-, rfl, rfl⟩ | ⟨f, st₁, s₁, ⟨-, hrebind, hepoch⟩, hwrite, hend⟩
  · exact .idle hstore rfl
  have hbound : f = fence.rebind F.epoch := by rw [← hrebind, Fence.rebind, ← hepoch]
  have hone := course_call (c := .putFence f now) (by rw [hbound]; exact hsafe) hwrite
  refine .of_course hstore ?_ hone (within_call rfl)
  rcases hend with ⟨-, -, rfl⟩ | ⟨-, -, rfl⟩
  · rfl
  · rfl

theorem clearFence_goes {id : FenceId} (hstore : F.store = some s) :
    F.Goes d (F.clearFence id now d).2.1 (F.clearFence id now d).2.2 0 1 :=
  .withStore (c := .removeFence id now) hstore rfl trivial rfl fun _ => rfl

theorem installTopology_goes {resources : List Resource} {edges : List DependencyEdge}
    (hstore : F.store = some s) :
    F.Goes d (F.installTopology resources edges now d).2.1
      (F.installTopology resources edges now d).2.2 0 1 := by
  unfold installTopology
  split
  · exact .idle hstore rfl
  split
  · exact .idle hstore rfl
  case h_2 topology _ =>
    exact .withStore (c := .bindTopology topology.digest topology.generation now) hstore
      rfl trivial rfl fun _ => rfl

theorem installPolicy_goes {policy : PropagationPolicy} (hstore : F.store = some s) :
    F.Goes d (F.installPolicy policy now d).2.1 (F.installPolicy policy now d).2.2 0 1 := by
  unfold installPolicy
  split
  · exact .idle hstore rfl
  split
  · exact .idle hstore rfl
  dsimp only
  split
  · exact .withStore (c := .persistPolicy policy now) hstore rfl trivial rfl
      fun _ => rfl
  split
  · split
    · exact .idle hstore rfl
    · exact .idle hstore rfl
  · exact .withStore (c := .persistPolicy policy now) hstore rfl trivial rfl
      fun _ => rfl

theorem markRevalidationRequired_goes {resource : ResourceId} (hstore : F.store = some s) :
    F.Goes d (F.markRevalidationRequired resource now d).2.1
      (F.markRevalidationRequired resource now d).2.2 0 1 := by
  unfold markRevalidationRequired
  split
  · exact .idle hstore rfl
  refine .withStore (c := .requestRevalidation resource now) hstore rfl trivial rfl
    fun F => ?_
  split
  · rfl
  split
  · rfl
  · rfl

theorem clearRevalidation_goes {resource : ResourceId} (hstore : F.store = some s)
    (hsafe : (DurableStore.Call.clearRevalidation resource now).Safe s) :
    F.Goes d (F.clearRevalidation resource now d).2.1
      (F.clearRevalidation resource now d).2.2 0 1 :=
  .withStore (c := .clearRevalidation resource now) hstore rfl hsafe rfl
    fun _ => rfl

theorem registerPublisher_store {source : SourceId} {incarnation : Incarnation} :
    (F.registerPublisher source incarnation now).2.store = F.store := by
  unfold registerPublisher
  dsimp only
  split
  · rfl
  split
  · rfl
  split
  · split
    · rfl
    split
    · rfl
    · rfl
  · split
    · rfl
    · rfl

theorem heartbeat_store {source : SourceId} {incarnation : Incarnation} :
    (F.heartbeat source incarnation now).2.store = F.store := by
  unfold heartbeat
  split
  · rfl
  split
  · rfl
  split
  · rfl
  split
  · rfl
  split
  · rfl
  · rfl

theorem retirePublisher_store {source : SourceId} {incarnation : Incarnation} :
    (F.retirePublisher source incarnation now).2.store = F.store := by
  unfold retirePublisher
  split
  · rfl
  split
  · rfl
  · rfl

/-- How many signals a call brings. -/
def Request.signals : Request → Nat
  | .publish _ _ => 1
  | .publishBatch signals _ => signals.length
  | _ => 0

/-- The call writes a footprint, in as many records as it takes. -/
def Request.flushes : Request → Bool
  | .flush _ => true
  | _ => false

theorem request_goes {request : Request} (h : F.Resting config d) (hclean : request.Clean pq F d) :
    ∃ m, F.Goes d (request.run pq F d).1 (request.run pq F d).2 request.signals m ∧
      (request.flushes = false → m ≤ 1) := by
  obtain ⟨s, hstore, -⟩ := h.store
  by_cases hflushes : request.flushes = true
  · cases request with
    | flush now =>
      obtain ⟨m, hgoes⟩ := @flushLocked_goes config F d now h hclean
      exact ⟨m, hgoes, fun hno => absurd hflushes (by rw [hno]; exact Bool.false_ne_true)⟩
    | _ => exact absurd hflushes Bool.false_ne_true
  refine ⟨1, ?_, fun _ => Nat.le_refl 1⟩
  cases request with
  | publish signal now =>
    exact (publish_goes (p := .publish signal) hstore hclean).mono (Nat.le_refl _) (Nat.zero_le 1)
  | publishBatch signals now =>
    exact (publish_goes (p := .publishBatch signals) hstore hclean).mono (Nat.le_refl _)
      (Nat.zero_le 1)
  | putFence fence now => exact putFence_goes hstore (hclean s hstore)
  | clearFence id now => exact clearFence_goes hstore
  | installPolicy policy now => exact installPolicy_goes hstore
  | installTopology resources edges now => exact installTopology_goes hstore
  | markRevalidationRequired resource now => exact markRevalidationRequired_goes hstore
  | clearRevalidation resource now => exact clearRevalidation_goes hstore (hclean s hstore)
  | flush now => exact absurd rfl hflushes
  | registerPublisher source incarnation now => exact .idle hstore registerPublisher_store
  | heartbeat source incarnation now => exact .idle hstore heartbeat_store
  | retirePublisher source incarnation now => exact .idle hstore retirePublisher_store

end Fabric

/-! ## What a call leaves as it is -/

namespace Fabric

open DurableStore (Course Kept Op recorded recorded_append)

variable {pq : EntryQueue} {config : FabricConfig} {F F₁ F' : Fabric} {s s' : DurableStore}
  {d d' : Disk} {st : Status} {now : Tick}

/-- The same ledger, and a shutdown that has begun or not as before. -/
structure Steady (F F' : Fabric) : Prop where
  shuttingDown : F'.shuttingDown = F.shuttingDown
  ledger : F'.ledger = F.ledger

namespace Steady

theorem refl : F.Steady F := ⟨rfl, rfl⟩

theorem withStore {change : DurableStore → Disk → Status × DurableStore × Disk}
    {next : Fabric → Status × Fabric} (hnext : ∀ F : Fabric, F.Steady (next F).2) :
    F.Steady (F.withStore change d next).2.1 := by
  unfold Fabric.withStore
  split
  · exact hnext F
  · dsimp only
    split
    · exact ⟨rfl, rfl⟩
    · exact ⟨(hnext _).shuttingDown, (hnext _).ledger⟩

theorem installTopology {resources : List Resource} {edges : List DependencyEdge} :
    F.Steady (F.installTopology resources edges now d).2.1 := by
  unfold Fabric.installTopology
  split
  · exact .refl
  split
  · exact .refl
  · exact .withStore fun _ => ⟨rfl, rfl⟩

theorem installPolicy {policy : PropagationPolicy} :
    F.Steady (F.installPolicy policy now d).2.1 := by
  unfold Fabric.installPolicy
  split
  · exact .refl
  split
  · exact .refl
  dsimp only
  split
  · exact .withStore fun _ => ⟨rfl, rfl⟩
  split
  · split
    · exact .refl
    · exact .refl
  · exact .withStore fun _ => ⟨rfl, rfl⟩

theorem putFence {fence : Fence} : F.Steady (F.putFence fence now d).2.1 := by
  unfold Fabric.putFence
  split
  · exact .refl
  generalize (if fence.epoch.known = true then fence else { fence with epoch := F.epoch }) = f
  dsimp only
  split
  · exact .refl
  · exact .withStore fun _ => ⟨rfl, rfl⟩

theorem markRevalidationRequired {resource : ResourceId} :
    F.Steady (F.markRevalidationRequired resource now d).2.1 := by
  unfold Fabric.markRevalidationRequired
  split
  · exact .refl
  refine .withStore fun F => ?_
  split
  · exact .refl
  split
  · exact .refl
  · exact ⟨rfl, rfl⟩

theorem registerPublisher {source : SourceId} {incarnation : Incarnation} :
    F.Steady (F.registerPublisher source incarnation now).2 := by
  unfold Fabric.registerPublisher
  dsimp only
  split
  · exact .refl
  split
  · exact .refl
  split
  · split
    · exact ⟨rfl, rfl⟩
    split
    · exact .refl
    · exact ⟨rfl, rfl⟩
  · split
    · exact .refl
    · exact ⟨rfl, rfl⟩

theorem heartbeat {source : SourceId} {incarnation : Incarnation} :
    F.Steady (F.heartbeat source incarnation now).2 := by
  unfold Fabric.heartbeat
  split
  · exact .refl
  split
  · exact .refl
  split
  · exact .refl
  split
  · exact .refl
  split
  · exact .refl
  · exact ⟨rfl, rfl⟩

theorem retirePublisher {source : SourceId} {incarnation : Incarnation} :
    F.Steady (F.retirePublisher source incarnation now).2 := by
  unfold Fabric.retirePublisher
  split
  · exact .refl
  split
  · exact .refl
  · exact ⟨rfl, rfl⟩

theorem flushLocked : F.Steady (F.flushLocked now d).2.1 := by
  refine ⟨Fabric.books_flushLocked.shuttingDown, ?_⟩
  unfold Fabric.flushLocked
  split
  · rfl
  dsimp only
  split
  · rfl
  · rfl

end Steady

/-! ## What a publish marks -/

/-- The ledger has marked so many lineages at most. -/
def Marks (F F' : Fabric) (n : Nat) : Prop :=
  ∃ lineages : List Digest128, lineages.length ≤ n ∧
    F'.ledger.lineages = lineages.foldl Lib.Window.mark F.ledger.lineages

theorem Steady.marks (h : F.Steady F') : F.Marks F' 0 :=
  ⟨[], Nat.le_refl 0, congrArg PropagationLedger.lineages h.ledger⟩

theorem length_accepted {policy : PropagationPolicy} {request : PropagationRequest}
    {l : List PressureSignal} {a : PropagationEngine.Admission} :
    (l.foldl (PropagationEngine.admitNext policy request) a).accepted.length ≤
      a.accepted.length + l.length := by
  induction l generalizing a with
  | nil => exact Nat.le_refl _
  | cons signal rest ih =>
    have hone : (PropagationEngine.admitNext policy request a signal).accepted.length ≤
        a.accepted.length + 1 := by
      unfold PropagationEngine.admitNext
      dsimp only
      split
      · simp
      · simp
    rw [List.foldl_cons, List.length_cons]
    exact ih.trans (by omega)

theorem length_liveLineages {topology : Topology} {policy : PropagationPolicy}
    {signals : List PressureSignal} :
    (F.liveLineages topology policy signals now).length ≤ signals.length := by
  unfold liveLineages liveOf PropagationEngine.liveSignals
  rw [List.length_map]
  refine (List.length_filter_le _ _).trans ?_
  unfold PropagationEngine.admission
  exact length_accepted.trans (Nat.zero_add _).le

/-- The run of a publish marks the lineages that traverse, or none. -/
theorem ran_marks {p : PublishCall} {topology : Topology} {policy : PropagationPolicy}
    (h : F.Attempts pq p now topology policy) :
    ∃ lineages : List Digest128, lineages.length ≤ p.signals.length ∧
      (F.ranOf pq topology policy p.signals now).2.lineages =
        lineages.foldl Lib.Window.mark F.ledger.lineages := by
  by_cases hcut : F.Cut pq topology policy p.signals now
  · refine ⟨[], Nat.zero_le _, ?_⟩
    rw [(ranLineages h).cut hcut]
    rfl
  · exact ⟨_, length_liveLineages, (ranLineages h).uncut hcut⟩

/-- What the fabric has after an attempt. -/
theorem attempt_ledger {topology : Topology} {policy : PropagationPolicy}
    {signals : List PressureSignal} {after : Ending × Fabric × Disk}
    (h : Tried pq F topology policy signals now d s after) :
    after.2.1.ledger = F.ledger ∨
      after.2.1.ledger = (F.ranOf pq topology policy signals now).2 := by
  cases h with
  | idle _ _ _ hledger => exact .inr hledger
  | refused _ _ _ _ _ hledger => exact .inl hledger
  | failed _ _ _ _ _ _ _ hledger => exact .inr hledger
  | uncommitted _ _ _ _ _ _ _ _ hledger => exact .inr hledger
  | done _ _ _ _ _ _ _ _ hledger => exact .inr hledger

theorem publish_marks {p : PublishCall} (hstore : F.store = some s) :
    F.Marks (p.run pq F now d).2.1 p.signals.length := by
  have hruns := runs pq F p now d
  generalize p.run pq F now d = after at hruns
  cases hruns with
  | turnedAway _ _ hsame =>
    exact ⟨[], Nat.zero_le _, congrArg PropagationLedger.lineages hsame.ledger⟩
  | @attempted topology policy after hattempts hends =>
    have hledger := attempt_ledger (@tried pq F topology policy p.signals now d s hstore)
    rcases hattempt : F.attempt pq topology policy p.signals now d with ⟨ending, F₁, d₁⟩
    rw [hattempt] at hends hledger
    have hafter : after.2.1.ledger = F₁.ledger := by
      cases hends with
      | refused hsame => exact hsame.ledger
      | failed hsame => exact hsame.ledger
      | mismatch hsame => exact hsame.ledger
      | uncommitted hsame => exact hsame.ledger
      | done hsame => exact ledger_journalCompactionLocked.trans hsame.ledger
    rcases hledger with hsame | hran
    · exact ⟨[], Nat.zero_le _, congrArg PropagationLedger.lineages (hafter.trans hsame)⟩
    · obtain ⟨lineages, hlength, hmarked⟩ := ran_marks hattempts
      exact ⟨lineages, hlength, (congrArg PropagationLedger.lineages (hafter.trans hran)).trans
        hmarked⟩

end Fabric

/-! ## The window of the ledger -/

namespace Fabric

open DurableStore (Course Op recorded recorded_append)

variable {pq : EntryQueue} {config : FabricConfig} {F F' : Fabric} {s : DurableStore} {d : Disk}
  {now : Tick} {request : Request}

theorem request_marks (hstore : F.store = some s) :
    F.Marks (request.run pq F d).1 request.signals := by
  cases request with
  | publish signal now => exact publish_marks (p := .publish signal) hstore
  | publishBatch signals now => exact publish_marks (p := .publishBatch signals) hstore
  | putFence fence now => exact Steady.putFence.marks
  | clearFence id now => exact (Steady.withStore fun _ => ⟨rfl, rfl⟩).marks
  | installPolicy policy now => exact Steady.installPolicy.marks
  | installTopology resources edges now => exact Steady.installTopology.marks
  | markRevalidationRequired resource now => exact Steady.markRevalidationRequired.marks
  | clearRevalidation resource now => exact (Steady.withStore fun _ => ⟨rfl, rfl⟩).marks
  | flush now => exact Steady.flushLocked.marks
  | registerPublisher source incarnation now => exact Steady.registerPublisher.marks
  | heartbeat source incarnation now => exact Steady.heartbeat.marks
  | retirePublisher source incarnation now => exact Steady.retirePublisher.marks

/-- A shutdown that has begun is never over. -/
theorem request_down (hdown : F.shuttingDown = true) :
    (request.run pq F d).1.shuttingDown = true := by
  cases request with
  | publish signal now =>
    show (F.publish pq signal now d).2.1.shuttingDown = true
    unfold publish publishLocked
    rw [if_pos hdown]
    exact hdown
  | publishBatch signals now =>
    show (F.publishBatch pq signals now d).2.1.shuttingDown = true
    unfold publishBatch
    rw [if_pos hdown]
    exact hdown
  | putFence fence now => exact Steady.putFence.shuttingDown.trans hdown
  | clearFence id now =>
    have hsteady : F.Steady (F.clearFence id now d).2.1 := .withStore fun _ => ⟨rfl, rfl⟩
    exact hsteady.shuttingDown.trans hdown
  | installPolicy policy now => exact Steady.installPolicy.shuttingDown.trans hdown
  | installTopology resources edges now => exact Steady.installTopology.shuttingDown.trans hdown
  | markRevalidationRequired resource now =>
    exact Steady.markRevalidationRequired.shuttingDown.trans hdown
  | clearRevalidation resource now =>
    have hsteady : F.Steady (F.clearRevalidation resource now d).2.1 :=
      .withStore fun _ => ⟨rfl, rfl⟩
    exact hsteady.shuttingDown.trans hdown
  | flush now => exact Steady.flushLocked.shuttingDown.trans hdown
  | registerPublisher source incarnation now =>
    exact Steady.registerPublisher.shuttingDown.trans hdown
  | heartbeat source incarnation now => exact Steady.heartbeat.shuttingDown.trans hdown
  | retirePublisher source incarnation now => exact Steady.retirePublisher.shuttingDown.trans hdown

/-! ## Opening -/

theorem lineages_foldl_markLineage {lineages : List Digest128} {ledger : PropagationLedger} :
    (lineages.foldl PropagationLedger.markLineage ledger).lineages =
      lineages.foldl Lib.Window.mark ledger.lineages := by
  induction lineages generalizing ledger with
  | nil => rfl
  | cons lineage rest ih => exact ih

/-- What an open does behind the open of its store. -/
inductive Boots (i : Incarnation) (s₀ : DurableStore) (d₀ : Disk) : Result Fabric × Disk → Prop
  | unestablished {st st₁ : Status} {s₁ : DurableStore} {d₁ : Disk} :
      s₀.establishEpoch kNoTick d₀ = (st₁, s₁, d₁) → Boots i s₀ d₀ (.error st, d₁)
  | unbooted {st st₁ st₂ : Status} {s₁ s₂ : DurableStore} {d₁ d₂ : Disk} :
      s₀.establishEpoch kNoTick d₀ = (st₁, s₁, d₁) →
      s₁.recordBoot i kNoTick d₁ = (st₂, s₂, d₂) → Boots i s₀ d₀ (.error st, d₂)
  | opened {st₁ st₂ : Status} {s₁ s₂ : DurableStore} {d₁ d₂ : Disk} {F : Fabric} :
      s₀.establishEpoch kNoTick d₀ = (st₁, s₁, d₁) → st₁.ok = true →
      s₁.recordBoot i kNoTick d₁ = (st₂, s₂, d₂) → F.store = some s₂ →
      F.epoch = s₁.state.epoch → F.shuttingDown = false →
      F.ledger.lineages = s₂.state.lineages.foldl Lib.Window.mark
        (.ofCapacity F.config.ledgerLineageCapacity) →
      F.policy = s₂.state.settings.policy → F.revalidation = s₂.state.revalidationRequired →
      Boots i s₀ d₀ (.ok F, d₂)

theorem openAt_boots {i : Incarnation} {s₀ : DurableStore} {d₀ : Disk}
    (hdurable : config.durable = true)
    (hopen : DurableStore.openAt (durableConfig config) d = (.ok s₀, d₀)) :
    Boots i s₀ d₀ (openAt config i d) := by
  unfold openAt
  dsimp only
  rw [if_pos hdurable, hopen]
  dsimp only
  rcases hepoch : s₀.establishEpoch kNoTick d₀ with ⟨st₁, s₁, d₁⟩
  dsimp only
  split
  · exact .unestablished hepoch
  case isFalse hyes =>
  rcases hboot : s₁.recordBoot i kNoTick d₁ with ⟨st₂, s₂, d₂⟩
  dsimp only
  split
  · exact .unbooted hepoch hboot
  case isFalse =>
  have hsame : s₂.state.epoch = s₁.state.epoch := by
    obtain ⟨_, htake, -, htried⟩ := DurableStore.recordBoot_tried hboot
    rcases htried.state ⟨_, htake⟩ with ⟨-, j, rfl⟩ | ⟨-, j, rfl⟩ <;> rfl
  unfold restore
  split
  · exact .unbooted hepoch hboot
  · refine .opened hepoch (by simpa using hyes) hboot rfl hsame rfl ?_ rfl rfl
    exact lineages_foldl_markLineage

/-- What comes behind the open of the store is a course, and the epoch of the fabric is the one that
it establishes. -/
theorem Boots.course {i : Incarnation} {s₀ : DurableStore} {d₀ : Disk}
    {after : Result Fabric × Disk} (h : Boots i s₀ d₀ after) :
    ∃ ops s', Course ops s₀ d₀ s' after.2 ∧ Within 0 0 ops ∧ ∀ F, after.1 = .ok F →
      F.store = some s' ∧ ∀ (w : StoreHistory) (config : DurableConfig), w.store = some s₀ →
        w.disk = d₀ → w.epochs config (ops.map .op) = [F.epoch] := by
  have hone : Within 0 0 [.call (.establishEpoch kNoTick)] := within_still rfl rfl
  have htwo : Within 0 0 ([.call (.establishEpoch kNoTick)] ++ [.call (.recordBoot i kNoTick)]) :=
    hone.append (within_still rfl rfl)
  cases h with
  | unestablished hepoch =>
    exact ⟨_, _, course_call (c := .establishEpoch kNoTick) trivial hepoch, hone,
      fun _ hF => by cases hF⟩
  | unbooted hepoch hboot =>
    exact ⟨_, _, (course_call (c := .establishEpoch kNoTick) trivial hepoch).append
      (course_call (c := .recordBoot i kNoTick) trivial hboot), htwo, fun _ hF => by cases hF⟩
  | @opened _ _ _ _ _ _ F hepoch hok hboot hstore hsame =>
    refine ⟨_, _, (course_call (c := .establishEpoch kNoTick) trivial hepoch).append
      (course_call (c := .recordBoot i kNoTick) trivial hboot), htwo, fun F₁ hF₁ => ?_⟩
    obtain rfl : F = F₁ := Except.ok.inj hF₁
    refine ⟨hstore, fun w config hheld hdisk => ?_⟩
    have hestablished : w.established (.op (.call (.establishEpoch kNoTick))) = some F.epoch := by
      unfold StoreHistory.established
      rw [hheld, hdisk]
      dsimp only [Option.bind_some]
      rw [hepoch, hsame]
      exact if_pos hok
    show (w.established (.op (.call (.establishEpoch kNoTick)))).toList ++ ([] ++ []) = _
    rw [hestablished]
    rfl

end Fabric

end Backpressure
