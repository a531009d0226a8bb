import Backpressure.Engine.Machine
import Backpressure.Engine.Propagate
import Mathlib.Data.List.TakeWhile

/-!
# What a propagation request comes to

A request is refused by a check, or all its signals are refused, or it has a plan that is
committed or not. The plan is assembled from the traversals of the live signals, one after
the other over shared accumulators; a property that every traversal keeps holds of the
assembled nodes and explanations.
-/

namespace Backpressure

namespace PropagationEngine

open Traversal

variable {pq : EntryQueue} {topo : Topology} {policy : PropagationPolicy}
  {ledger : PropagationLedger} {fences : Option FenceTable} {liveEpoch : Epoch}
  {pins : List (Option Generation)} {request : PropagationRequest}

/-! ## Admission -/

/-- A property that every admission step keeps holds of the admission. -/
theorem admission_invariant {P : Admission → Prop}
    (init : P { counters := { signalsReceived := request.signals.length } })
    (step : ∀ a, ∀ s ∈ request.signals, P a → P (admitNext policy request a s)) :
    P (admission policy request) :=
  List.foldlRecOn request.signals (admitNext policy request) init fun a ha s hs => step a s hs ha

/-- What an accepted signal has passed. -/
structure Accepted (policy : PropagationPolicy) (request : PropagationRequest)
    (s : PressureSignal) : Prop where
  requested : s ∈ request.signals
  valid : (s.validate policy request.now).ok = true
  topologyDigest : s.topologyDigest = request.topologyDigest
  epoch : s.epoch = request.epoch

theorem admitSignal_ok {accepted : List PressureSignal} {s : PressureSignal} :
    (admitSignal policy request accepted s).ok = true ↔
      (s.validate policy request.now).ok = true ∧ s.topologyDigest = request.topologyDigest ∧
        s.epoch = request.epoch ∧ ∀ other ∈ accepted, other.source ≠ s.source := by
  simp only [admitSignal, Status.ok_andThen, Status.ok_guard, ne_eq, reduceCtorEq,
    not_false_eq_true, Bool.and_eq_true, not_not, List.any_eq_true, beq_iff_eq, not_exists,
    not_and, Status.ok_success, and_true]

/-- An accepted signal has pressure to start with. -/
theorem Accepted.seed {s : PressureSignal} (h : Accepted policy request s) :
    (traversalContext topo policy ledger fences pins request s).seed.isZero = false :=
  Potential.isZero_fromMagnitude
    (PressureObservation.magnitude_pos (PressureSignal.of_validate h.valid).1)

theorem accepted_of_mem {s : PressureSignal} (hs : s ∈ (admission policy request).accepted) :
    Accepted policy request s := by
  refine admission_invariant (P := fun a => ∀ s ∈ a.accepted, Accepted policy request s)
    (by simp) (fun a s hreq ha => ?_) s hs
  unfold admitNext
  dsimp only
  split
  case isFalse => exact ha
  case isTrue hst =>
    obtain ⟨hvalid, hdigest, hepoch, -⟩ := admitSignal_ok.mp hst
    intro x hx
    rcases List.mem_append.mp hx with hx | hx
    · exact ha x hx
    · rw [List.mem_singleton.mp hx]
      exact ⟨hreq, hvalid, hdigest, hepoch⟩

/-- No two accepted signals share a source. -/
theorem accepted_pairwise :
    (admission policy request).accepted.Pairwise fun s s' => s.source ≠ s'.source := by
  refine admission_invariant (P := fun a => a.accepted.Pairwise fun s s' => s.source ≠ s'.source)
    List.Pairwise.nil fun a s _ ha => ?_
  unfold admitNext
  dsimp only
  split
  case isFalse => exact ha
  case isTrue hst =>
    refine List.pairwise_append.mpr ⟨ha, List.pairwise_singleton _ _, fun x hx y hy => ?_⟩
    rw [List.mem_singleton.mp hy]
    exact (admitSignal_ok.mp hst).2.2.2 x hx

theorem accepted_source_injective {s s' : PressureSignal}
    (hs : s ∈ (admission policy request).accepted) (hs' : s' ∈ (admission policy request).accepted)
    (h : s.source = s'.source) : s = s' := by
  have : Std.Symm fun s s' : PressureSignal => s.source ≠ s'.source := ⟨fun _ _ hne => hne.symm⟩
  by_contra hne
  exact accepted_pairwise.forall hs hs' hne h

/-- Refused signals are reported with a failing status. -/
theorem rejection_failed {r : RejectionRecord} (hr : r ∈ (admission policy request).rejections) :
    r.status.ok = false := by
  refine admission_invariant (P := fun a => ∀ r ∈ a.rejections, r.status.ok = false)
    (by simp) (fun a s _ ha => ?_) r hr
  unfold admitNext
  dsimp only
  split
  · exact ha
  case isFalse hst =>
    intro x hx
    rcases List.mem_append.mp hx with hx | hx
    · exact ha x hx
    · rw [List.mem_singleton.mp hx]
      simpa using hst

/-! ## One traversal of a request -/

section Traverse

variable {p : Progress} {s : PressureSignal}

theorem startTraversal_fresh : (startTraversal pq topo policy request p s).Fresh :=
  ⟨rfl, rfl, rfl, rfl, rfl, fun _ => rfl⟩

/-- What traversing one more signal adds to the progress of a request. -/
inductive TraverseCase (pq : EntryQueue) (topo : Topology) (policy : PropagationPolicy) (ledger : PropagationLedger)
    (fences : Option FenceTable) (pins : List (Option Generation)) (request : PropagationRequest)
    (p : Progress) (s : PressureSignal) (p' : Progress) : Prop
  | refused {st : Status} : st.ok = false →
      ¬Startable (traversalContext topo policy ledger fences pins request s) →
      p'.acc = p.acc → p'.explanations = p.explanations → p'.truncated = p.truncated →
      p'.rejections = p.rejections ++ [⟨s.id, s.source, st⟩] →
      p'.counters.signalsAccepted = p.counters.signalsAccepted →
      (startTraversal pq topo policy request p s).run
        (traversalContext topo policy ledger fences pins request s) =
          (st, startTraversal pq topo policy request p s) →
      TraverseCase pq topo policy ledger fences pins request p s p'
  | ran {t : Traversal pq} {e : PropagationExplanation} :
      RunCase (traversalContext topo policy ledger fences pins request s)
        (startTraversal pq topo policy request p s) (.success, t) →
      p'.acc = t.acc → p'.explanations = p.explanations ++ [e] → e.hops = t.expl.hops →
      e.source = s.source → e.truncated = t.truncated → p'.truncated = t.truncated →
      p'.rejections = p.rejections →
      p'.counters.signalsAccepted = p.counters.signalsAccepted + 1 →
      (startTraversal pq topo policy request p s).run
        (traversalContext topo policy ledger fences pins request s) = (.success, t) →
      TraverseCase pq topo policy ledger fences pins request p s p'

theorem traverse_cases (pq : EntryQueue) (topo : Topology) (policy : PropagationPolicy)
    (ledger : PropagationLedger) (fences : Option FenceTable) (pins : List (Option Generation))
    (request : PropagationRequest) (p : Progress) (s : PressureSignal) :
    TraverseCase pq topo policy ledger fences pins request p s
    (traverse pq topo policy ledger fences pins request p s) := by
  have hrun : RunCase (traversalContext topo policy ledger fences pins request s)
      (startTraversal pq topo policy request p s)
      ((startTraversal pq topo policy request p s).run
        (traversalContext topo policy ledger fences pins request s)) :=
    run_cases _ startTraversal_fresh
  unfold traverse
  dsimp only
  revert hrun
  generalize heq : (startTraversal pq topo policy request p s).run
    (traversalContext topo policy ledger fences pins request s) = r
  obtain ⟨st, t⟩ := r
  intro hrun
  cases hst : st.ok with
  | false =>
    cases hrun with
    | refused hst' hstart => exact .refused hst' hstart rfl rfl rfl rfl rfl heq
    | blocked => cases hst
    | traversed => cases hst
  | true =>
    have hsource := runCase_source hrun
    cases hrun with
    | refused hst' => rw [hst'] at hst; cases hst
    | blocked h₁ h₂ h₃ =>
      exact .ran (.blocked h₁ h₂ h₃) rfl rfl rfl hsource.1 rfl rfl rfl
        (congrArg (· + 1) hsource.2) heq
    | traversed h₁ h₂ h₃ h₄ h₅ h₆ h₇ h₈ =>
      exact .ran (.traversed h₁ h₂ h₃ h₄ h₅ h₆ h₇ h₈) rfl rfl rfl hsource.1 rfl rfl rfl
        (congrArg (· + 1) hsource.2) heq

end Traverse

/-! ## The progress of a request -/

/-- The traversals of the live signals of an admitted request. -/
def progress (pq : EntryQueue) (topo : Topology) (policy : PropagationPolicy)
    (ledger : PropagationLedger) (fences : Option FenceTable) (pins : List (Option Generation))
    (request : PropagationRequest) : Progress :=
  traverseAll pq topo policy ledger fences pins request (admission policy request)

/-- The signals that traverse. -/
def liveSignals (policy : PropagationPolicy) (ledger : PropagationLedger)
    (request : PropagationRequest) : List PressureSignal :=
  (admission policy request).accepted.filter (isLive ledger)

/-- The progress before the first traversal: only replays have an explanation. -/
structure Unstarted (policy : PropagationPolicy) (ledger : PropagationLedger)
    (request : PropagationRequest) (p : Progress) : Prop where
  acc : p.acc = ∅
  truncated : p.truncated = false
  accepted : p.counters.signalsAccepted = 0
  replays : ∀ e ∈ p.explanations, e.hops = [] ∧ e.truncated = false ∧
    ∃ s ∈ (admission policy request).accepted, isLive ledger s = false ∧ e.source = s.source
  rejections : ∀ r ∈ p.rejections, r.status.ok = false

/-- The progress before the first traversal. -/
def unstarted (policy : PropagationPolicy) (ledger : PropagationLedger) (topo : Topology)
    (request : PropagationRequest) : Progress :=
  let a := admission policy request
  let replays := a.accepted.filter fun s => !isLive ledger s
  { counters := { a.counters with
      signalsIdempotent := a.counters.signalsIdempotent + replays.length }
    explanations := replays.map fun s => (baseExplanation topo policy request s).finalize
    rejections := a.rejections }

theorem unstarted_spec : Unstarted policy ledger request (unstarted policy ledger topo request) where
  acc := rfl
  truncated := rfl
  accepted := admission_invariant (P := fun a => a.counters.signalsAccepted = 0) rfl
    fun a s _ ha => by
      unfold admitNext
      dsimp only
      split <;> exact ha
  replays e he := by
    obtain ⟨s, hs, rfl⟩ := List.mem_map.mp he
    obtain ⟨hacc, hlive⟩ := List.mem_filter.mp hs
    exact ⟨rfl, rfl, s, hacc, by simpa using hlive, rfl⟩
  rejections _ := rejection_failed

theorem progress_eq : progress pq topo policy ledger fences pins request =
    (liveSignals policy ledger request).foldl
      (traverse pq topo policy ledger fences pins request)
      (unstarted policy ledger topo request) := rfl

/-- A property of the progress that holds before the first traversal and that every
traversal of a live signal keeps holds at the end. -/
theorem progress_invariant {P : Progress → Prop}
    (init : ∀ p : Progress, Unstarted policy ledger request p → P p)
    (step : ∀ p, ∀ s ∈ liveSignals policy ledger request, P p →
      P (traverse pq topo policy ledger fences pins request p s)) :
    P (progress pq topo policy ledger fences pins request) :=
  List.foldlRecOn _ _ (init _ unstarted_spec) fun p hp s hs => step p s hs hp

/-- The progress in which the traversal of a live signal starts. -/
def progressBefore (pq : EntryQueue) (topo : Topology) (policy : PropagationPolicy)
    (ledger : PropagationLedger) (fences : Option FenceTable) (pins : List (Option Generation))
    (request : PropagationRequest) (s : PressureSignal) : Progress :=
  ((liveSignals policy ledger request).takeWhile fun s' => s' ≠ s).foldl
    (traverse pq topo policy ledger fences pins request) (unstarted policy ledger topo request)

/-- The traversal of a live signal. -/
def traversalOf (pq : EntryQueue) (topo : Topology) (policy : PropagationPolicy)
    (ledger : PropagationLedger) (fences : Option FenceTable) (pins : List (Option Generation))
    (request : PropagationRequest) (s : PressureSignal) : Status × Traversal pq :=
  (startTraversal pq topo policy request
    (progressBefore pq topo policy ledger fences pins request s) s).run
      (traversalContext topo policy ledger fences pins request s)

theorem live_split {s : PressureSignal} (hs : s ∈ liveSignals policy ledger request) :
    ∃ after, liveSignals policy ledger request =
      ((liveSignals policy ledger request).takeWhile fun s' => s' ≠ s) ++ s :: after := by
  have hdrop : (liveSignals policy ledger request).dropWhile (fun s' => s' ≠ s) ≠ [] := by
    intro hnil
    have hall := List.dropWhile_eq_nil_iff.mp hnil s hs
    simp at hall
  obtain ⟨x, after, hcons⟩ := List.exists_cons_of_ne_nil hdrop
  have hx : x = s := by
    have hhead := List.head_dropWhile_not (fun s' : PressureSignal => decide (s' ≠ s)) hdrop
    simp only [hcons, List.head_cons] at hhead
    simpa using hhead
  refine ⟨after, ?_⟩
  rw [← hx, ← hcons, hx, List.takeWhile_append_dropWhile]

theorem progressBefore_invariant {P : Progress → Prop} {s : PressureSignal}
    (init : ∀ p : Progress, Unstarted policy ledger request p → P p)
    (step : ∀ p, ∀ s ∈ liveSignals policy ledger request, P p →
      P (traverse pq topo policy ledger fences pins request p s)) :
    P (progressBefore pq topo policy ledger fences pins request s) :=
  List.foldlRecOn _ _ (init _ unstarted_spec) fun p hp s' hs' =>
    step p s' ((List.takeWhile_sublist _).mem hs') hp

/-- What the traversal of one live signal establishes, under an invariant of the progress,
and later traversals keep, holds at the end. -/
theorem progress_established {P Q : Progress → Prop} {s : PressureSignal}
    (hs : s ∈ liveSignals policy ledger request)
    (init : ∀ p : Progress, Unstarted policy ledger request p → P p)
    (step : ∀ p, ∀ s ∈ liveSignals policy ledger request, P p →
      P (traverse pq topo policy ledger fences pins request p s))
    (establish : P (progressBefore pq topo policy ledger fences pins request s) →
      Q (traverse pq topo policy ledger fences pins request
        (progressBefore pq topo policy ledger fences pins request s) s))
    (keep : ∀ p, ∀ s ∈ liveSignals policy ledger request, P p → Q p →
      Q (traverse pq topo policy ledger fences pins request p s)) :
    Q (progress pq topo policy ledger fences pins request) := by
  obtain ⟨after, hsplit⟩ := live_split hs
  have hafter : ∀ s' ∈ after, s' ∈ liveSignals policy ledger request := fun s' hs' => by
    rw [hsplit]
    exact List.mem_append_right _ (List.mem_cons_of_mem s hs')
  have hp : P (progressBefore pq topo policy ledger fences pins request s) :=
    progressBefore_invariant init step
  rw [progress_eq, hsplit, List.foldl_append, List.foldl_cons]
  refine (List.foldlRecOn (motive := fun p => P p ∧ Q p) _ _ ⟨step _ s hs hp, establish hp⟩
    fun p hpq s' hs' => ?_).2
  exact ⟨step p s' (hafter s' hs') hpq.1, keep p s' (hafter s' hs') hpq.1 hpq.2⟩

theorem traverse_truncated {p : Progress} {s : PressureSignal} :
    (traverse pq topo policy ledger fences pins request p s).truncated =
      ((startTraversal pq topo policy request p s).run
        (traversalContext topo policy ledger fences pins request s)).2.truncated := by
  unfold traverse
  dsimp only
  split <;> rfl

/-- A truncation is never taken back by a later traversal. -/
theorem truncated_traverse {p : Progress} {s : PressureSignal}
    (h : (traverse pq topo policy ledger fences pins request p s).truncated = false) :
    p.truncated = false := by
  rw [traverse_truncated] at h
  cases htrunc : p.truncated with
  | false => rfl
  | true =>
    have hstart : (startTraversal pq topo policy request p s).truncated = true := htrunc
    have hrun : RunCase (traversalContext topo policy ledger fences pins request s)
        (startTraversal pq topo policy request p s) _ := run_cases _ startTraversal_fresh
    revert h hrun
    generalize (startTraversal pq topo policy request p s).run
      (traversalContext topo policy ledger fences pins request s) = r
    obtain ⟨st, t⟩ := r
    intro h hrun
    have hkept := runCase_truncated hrun hstart
    rw [h] at hkept
    cases hkept

/-- No two live signals share a source. -/
theorem live_pairwise :
    (liveSignals policy ledger request).Pairwise fun s s' => s.source ≠ s'.source :=
  accepted_pairwise.sublist List.filter_sublist

theorem progressBefore_of_split {before after : List PressureSignal} {s : PressureSignal}
    (h : liveSignals policy ledger request = before ++ s :: after) :
    progressBefore pq topo policy ledger fences pins request s =
      before.foldl (traverse pq topo policy ledger fences pins request)
        (unstarted policy ledger topo request) := by
  have hpairwise := @live_pairwise policy ledger request
  rw [h] at hpairwise
  have hbefore : ∀ s' ∈ before, decide (s' ≠ s) = true := fun s' hs' => by
    have hne := (List.pairwise_append.mp hpairwise).2.2 s' hs' s List.mem_cons_self
    exact decide_eq_true fun heq => hne (congrArg PressureSignal.source heq)
  rw [progressBefore, h, List.takeWhile_append_of_pos hbefore,
    List.takeWhile_cons_of_neg (by simp), List.append_nil]

/-- A property of the signals traversed so far and of the progress they made. -/
theorem progress_induction {P : List PressureSignal → Progress → Prop}
    (init : P [] (unstarted policy ledger topo request))
    (step : ∀ before s after, liveSignals policy ledger request = before ++ s :: after →
      P before (progressBefore pq topo policy ledger fences pins request s) →
      P (before ++ [s]) (traverse pq topo policy ledger fences pins request
        (progressBefore pq topo policy ledger fences pins request s) s)) :
    P (liveSignals policy ledger request)
      (progress pq topo policy ledger fences pins request) := by
  have hprefix : ∀ before after, liveSignals policy ledger request = before ++ after →
      P before (before.foldl (traverse pq topo policy ledger fences pins request)
        (unstarted policy ledger topo request)) := by
    intro before
    induction before using List.reverseRecOn with
    | nil => exact fun _ _ => init
    | append_singleton before s ih =>
      intro after hsplit
      rw [List.append_assoc] at hsplit
      have hp := ih _ hsplit
      rw [List.foldl_append, List.foldl_cons, List.foldl_nil]
      rw [← @progressBefore_of_split pq topo policy ledger fences pins request _ _ _ hsplit] at hp ⊢
      exact step before s after hsplit hp
  exact hprefix _ [] (List.append_nil _).symm

theorem live_source_injective {s s' : PressureSignal} (hs : s ∈ liveSignals policy ledger request)
    (hs' : s' ∈ liveSignals policy ledger request) (h : s.source = s'.source) : s = s' :=
  accepted_source_injective (List.mem_filter.mp hs).1 (List.mem_filter.mp hs').1 h

/-- A traversal that is not refused ends in one of the two other ways. -/
theorem traversalOf_ok {s : PressureSignal}
    (h : (traversalOf pq topo policy ledger fences pins request s).1.ok = true) :
    ∃ t, traversalOf pq topo policy ledger fences pins request s = (.success, t) ∧
      RunCase (traversalContext topo policy ledger fences pins request s)
        (startTraversal pq topo policy request
          (progressBefore pq topo policy ledger fences pins request s) s) (.success, t) := by
  have hrun : RunCase (traversalContext topo policy ledger fences pins request s)
      (startTraversal pq topo policy request
        (progressBefore pq topo policy ledger fences pins request s) s)
      (traversalOf pq topo policy ledger fences pins request s) := run_cases _ startTraversal_fresh
  revert h hrun
  generalize traversalOf pq topo policy ledger fences pins request s = r
  obtain ⟨st, t⟩ := r
  intro h hrun
  have hst : st = .success := by
    cases hrun with
    | refused hst =>
      rw [hst] at h
      cases h
    | _ => rfl
  subst hst
  exact ⟨t, rfl, hrun⟩

/-- When nothing is truncated in the end, no traversal was. -/
theorem truncated_traversalOf {s : PressureSignal} (hs : s ∈ liveSignals policy ledger request)
    (h : (progress pq topo policy ledger fences pins request).truncated = false) :
    (traversalOf pq topo policy ledger fences pins request s).2.truncated = false := by
  refine progress_established (P := fun _ => True)
    (Q := fun p => p.truncated = false →
      (traversalOf pq topo policy ledger fences pins request s).2.truncated = false)
    hs (fun _ _ => trivial) (fun _ _ _ _ => trivial) (fun _ htrunc => ?_)
    (fun p s' _ _ hq htrunc => hq (truncated_traverse htrunc)) h
  rwa [traverse_truncated] at htrunc

/-- The traversal of a live signal is the one its explanation reports. -/
theorem explanation_of_live {s : PressureSignal} (hs : s ∈ liveSignals policy ledger request)
    (hok : (traversalOf pq topo policy ledger fences pins request s).1.ok = true) :
    ∃ e ∈ (progress pq topo policy ledger fences pins request).explanations,
      e.source = s.source ∧
        e.hops = (traversalOf pq topo policy ledger fences pins request s).2.expl.hops := by
  refine progress_established (P := fun _ => True)
    (Q := fun p => ∃ e ∈ p.explanations, e.source = s.source ∧
      e.hops = (traversalOf pq topo policy ledger fences pins request s).2.expl.hops)
    hs (fun _ _ => trivial) (fun _ _ _ _ => trivial) (fun _ => ?_) fun p s' _ _ hq => ?_
  · have hcase := traverse_cases pq topo policy ledger fences pins request
      (progressBefore pq topo policy ledger fences pins request s) s
    unfold traversalOf at hok ⊢
    cases hcase with
    | refused hst _ _ _ _ _ _ hrun =>
      rw [hrun, hst] at hok
      cases hok
    | @ran t e _ _ hexpl hhops hsource _ _ _ _ hrun =>
      refine ⟨e, ?_, hsource, ?_⟩
      · rw [hexpl]
        exact List.mem_append_right _ List.mem_cons_self
      · rw [hrun]
        exact hhops
  · obtain ⟨e, he, hspec⟩ := hq
    refine ⟨e, ?_, hspec⟩
    cases traverse_cases pq topo policy ledger fences pins request p s' with
    | refused _ _ _ hexpl => exact hexpl ▸ he
    | ran _ _ hexpl =>
      rw [hexpl]
      exact List.mem_append_left _ he

/-- An explanation with hops is that of the traversal of a live signal. -/
theorem explanation_from : ∀ e ∈ (progress pq topo policy ledger fences pins request).explanations,
    e.hops = [] ∨ ∃ s ∈ liveSignals policy ledger request, e.source = s.source ∧
      (traversalOf pq topo policy ledger fences pins request s).1 = .success ∧
      e.hops = (traversalOf pq topo policy ledger fences pins request s).2.expl.hops ∧
      e.truncated = (traversalOf pq topo policy ledger fences pins request s).2.truncated := by
  refine progress_induction (P := fun l p => ∀ e ∈ p.explanations,
    e.hops = [] ∨ ∃ s ∈ l, e.source = s.source ∧
      (traversalOf pq topo policy ledger fences pins request s).1 = .success ∧
      e.hops = (traversalOf pq topo policy ledger fences pins request s).2.expl.hops ∧
      e.truncated = (traversalOf pq topo policy ledger fences pins request s).2.truncated)
    (fun e he => .inl (unstarted_spec.replays e he).1) fun before s _ _ hp e he => ?_
  have hold : ∀ e ∈ (progressBefore pq topo policy ledger fences pins request s).explanations,
      e.hops = [] ∨ ∃ s' ∈ before ++ [s], e.source = s'.source ∧
        (traversalOf pq topo policy ledger fences pins request s').1 = .success ∧
        e.hops = (traversalOf pq topo policy ledger fences pins request s').2.expl.hops ∧
        e.truncated = (traversalOf pq topo policy ledger fences pins request s').2.truncated := by
    intro e he
    rcases hp e he with hnone | ⟨s', hs', hspec⟩
    · exact .inl hnone
    · exact .inr ⟨s', List.mem_append_left _ hs', hspec⟩
  cases traverse_cases pq topo policy ledger fences pins request
    (progressBefore pq topo policy ledger fences pins request s) s with
  | refused _ _ _ hexpl => exact hold e (hexpl ▸ he)
  | ran _ _ hexpl hhops hsource htrunc _ _ _ hrun =>
    rw [hexpl] at he
    rcases List.mem_append.mp he with he | he
    · exact hold e he
    · obtain rfl := List.mem_singleton.mp he
      refine .inr ⟨s, List.mem_append_right _ List.mem_cons_self, hsource, ?_⟩
      rw [traversalOf, hrun]
      exact ⟨rfl, hhops, htrunc⟩

theorem progress_rejections :
    ∀ r ∈ (progress pq topo policy ledger fences pins request).rejections, r.status.ok = false := by
  refine progress_invariant (P := fun p => ∀ r ∈ p.rejections, r.status.ok = false)
    (fun p hp => hp.rejections) fun p s _ hp r hr => ?_
  cases traverse_cases pq topo policy ledger fences pins request p s with
  | refused hst _ _ _ _ hrej =>
    rw [hrej] at hr
    rcases List.mem_append.mp hr with hr | hr
    · exact hp r hr
    · rw [List.mem_singleton.mp hr]
      exact hst
  | ran _ _ _ _ _ _ _ hrej => exact hp r (hrej ▸ hr)

/-- Every accumulator of a request belongs to the resource at its index. -/
theorem keyed_progress : (progress pq topo policy ledger fences pins request).acc.Keyed topo := by
  refine progress_invariant (P := fun p => p.acc.Keyed topo) (fun p hp => ?_) fun p s _ hp => ?_
  · rw [hp.acc]
    exact .empty
  · cases traverse_cases pq topo policy ledger fences pins request p s with
    | refused _ _ hacc => exact hacc ▸ hp
    | ran hrun hacc =>
      have hkeyed : (startTraversal pq topo policy request p s).acc.Keyed topo := hp
      exact hacc ▸ keyed_run hkeyed hrun

/-! ## The request as a whole -/

/-- The request has passed its checks, and some signal is accepted. -/
structure Ready (topo : Topology) (policy : PropagationPolicy) (liveEpoch : Epoch)
    (pins : List (Option Generation)) (request : PropagationRequest) : Prop where
  checked : (checkRequest topo policy liveEpoch request).ok = true
  sources : request.signals.length ≤ policy.maxSources.toNat
  pinCount : request.pins.length ≤ kMaxDependencyPins
  pins : resolvePins topo request.pins = .ok pins
  accepted : (admission policy request).accepted ≠ []

theorem Ready.policy_valid (h : Ready topo policy liveEpoch pins request) : policy.Valid := by
  have hcheck := h.checked
  simp only [checkRequest, Status.ok_andThen, Bool.and_eq_true] at hcheck
  exact PropagationPolicy.valid_of_validate hcheck.1

/-- The outcome assembled from the traversals, before the commit. -/
def assembled (pq : EntryQueue) (topo : Topology) (policy : PropagationPolicy)
    (ledger : PropagationLedger) (fences : Option FenceTable) (pins : List (Option Generation))
    (request : PropagationRequest) : PropagationOutcome :=
  assemble policy (admittedOutcome topo request)
    (progress pq topo policy ledger fences pins request)

section Fields

variable {o : PropagationOutcome} {d : Digest128}

@[simp] theorem seal_status : (o.seal d).status = o.status := rfl
@[simp] theorem seal_explanations : (o.seal d).explanations = o.explanations := rfl
@[simp] theorem seal_rejections : (o.seal d).rejections = o.rejections := rfl
@[simp] theorem seal_nodes : (o.seal d).nodes = o.nodes := rfl
@[simp] theorem seal_complete : (o.seal d).complete = o.complete := rfl
@[simp] theorem seal_counters : (o.seal d).counters = o.counters := rfl

@[simp] theorem finalize_status : o.finalize.status = o.status := seal_status
@[simp] theorem finalize_explanations : o.finalize.explanations = o.explanations :=
  seal_explanations
@[simp] theorem finalize_rejections : o.finalize.rejections = o.rejections := seal_rejections
@[simp] theorem finalize_nodes : o.finalize.nodes = o.nodes := seal_nodes
@[simp] theorem finalize_complete : o.finalize.complete = o.complete := seal_complete
@[simp] theorem finalize_counters : o.finalize.counters = o.counters := seal_counters

@[simp] theorem assembled_status :
    (assembled pq topo policy ledger fences pins request).status = .success := rfl

@[simp] theorem assembled_explanations :
    (assembled pq topo policy ledger fences pins request).explanations =
      (progress pq topo policy ledger fences pins request).explanations := rfl

@[simp] theorem assembled_rejections :
    (assembled pq topo policy ledger fences pins request).rejections =
      (progress pq topo policy ledger fences pins request).rejections := rfl

@[simp] theorem assembled_nodes : (assembled pq topo policy ledger fences pins request).nodes =
    aggregateNodes policy (progress pq topo policy ledger fences pins request).acc := rfl

@[simp] theorem assembled_complete :
    (assembled pq topo policy ledger fences pins request).complete =
      !(progress pq topo policy ledger fences pins request).truncated := rfl

end Fields

/-- What the engine decides before it writes anything. -/
inductive PlanCase (pq : EntryQueue) (topo : Topology) (policy : PropagationPolicy)
    (ledger : PropagationLedger) (fences : Option FenceTable) (liveEpoch : Epoch)
    (request : PropagationRequest) : Except PropagationOutcome Plan → Prop
  | refused {o : PropagationOutcome} : (∀ pins, ¬Ready topo policy liveEpoch pins request) →
      o.status.ok = false → o.explanations = [] → o.nodes = [] → o.counters.signalsAccepted = 0 →
      o.complete = true → PlanCase pq topo policy ledger fences liveEpoch request (.error o)
  | allRefused {pins : List (Option Generation)} {st : Status} :
      Ready topo policy liveEpoch pins request → st.ok = false →
      (progress pq topo policy ledger fences pins request).counters.signalsAccepted = 0 →
      PlanCase pq topo policy ledger fences liveEpoch request
        (.error { assembled pq topo policy ledger fences pins request with status := st })
  | planned {pins : List (Option Generation)} : Ready topo policy liveEpoch pins request →
      PlanCase pq topo policy ledger fences liveEpoch request
        (.ok { outcome := assembled pq topo policy ledger fences pins request
               live := liveSignals policy ledger request
               truncated := (progress pq topo policy ledger fences pins request).truncated })

theorem resolvePins_error {l : List DependencyPin} {st : Status}
    (h : resolvePins topo l = .error st) : st.ok = false := by
  suffices hs : ∀ (l : List DependencyPin) (table : List (Option Generation)),
      l.foldlM (resolvePin topo) table = Except.error st → st.ok = false from hs _ _ h
  intro l
  induction l with
  | nil => exact fun table hl => by cases hl
  | cons pin rest ih =>
    intro table hl
    rw [List.foldlM_cons] at hl
    cases hpin : resolvePin topo table pin with
    | ok table' =>
      rw [hpin] at hl
      exact ih table' hl
    | error st' =>
      rw [hpin] at hl
      cases hl
      unfold resolvePin at hpin
      split at hpin
      · cases hpin
        rfl
      · cases hpin

theorem plan_cases : PlanCase pq topo policy ledger fences liveEpoch request
    (plan pq topo policy ledger fences liveEpoch request) := by
  unfold plan
  dsimp only
  split
  case isTrue hst =>
    exact .refused (fun _ hready => by simp [hready.checked] at hst) (by simpa using hst) rfl rfl rfl
      rfl
  case isFalse hst =>
    split
    case isTrue hsources =>
      exact .refused (fun _ hready => absurd hready.sources (by omega)) rfl rfl rfl rfl rfl
    case isFalse hsources =>
      split
      case isTrue hcount =>
        exact .refused (fun _ hready => absurd hready.pinCount (by omega)) rfl rfl rfl rfl rfl
      case isFalse hcount =>
        cases hpins : resolvePins topo request.pins with
        | error st =>
          exact .refused (fun _ hready => by simp [hready.pins] at hpins)
            (resolvePins_error hpins) rfl rfl rfl rfl
        | ok pins =>
          dsimp only
          unfold planSignals
          dsimp only
          split
          case isTrue haccepted =>
            refine .refused (fun _ hready => hready.accepted haccepted) ?_ rfl rfl ?_ rfl
            · dsimp only
              split
              · rfl
              case h_2 r rest hrej => exact rejection_failed (hrej ▸ List.mem_cons_self)
            · exact admission_invariant (P := fun a => a.counters.signalsAccepted = 0) rfl
                fun a s _ ha => by
                  unfold admitNext
                  dsimp only
                  split <;> exact ha
          case isFalse haccepted =>
            have hready : Ready topo policy liveEpoch pins request :=
              ⟨by simpa using hst, Nat.le_of_not_lt hsources, Nat.le_of_not_lt hcount, hpins,
                haccepted⟩
            split
            case h_1 r rest hzero hrej =>
              refine .allRefused hready ?_ hzero
              exact progress_rejections r (hrej ▸ List.mem_cons_self)
            case h_2 => exact .planned hready

/-- What a call of the engine comes to: nothing is written, or the plan is committed. -/
inductive ProcessCase (pq : EntryQueue) (ctx : EngineContext) (request : PropagationRequest) :
    PropagationOutcome × Option PropagationLedger → Prop
  | refused {o : PropagationOutcome} :
      (∀ topo policy pins, ctx.topology = some topo → ctx.policy = some policy →
        ctx.ledger.isSome = true → ¬Ready topo policy ctx.liveEpoch pins request) →
      o.status.ok = false → o.explanations = [] → o.nodes = [] → o.counters.signalsAccepted = 0 →
      ProcessCase pq ctx request (o.finalize, ctx.ledger)
  | allRefused {topo : Topology} {policy : PropagationPolicy} {ledger : PropagationLedger}
      {pins : List (Option Generation)} {st : Status} :
      ctx.topology = some topo → ctx.policy = some policy → ctx.ledger = some ledger →
      Ready topo policy ctx.liveEpoch pins request → st.ok = false →
      (progress pq topo policy ledger ctx.fences pins request).counters.signalsAccepted = 0 →
      ProcessCase pq ctx request
        (({ assembled pq topo policy ledger ctx.fences pins request with status := st }).finalize,
          some ledger)
  | kept {topo : Topology} {policy : PropagationPolicy} {ledger : PropagationLedger}
      {pins : List (Option Generation)} {counters : EngineCounters} :
      ctx.topology = some topo → ctx.policy = some policy → ctx.ledger = some ledger →
      Ready topo policy ctx.liveEpoch pins request →
      (request.dryRun = true ∨
        (progress pq topo policy ledger ctx.fences pins request).truncated = true) →
      counters.signalsAccepted =
        (progress pq topo policy ledger ctx.fences pins request).counters.signalsAccepted →
      ProcessCase pq ctx request
        (({ assembled pq topo policy ledger ctx.fences pins request with counters }).finalize,
          some ledger)
  | committed {topo : Topology} {policy : PropagationPolicy} {ledger ledger' : PropagationLedger}
      {pins : List (Option Generation)} {st : Status} {counters : EngineCounters} :
      ctx.topology = some topo → ctx.policy = some policy → ctx.ledger = some ledger →
      Ready topo policy ctx.liveEpoch pins request → request.dryRun = false →
      (progress pq topo policy ledger ctx.fences pins request).truncated = false →
      commitApplications request.now
        (assembled pq topo policy ledger ctx.fences pins request).nodes
        (markLineages (liveSignals policy ledger request) ledger) = (st, ledger') →
      counters.signalsAccepted =
        (progress pq topo policy ledger ctx.fences pins request).counters.signalsAccepted →
      ProcessCase pq ctx request
        (({ assembled pq topo policy ledger ctx.fences pins request with
            status := st, complete := st.ok, counters }).finalize,
          some (commitDamping request.now
            (assembled pq topo policy ledger ctx.fences pins request).explanations ledger'))

theorem commitApplications_ok {now : Tick} {nodes : List NodeOutcome} {st : Status}
    {ledger' : PropagationLedger} (h : commitApplications now nodes ledger = (st, ledger'))
    (hst : st.ok = true) : st = .success := by
  induction nodes generalizing ledger with
  | nil =>
    cases h
    rfl
  | cons n rest ih =>
    rw [commitApplications] at h
    split at h
    · exact ih h
    · dsimp only at h
      split at h
      · exact ih h
      case isFalse hfail =>
        cases h
        exact absurd hst hfail

theorem withCounters_eq {o : PropagationOutcome} {counters : EngineCounters}
    (hstatus : o.status = .success) (hcomplete : o.complete = true) :
    { o with counters } = { o with status := .success, complete := true, counters } := by
  cases o
  simp_all

theorem propagate_cases (pq : EntryQueue) (ctx : EngineContext) (request : PropagationRequest) :
    ProcessCase pq ctx request (propagate pq ctx request) := by
  unfold propagate
  split
  case h_2 hnull =>
    refine .refused (fun topo policy _ ht hp hl _ => ?_) rfl rfl rfl rfl
    obtain ⟨ledger, hl⟩ := Option.isSome_iff_exists.mp hl
    exact hnull topo policy ledger ht hp hl
  case h_1 topo policy ledger htopo hpolicy hledger =>
    have hplan : PlanCase pq topo policy ledger ctx.fences ctx.liveEpoch request
      (plan pq topo policy ledger ctx.fences ctx.liveEpoch request) := plan_cases
    revert hplan
    generalize plan pq topo policy ledger ctx.fences ctx.liveEpoch request = r
    intro hplan
    cases hplan with
    | refused hready hst hexpl hnodes hacc _ =>
      rw [← hledger]
      refine .refused (fun topo' policy' pins ht hp _ => ?_) hst hexpl hnodes hacc
      obtain rfl := Option.some.inj (htopo.symm.trans ht)
      obtain rfl := Option.some.inj (hpolicy.symm.trans hp)
      exact hready pins
    | allRefused hready hst hacc => exact .allRefused htopo hpolicy hledger hready hst hacc
    | planned hready =>
      rename_i pins
      dsimp only
      split
      case isFalse hkeep =>
        refine .kept htopo hpolicy hledger hready ?_ rfl
        simp only [Bool.and_eq_true, Bool.not_eq_true', not_and, Bool.not_eq_false] at hkeep
        cases hdry : request.dryRun with
        | true => exact .inl rfl
        | false => exact .inr (hkeep hdry)
      case isTrue hwrite =>
        simp only [Bool.and_eq_true, Bool.not_eq_true'] at hwrite
        unfold commit
        dsimp only
        generalize hcommit : commitApplications request.now
          (assembled pq topo policy ledger ctx.fences pins request).nodes
          (markLineages (liveSignals policy ledger request) ledger) = written
        obtain ⟨st, ledger'⟩ := written
        have hcase : ∀ counters : EngineCounters, counters.signalsAccepted =
            (progress pq topo policy ledger ctx.fences pins request).counters.signalsAccepted →
            ProcessCase pq ctx request
              (({ assembled pq topo policy ledger ctx.fences pins request with
                  status := st, complete := st.ok, counters }).finalize,
                some (commitDamping request.now
                  (assembled pq topo policy ledger ctx.fences pins request).explanations ledger')) :=
          fun counters hc =>
            .committed htopo hpolicy hledger hready hwrite.1 hwrite.2 hcommit hc
        cases hst : st.ok with
        | false =>
          rw [hst] at hcase
          exact hcase _ rfl
        | true =>
          rw [hst, commitApplications_ok hcommit hst] at hcase
          have hcomplete : (assembled pq topo policy ledger ctx.fences pins request).complete =
              true := by simp [assembled, assemble, hwrite.2]
          rw [if_pos rfl, withCounters_eq rfl hcomplete]
          exact hcase _ rfl

/-- The outcome reports the traversals of the live signals of an admitted request. -/
structure Report (pq : EntryQueue) (topo : Topology) (policy : PropagationPolicy)
    (ledger : PropagationLedger) (fences : Option FenceTable) (liveEpoch : Epoch)
    (request : PropagationRequest) (pins : List (Option Generation)) (o : PropagationOutcome) :
    Prop where
  ready : Ready topo policy liveEpoch pins request
  explanations : o.explanations = (progress pq topo policy ledger fences pins request).explanations
  nodes : o.nodes = aggregateNodes policy (progress pq topo policy ledger fences pins request).acc
  untruncated : o.complete = true →
    (progress pq topo policy ledger fences pins request).truncated = false

/-- An outcome that reports nothing. -/
structure Silent (o : PropagationOutcome) : Prop where
  status : o.status.ok = false
  explanations : o.explanations = []
  nodes : o.nodes = []

/-- An outcome reports nothing, or it reports the traversals of an admitted request. -/
theorem propagate_report (pq : EntryQueue) (topo : Topology) (policy : PropagationPolicy)
    (ledger : PropagationLedger) (fences : Option FenceTable) (liveEpoch : Epoch)
    (request : PropagationRequest) :
    (Silent (propagate pq (.of topo policy ledger fences liveEpoch) request).1 ∧
      ∀ pins, ¬Ready topo policy liveEpoch pins request) ∨
    ∃ pins, Report pq topo policy ledger fences liveEpoch request pins
      (propagate pq (.of topo policy ledger fences liveEpoch) request).1 := by
  have hcase := propagate_cases pq (.of topo policy ledger fences liveEpoch) request
  revert hcase
  generalize propagate pq (.of topo policy ledger fences liveEpoch) request = r
  intro hcase
  cases hcase with
  | refused hready hst hexpl hnodes =>
    exact .inl ⟨⟨by simp [hst], by simp [hexpl], by simp [hnodes]⟩,
      fun pins => hready topo policy pins rfl rfl rfl⟩
  | allRefused ht hp hl hready =>
    cases ht
    cases hp
    cases hl
    exact .inr ⟨_, hready, by simp; rfl, by simp; rfl, by simp; exact id⟩
  | kept ht hp hl hready =>
    cases ht
    cases hp
    cases hl
    exact .inr ⟨_, hready, by simp; rfl, by simp; rfl, by simp; exact id⟩
  | committed ht hp hl hready _ htrunc =>
    cases ht
    cases hp
    cases hl
    exact .inr ⟨_, hready, by simp; rfl, by simp; rfl, fun _ => htrunc⟩

theorem report_of_ready (pq : EntryQueue) (ledger : PropagationLedger)
    (fences : Option FenceTable) (h : Ready topo policy liveEpoch pins request) :
    Report pq topo policy ledger fences liveEpoch request pins
      (propagate pq (.of topo policy ledger fences liveEpoch) request).1 := by
  rcases propagate_report pq topo policy ledger fences liveEpoch request with ⟨-, hnot⟩ | ⟨pins', hrep⟩
  · exact absurd h (hnot pins)
  · have hsame := hrep.ready.pins.symm.trans h.pins
    cases hsame
    exact hrep

theorem mem_aggregateNodes {acc : Accumulators} {n : NodeOutcome} :
    n ∈ aggregateNodes policy acc ↔ ∃ i a, acc.lookup i = some a ∧ n = nodeOutcome policy a := by
  unfold aggregateNodes
  rw [(List.perm_insertionSort _ _).mem_iff, List.mem_map]
  constructor
  · rintro ⟨⟨i, a⟩, hmem, rfl⟩
    exact ⟨i, a, AList.mem_lookup_iff.mpr hmem, rfl⟩
  · rintro ⟨i, a, hlookup, rfl⟩
    exact ⟨⟨i, a⟩, AList.mem_lookup_iff.mp hlookup, rfl⟩

end PropagationEngine

end Backpressure
