import Backpressure.Engine.Wider

/-!
# The order of the signals

A request may list its signals in any order. As long as every source speaks once, and no resource
has more contributions than an outcome lists, the same resources receive pressure and the same
magnitude is applied to them, under every rule of aggregation.
-/

namespace Backpressure

/-! ## Aggregation -/

namespace Contribution

/-- The first contribution wins under the priority rule, or is as good as the second. -/
def Beats (c c' : Contribution) : Prop :=
  c.sourcePriority < c'.sourcePriority ∨
    c.sourcePriority = c'.sourcePriority ∧ c'.magnitude.raw ≤ c.magnitude.raw

theorem Beats.refl (c : Contribution) : c.Beats c := .inr ⟨rfl, Nat.le_refl _⟩

theorem Beats.trans {a b c : Contribution} (h : a.Beats b) (h' : b.Beats c) : a.Beats c := by
  unfold Beats at *
  omega

theorem Beats.antisymm {a b : Contribution} (h : a.Beats b) (h' : b.Beats a) :
    a.magnitude.raw = b.magnitude.raw := by
  unfold Beats at *
  omega

end Contribution

section Aggregate

variable {policy : PropagationPolicy} {l l' : List Contribution} {c c' : Contribution}

theorem priorityWinner_cases (winner c : Contribution) :
    priorityWinner winner c = c ∧ c.Beats winner ∨
      priorityWinner winner c = winner ∧ winner.Beats c := by
  unfold priorityWinner Contribution.Beats
  split
  case isTrue hless => exact .inl ⟨rfl, .inl hless⟩
  case isFalse hnot =>
    split
    case isFalse hother => exact .inr ⟨rfl, by omega⟩
    case isTrue hsame =>
      split
      case isTrue hstronger => exact .inl ⟨rfl, by omega⟩
      case isFalse hweaker =>
        split
        case isTrue htie => exact .inl ⟨rfl, by omega⟩
        case isFalse => exact .inr ⟨rfl, by omega⟩

/-- The winner is among the contributions and beats them all. -/
theorem foldl_priorityWinner (c : Contribution) (l : List Contribution) :
    l.foldl priorityWinner c ∈ c :: l ∧ ∀ x ∈ c :: l, (l.foldl priorityWinner c).Beats x := by
  induction l generalizing c with
  | nil => exact ⟨List.mem_cons_self, fun x hx => List.mem_singleton.mp hx ▸ .refl c⟩
  | cons d rest ih =>
    rw [List.foldl_cons]
    obtain ⟨hmem, hbeats⟩ := ih (priorityWinner c d)
    have hfirst := hbeats _ List.mem_cons_self
    have hrest : ∀ x ∈ rest, (rest.foldl priorityWinner (priorityWinner c d)).Beats x :=
      fun x hx => hbeats x (List.mem_cons_of_mem _ hx)
    rcases priorityWinner_cases c d with ⟨hwins, hover⟩ | ⟨hwins, hover⟩
    · rw [hwins] at hmem hfirst hrest ⊢
      refine ⟨List.mem_cons_of_mem c hmem, ?_⟩
      rw [List.forall_mem_cons, List.forall_mem_cons]
      exact ⟨hfirst.trans hover, hfirst, hrest⟩
    · rw [hwins] at hmem hfirst hrest ⊢
      refine ⟨?_, ?_⟩
      · rcases List.mem_cons.mp hmem with hsame | hmem
        · rw [hsame]
          exact List.mem_cons_self
        · exact List.mem_cons_of_mem c (List.mem_cons_of_mem d hmem)
      · rw [List.forall_mem_cons, List.forall_mem_cons]
        exact ⟨hfirst, hfirst.trans hover, hrest⟩

theorem largest_perm {read : Contribution → Magnitude} (h : (c :: l).Perm (c' :: l')) :
    ((l.map read).foldl largest (read c)).raw = ((l'.map read).foldl largest (read c')).raw :=
  Nat.le_antisymm
    (largest_mono fun x hx => ⟨x, h.mem_iff.mp hx, Nat.le_refl _⟩)
    (largest_mono fun x hx => ⟨x, h.mem_iff.mpr hx, Nat.le_refl _⟩)

theorem aggregate_perm (h : l.Perm l') :
    aggregateContributions policy l = aggregateContributions policy l' := by
  refine Q16.ext ?_
  cases l with
  | nil => rw [h.nil_eq]
  | cons c rest =>
    cases l' with
    | nil => cases h.eq_nil
    | cons c' rest' =>
      unfold aggregateContributions
      dsimp only
      cases policy.aggregation with
      | count => rfl
      | max => exact largest_perm h
      | weightedMax => exact largest_perm h
      | priorityFirst =>
        obtain ⟨hmem, hbeats⟩ := foldl_priorityWinner c rest
        obtain ⟨hmem', hbeats'⟩ := foldl_priorityWinner c' rest'
        exact (hbeats _ (h.mem_iff.mpr hmem')).antisymm (hbeats' _ (h.mem_iff.mp hmem))
      | saturatingSum =>
        dsimp only
        rw [saturatingSum_eq (Nat.zero_le _), saturatingSum_eq (Nat.zero_le _),
          (h.map fun c => c.magnitude.raw).sum_eq]

theorem clamped_perm {a a' : NodeAccumulator} (h : a.contributions.Perm a'.contributions) :
    clampedAggregate policy a = clampedAggregate policy a' := by
  unfold clampedAggregate
  rw [aggregate_perm h]

end Aggregate

/-! ## Admission -/

namespace PropagationEngine

variable {pq : EntryQueue} {topo : Topology} {policy : PropagationPolicy}
  {ledger : PropagationLedger} {fences : Option FenceTable} {liveEpoch : Epoch}
  {pins : List (Option Generation)} {request : PropagationRequest} {l : List PressureSignal}
  {s : PressureSignal} {i : Nat}

/-- Signals of different sources are accepted one by one. -/
theorem foldl_acceptNext {accepted : List PressureSignal}
    (hnew : ∀ s ∈ l, ∀ other ∈ accepted, other.source ≠ s.source)
    (hsources : (l.map PressureSignal.source).Nodup) :
    l.foldl (acceptNext policy request) accepted =
      accepted ++ l.filter fun s => (admitSignal policy request [] s).ok := by
  induction l generalizing accepted with
  | nil => rw [List.foldl_nil, List.filter_nil, List.append_nil]
  | cons s rest ih =>
    rw [List.map_cons, List.nodup_cons] at hsources
    obtain ⟨hfresh, hsources⟩ := hsources
    have hlater : ∀ s' ∈ rest, s.source ≠ s'.source := fun s' hs' hsame =>
      hfresh (hsame ▸ List.mem_map_of_mem hs')
    have hsame : (admitSignal policy request accepted s).ok =
        (admitSignal policy request [] s).ok := by
      rw [Bool.eq_iff_iff, admitSignal_ok, admitSignal_ok]
      simp only [List.not_mem_nil, false_implies, implies_true, and_true]
      exact and_congr_right fun _ => and_congr_right fun _ =>
        and_iff_left (hnew s List.mem_cons_self)
    have hrest : ∀ s' ∈ rest, ∀ other ∈ accepted, other.source ≠ s'.source :=
      fun s' hs' => hnew s' (List.mem_cons_of_mem s hs')
    rw [List.foldl_cons, acceptNext, hsame]
    cases hok : (admitSignal policy request [] s).ok with
    | false =>
      rw [if_neg Bool.false_ne_true, ih hrest hsources, List.filter_cons_of_neg (by simp [hok])]
    | true =>
      have hboth : ∀ s' ∈ rest, ∀ other ∈ accepted ++ [s], other.source ≠ s'.source := by
        intro s' hs' other hother
        rcases List.mem_append.mp hother with hother | hother
        · exact hrest s' hs' other hother
        · rw [List.mem_singleton.mp hother]
          exact hlater s' hs'
      rw [if_pos rfl, ih hboth hsources, List.filter_cons_of_pos (by exact hok), List.append_assoc]
      rfl

theorem acceptedAmong_eq (hsources : (l.map PressureSignal.source).Nodup) :
    acceptedAmong policy request l =
      l.filter fun s => (admitSignal policy request [] s).ok :=
  foldl_acceptNext (fun _ _ _ hother => absurd hother List.not_mem_nil) hsources

theorem acceptedAmong_perm (hperm : l.Perm request.signals)
    (hsources : (request.signals.map PressureSignal.source).Nodup) :
    (acceptedAmong policy request l).Perm (admission policy request).accepted := by
  rw [accepted_admission, acceptedAmong_eq hsources,
    acceptedAmong_eq ((hperm.map _).nodup_iff.mpr hsources)]
  exact hperm.filter _

/-! ## Traversals -/

theorem reach_withSignals : reach pq topo policy ledger fences pins (withSignals request l) s =
    reach pq topo policy ledger fences pins request s :=
  @settlements_startTraversal pq topo policy ledger fences pins request s
    (unstarted policy ledger topo (withSignals request l))

theorem arrivalsAt_perm (hperm : l.Perm request.signals)
    (hsources : (request.signals.map PressureSignal.source).Nodup) :
    (arrivalsAt pq topo policy ledger fences pins (withSignals request l) i).Perm
      (arrivalsAt pq topo policy ledger fences pins request i) := by
  have hsame : arrivalsOf pq topo policy ledger fences pins (withSignals request l) i =
      arrivalsOf pq topo policy ledger fences pins request i := by
    funext s
    unfold arrivalsOf
    rw [reach_withSignals]
    rfl
  rw [arrivalsAt_eq, arrivalsAt_eq, hsame]
  unfold liveSignals
  rw [accepted_withSignals]
  exact ((acceptedAmong_perm hperm hsources).filter _).flatMap_right _

/-! ## The outcome -/

theorem appliedOf_perm {xs ys : List Arrival} (h : xs.Perm ys)
    (hfew : xs.length ≤ kMaxContributionsPerNode) : appliedOf policy xs = appliedOf policy ys := by
  have hlength := h.length_eq
  refine clamped_perm ?_
  dsimp only
  rw [List.take_of_length_le (by rw [List.length_map]; omega),
    List.take_of_length_le (by rw [List.length_map]; omega)]
  exact h.map _

/-- The outcome applies this magnitude at a resource that has received pressure. -/
def Applies (o : PropagationOutcome) (resource : ResourceId) (applied : Magnitude) : Prop :=
  ∃ n ∈ o.nodes, n.resource = resource ∧ n.received = true ∧ n.applied = applied

theorem applies_reordered (hperm : l.Perm request.signals)
    (hsources : (request.signals.map PressureSignal.source).Nodup)
    (hfew : (liveSignals policy ledger request).length ≤ kMaxContributionsPerNode)
    {resource : ResourceId} {applied : Magnitude}
    (h : Applies (propagate pq (.of topo policy ledger fences liveEpoch) request).1 resource
      applied) :
    Applies (propagate pq (.of topo policy ledger fences liveEpoch) (withSignals request l)).1
      resource applied := by
  obtain ⟨n, hn, hid, hreceived, happlied⟩ := h
  rcases propagate_report pq topo policy ledger fences liveEpoch request with
    ⟨hsilent, -⟩ | ⟨pins, hrep⟩
  · rw [hsilent.nodes] at hn
    cases hn
  · have haccepted : acceptedAmong policy request l ≠ [] := fun hnil => by
      have hsame := @acceptedAmong_perm policy request l hperm hsources
      rw [hnil] at hsame
      exact hrep.ready.accepted hsame.nil_eq.symm
    have hready := ready_withSignals hrep.ready (hperm.length_eq ▸ hrep.ready.sources) haccepted
    have hrep' := report_of_ready pq ledger fences hready
    rw [hrep.nodes] at hn
    obtain ⟨i, r, x, rest, hr, harrivals, houtcome⟩ := outcome_received hn hreceived
    have hshort := @length_arrivalsAt pq topo policy ledger fences pins request i
    have harrivalsPerm := @arrivalsAt_perm pq topo policy ledger fences pins request l i hperm
      hsources
    rw [harrivals] at hshort harrivalsPerm
    cases harrivals' : arrivalsAt pq topo policy ledger fences pins (withSignals request l) i with
    | nil =>
      rw [harrivals'] at harrivalsPerm
      cases harrivalsPerm.nil_eq
    | cons y rest' =>
      rw [harrivals'] at harrivalsPerm
      obtain ⟨n', hn', houtcome'⟩ := exists_outcome hr harrivals'
      rw [← hrep'.nodes] at hn'
      have hsame := @appliedOf_perm policy _ _ harrivalsPerm.symm (hshort.trans hfew)
      refine ⟨n', hn', ?_, houtcome'.received, ?_⟩
      · rw [houtcome'.resource, ← hid, houtcome.resource]
      · rw [houtcome'.applied, ← hsame, ← houtcome.applied, happlied]

/-- In whatever order a request lists its signals, the same is applied at the same resources. -/
theorem order_irrelevant (pq : EntryQueue) (topo : Topology) (policy : PropagationPolicy)
    (ledger : PropagationLedger) (fences : Option FenceTable) (liveEpoch : Epoch)
    (request : PropagationRequest) (l : List PressureSignal) (hperm : l.Perm request.signals)
    (hsources : (request.signals.map PressureSignal.source).Nodup)
    (hfew : (liveSignals policy ledger request).length ≤ kMaxContributionsPerNode) :
    ∀ resource applied,
      Applies (propagate pq (.of topo policy ledger fences liveEpoch) (withSignals request l)).1
          resource applied ↔
        Applies (propagate pq (.of topo policy ledger fences liveEpoch) request).1 resource
          applied := by
  refine fun resource applied => ⟨fun h => ?_, applies_reordered hperm hsources hfew⟩
  have hlive : (liveSignals policy ledger (withSignals request l)).length =
      (liveSignals policy ledger request).length := by
    unfold liveSignals
    rw [accepted_withSignals]
    exact ((acceptedAmong_perm hperm hsources).filter _).length_eq
  have hback : withSignals (withSignals request l) request.signals = request := rfl
  rw [← hback]
  exact applies_reordered hperm.symm ((hperm.map _).nodup_iff.mpr hsources) (hlive.le.trans hfew) h

/-- The probes of two sources, the other way round. -/
theorem order_irrelevant_pair :
    let request := (callWith [probeFrom 1 7, probeFrom 2 8]).request
    let ctx := EngineContext.of pairTopology probePolicy (.make 4 4 4) none probeEpoch
    Applies (propagate .scan ctx (withSignals request [probeFrom 2 8, probeFrom 1 7])).1 ⟨8⟩
      (.fromRawSaturating 65536) :=
  (order_irrelevant .scan pairTopology probePolicy (.make 4 4 4) none probeEpoch
    (callWith [probeFrom 1 7, probeFrom 2 8]).request [probeFrom 2 8, probeFrom 1 7]
    (List.Perm.swap (probeFrom 1 7) (probeFrom 2 8) []) (by decide +kernel) (by decide +kernel)
    ⟨8⟩ (.fromRawSaturating 65536)).mpr (by unfold Applies; decide +kernel)

end PropagationEngine

end Backpressure
