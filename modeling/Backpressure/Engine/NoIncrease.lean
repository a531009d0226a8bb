import Backpressure.Engine.Outcome

/-!
# Pressure never increases without authorisation

A best-first traversal whose amplification is not granted only ever queues potentials
bounded by the seed, under unit gain. The bound passes through the settlements into the
contributions, and the ceiling bounds what the aggregation makes of them.
-/

namespace Backpressure

namespace Traversal

variable {pq : EntryQueue} {ctx : TraversalContext} {t t' u : Traversal pq} {c c' : Control}

/-- A potential that has not been amplified since the seed. -/
structure Damped (ctx : TraversalContext) (entry : QueueEntry) : Prop where
  potential : entry.potential.raw ≤ ctx.seed.raw
  gain : entry.cumulativeGainQ16 = kUnityGainQ16

/-- A hop across which pressure does not grow. -/
structure NonIncreasing (hop : HopRecord) : Prop where
  potential : hop.potentialAfter.raw ≤ hop.potentialBefore.raw
  gain : hop.cumulativeGainQ16 = kUnityGainQ16

/-- The contributions of the source stay below the magnitude. -/
def Within (source : SourceId) (m : Magnitude) (acc : Accumulators) : Prop :=
  ∀ i a, acc.lookup i = some a → ∀ x ∈ a.contributions, x.source = source →
    x.magnitude.raw ≤ m.raw

/-- Everything queued, being expanded or reported is damped. -/
structure Contained (ctx : TraversalContext) (c : Control) (t : Traversal pq) : Prop where
  queue : ∀ e ∈ pq.contents t.queue, Damped ctx e
  current : c.All fun e _ => Damped ctx e
  hops : ∀ h ∈ t.expl.hops, NonIncreasing h

theorem carries_ungranted (hgrant : ctx.amplificationGranted = false) {entry : QueueEntry}
    {edge : DependencyEdge} {carried : TraversalContext.Carried}
    (h : ctx.carries entry edge = .ok carried) :
    carried.next = entry.potential.attenuated edge.attenuation ∧
      carried.gain = entry.cumulativeGainQ16 := by
  unfold TraversalContext.carries at h
  dsimp only at h
  have hrefused : (!ctx.policy.allowAmplification ||
      !ctx.signal.authority.amplificationAuthorized) = true := by
    rw [← Bool.not_and]
    exact congrArg not hgrant
  rw [if_pos hrefused] at h
  split at h
  · cases h
  · cases h
    exact ⟨rfl, rfl⟩

theorem contained_step (hgrant : ctx.amplificationGranted = false) (h : Contained ctx c t)
    (hstep : Step ctx c t c' t') : Contained ctx c' t' := by
  cases hstep with
  | tidy htidy => exact ⟨htidy.queue ▸ h.queue, h.current, htidy.hops ▸ h.hops⟩
  | skip hpop =>
    exact ⟨fun e he => h.queue e ((Lib.PriorityQueue.mem_pop hpop).mpr (.inr he)),
      trivial, h.hops⟩
  | settle hpop =>
    refine ⟨fun e he => h.queue e ((Lib.PriorityQueue.mem_pop hpop).mpr (.inr he)), ?_, h.hops⟩
    exact h.queue _ (Lib.PriorityQueue.top_mem hpop)
  | abandon hpop _ htidy =>
    refine ⟨fun e he => ?_, trivial, htidy.hops ▸ h.hops⟩
    rw [htidy.queue] at he
    exact h.queue e ((Lib.PriorityQueue.mem_pop hpop).mpr (.inr he))
  | accept _ hcross =>
    have hdamped := h.current
    obtain ⟨hnext, hgain⟩ := carries_ungranted hgrant hcross.carries
    refine ⟨fun e he => ?_, h.current, fun hop hhop => ?_⟩
    · rcases Lib.PriorityQueue.mem_push.mp he with rfl | he
      · refine ⟨?_, hgain.trans hdamped.gain⟩
        change (TraversalContext.Carried.next _).raw ≤ _
        rw [hnext]
        exact (Potential.attenuated_raw_le _ _).trans hdamped.potential
      · exact h.queue e he
    · rcases List.mem_append.mp hhop with hhop | hhop
      · exact h.hops hop hhop
      · rw [List.mem_singleton.mp hhop]
        refine ⟨?_, hgain.trans hdamped.gain⟩
        change (TraversalContext.Carried.next _).raw ≤ _
        rw [hnext]
        exact Potential.attenuated_raw_le _ _
  | leave => exact ⟨h.queue, trivial, h.hops⟩

/-! ## The contributions of a source -/

theorem Within.alike {source : SourceId} {m : Magnitude} {topo : Topology}
    {acc acc' : Accumulators} (h : Within source m acc) (halike : acc.Alike topo acc') :
    Within source m acc' := by
  intro i a' ha' x hx hsource
  rcases halike.adds i a' ha' with ⟨a, ha, hsame⟩ | ⟨r, -, hsame⟩
  · exact h i a ha x (hsame.contributions ▸ hx) hsource
  · rw [hsame.contributions] at hx
    cases hx

theorem contributions_settle {entry : QueueEntry} {a : NodeAccumulator} {x : Contribution}
    (hx : x ∈ (settleAccumulator ctx entry a).contributions) :
    x ∈ a.contributions ∨ x = contributionOf ctx entry := by
  have hsame : ∀ b : NodeAccumulator, b.contributions = a.contributions →
      x ∈ (if b.contributions.length < kMaxContributionsPerNode then
        { b with contributions := b.contributions ++ [contributionOf ctx entry] }
        else { b with contributionsTruncated := true }).contributions →
      x ∈ a.contributions ∨ x = contributionOf ctx entry := by
    intro b hb hx
    split at hx
    · rcases List.mem_append.mp hx with hx | hx
      · exact .inl (hb ▸ hx)
      · exact .inr (List.mem_singleton.mp hx)
    · exact .inl (hb ▸ hx)
  refine hsame _ ?_ hx
  dsimp only
  split <;> rfl

theorem Within.update {source : SourceId} {m : Magnitude} {acc : Accumulators} {i : Nat}
    {id : ResourceId} {f : NodeAccumulator → NodeAccumulator} (h : Within source m acc)
    (hf : ∀ a, ∀ x ∈ (f a).contributions, x ∈ a.contributions ∨
      (x.source = source → x.magnitude.raw ≤ m.raw)) : Within source m (acc.update i id f) := by
  intro j a ha x hx hsource
  by_cases hj : j = i
  · subst hj
    rw [Accumulators.lookup_update_self] at ha
    obtain rfl := Option.some.inj ha
    rcases hf _ x hx with hx | hx
    · cases hl : acc.lookup j with
      | none =>
        rw [Accumulators.at'_of_none hl] at hx
        cases hx
      | some b =>
        rw [Accumulators.at'_of_lookup hl] at hx
        exact h j b hl x hx hsource
    · exact hx hsource
  · rw [Accumulators.lookup_update_ne hj] at ha
    exact h j a ha x hx hsource

/-- A damped settlement keeps every source within its magnitude. -/
theorem Within.settle {source : SourceId} {m : Magnitude} {acc : Accumulators} {i : Nat}
    {id : ResourceId} {entry : QueueEntry} (h : Within source m acc)
    (hown : ctx.signal.source = source → entry.potential.toMagnitude.raw ≤ m.raw) :
    Within source m (acc.update i id (settleAccumulator ctx entry)) := by
  refine h.update fun a x hx => ?_
  rcases contributions_settle hx with hx | rfl
  · exact .inl hx
  · exact .inr hown

/-- A traversal keeps the contributions of a source within its magnitude, when the signal is
of another source, or is its own and nothing in the traversal is amplified. -/
theorem within_step {source : SourceId} {m : Magnitude}
    (hown : ctx.signal.source = source → ∀ e : QueueEntry, Damped ctx e →
      e.potential.toMagnitude.raw ≤ m.raw)
    (hdamped : ctx.signal.source = source → Contained ctx c t)
    (h : Within source m t.acc) (hstep : Step ctx c t c' t') : Within source m t'.acc := by
  cases hstep with
  | tidy htidy => exact h.alike htidy.acc
  | skip => exact h
  | settle hpop =>
    exact h.settle fun hs => hown hs _ ((hdamped hs).queue _ (Lib.PriorityQueue.top_mem hpop))
  | abandon _ _ htidy => exact h.alike htidy.acc
  | accept => exact h
  | leave => exact h

theorem contained_seeded {i : Nat} (fresh : t.Fresh) :
    Contained ctx .idle { t with queue := pq.push t.queue (originEntry ctx i) } := by
  refine ⟨fun e he => ?_, trivial, ?_⟩
  · rw [fresh.queue] at he
    rcases Lib.PriorityQueue.mem_push.mp he with rfl | he
    · exact ⟨Nat.le_refl _, rfl⟩
    · exact absurd he Lib.PriorityQueue.not_mem_empty
  · change ∀ h ∈ t.expl.hops, NonIncreasing h
    simp [fresh.hops]

theorem contained_steps (hgrant : ctx.amplificationGranted = false) (h : Contained ctx c t)
    (hsteps : Steps ctx c t c' t') : Contained ctx c' t' :=
  hsteps.invariant (P := Contained ctx) h fun _ _ _ _ => contained_step hgrant

/-- No hop of an ungranted traversal carries more than it took. -/
theorem nonIncreasing_run (fresh : t.Fresh) (hgrant : ctx.amplificationGranted = false)
    (h : RunCase ctx t (.success, t')) : ∀ hop ∈ t'.expl.hops, NonIncreasing hop := by
  cases h with
  | refused hst => cases hst
  | blocked _ _ htidy =>
    have hhops : t'.expl.hops = [] := htidy.hops.trans fresh.hops
    simp [hhops]
  | traversed _ _ _ _ htidy _ _ hstops =>
    exact (contained_steps hgrant (contained_seeded fresh) (final_steps htidy hstops)).hops

theorem within_run {source : SourceId} {m : Magnitude} (fresh : t.Fresh)
    (hown : ctx.signal.source = source →
      ctx.amplificationGranted = false ∧ ctx.seed.toMagnitude.raw ≤ m.raw)
    (h : Within source m t.acc) (hrun : RunCase ctx t (.success, t')) : Within source m t'.acc := by
  cases hrun with
  | refused hst => cases hst
  | blocked _ _ htidy =>
    refine Within.alike ?_ htidy.acc
    exact h.update fun a x hx => .inl hx
  | traversed _ _ _ _ htidy _ _ hstops =>
    have hdamped : ctx.signal.source = source → ∀ e : QueueEntry, Damped ctx e →
        e.potential.toMagnitude.raw ≤ m.raw := fun hs e he =>
      (Potential.toMagnitude_mono he.potential).trans (hown hs).2
    refine ((final_steps htidy hstops).invariant
      (P := fun c u => Within source m u.acc ∧ (ctx.signal.source = source → Contained ctx c u))
      ⟨h, fun _ => contained_seeded fresh⟩ fun _ _ _ _ hu hstep => ?_).1
    exact ⟨within_step hdamped hu.2 hu.1 hstep,
      fun hs => contained_step (hown hs).1 (hu.2 hs) hstep⟩

end Traversal

namespace PropagationEngine

open Traversal

variable {pq : EntryQueue} {topo : Topology} {policy : PropagationPolicy}
  {ledger : PropagationLedger} {fences : Option FenceTable} {pins : List (Option Generation)}
  {request : PropagationRequest}

/-- What the progress of a request keeps about one ungranted signal. -/
structure SignalContained (s : PressureSignal) (p : Progress) : Prop where
  within : Within s.source s.observation.magnitude p.acc
  hops : ∀ e ∈ p.explanations, e.source = s.source → ∀ h ∈ e.hops, NonIncreasing h

theorem signalContained_progress {s : PressureSignal}
    (hs : s ∈ (admission policy request).accepted)
    (hgrant : (policy.allowAmplification && s.authority.amplificationAuthorized) = false) :
    SignalContained s (progress pq topo policy ledger fences pins request) := by
  refine progress_invariant (fun p hp => ⟨?_, ?_⟩) fun p s' hs' hp => ?_
  · intro i a ha
    rw [hp.acc] at ha
    cases ha
  · exact fun e he _ h hh => by simp [(hp.replays e he).1] at hh
  · have hs'acc := (List.mem_filter.mp hs').1
    cases traverse_cases pq topo policy ledger fences pins request p s' with
    | refused _ _ hacc hexpl => exact ⟨hacc ▸ hp.within, hexpl ▸ hp.hops⟩
    | ran hrun hacc hexpl hhops hsource =>
      have hsame : s'.source = s.source → s' = s := accepted_source_injective hs'acc hs
      refine ⟨?_, fun e he hes h hh => ?_⟩
      · rw [hacc]
        refine within_run startTraversal_fresh (fun heq => ?_) hp.within hrun
        obtain rfl := hsame heq
        exact ⟨hgrant, (Potential.toMagnitude_fromMagnitude _).le⟩
      · rw [hexpl] at he
        rcases List.mem_append.mp he with he | he
        · exact hp.hops e he hes h hh
        · obtain rfl := List.mem_singleton.mp he
          obtain rfl := hsame (hsource.symm.trans hes)
          have hungranted : (traversalContext topo policy ledger fences pins request
              s').amplificationGranted = false := hgrant
          exact nonIncreasing_run startTraversal_fresh hungranted hrun h (hhops ▸ hh)

theorem clampedAggregate_le (policy : PropagationPolicy) (a : NodeAccumulator) :
    (clampedAggregate policy a).raw ≤ policy.aggregationCeiling.raw := by
  unfold clampedAggregate
  dsimp only
  split
  · exact Nat.le_refl _
  · omega

theorem applied_le_ceiling (policy : PropagationPolicy) (a : NodeAccumulator) :
    (nodeOutcome policy a).applied.raw ≤ policy.aggregationCeiling.raw := by
  unfold nodeOutcome
  dsimp only
  split
  · exact clampedAggregate_le policy a
  · exact Nat.zero_le _

/-- Without authorisation no hop of an accepted signal increases its potential, none of its
contributions exceeds what was observed, and nothing is applied above the ceiling. -/
theorem pressure_never_increases (pq : EntryQueue) (topo : Topology) (policy : PropagationPolicy)
    (ledger : PropagationLedger) (fences : Option FenceTable) (liveEpoch : Epoch)
    (request : PropagationRequest) :
    let outcome := (propagate pq (.of topo policy ledger fences liveEpoch) request).1
    (∀ s ∈ (admission policy request).accepted,
      policy.allowAmplification = false ∨ s.authority.amplificationAuthorized = false →
      (∀ e ∈ outcome.explanations, e.source = s.source → ∀ h ∈ e.hops,
        h.potentialAfter.raw ≤ h.potentialBefore.raw ∧ h.cumulativeGainQ16 = 65536) ∧
      (∀ n ∈ outcome.nodes, ∀ x ∈ n.contributions, x.source = s.source →
        x.magnitude.raw ≤ s.observation.magnitude.raw)) ∧
    ∀ n ∈ outcome.nodes, n.applied.raw ≤ policy.aggregationCeiling.raw := by
  intro outcome
  rcases propagate_report pq topo policy ledger fences liveEpoch request with
    ⟨hsilent, -⟩ | ⟨pins, hrep⟩
  · simp [outcome, hsilent.explanations, hsilent.nodes]
  · simp only [outcome, hrep.explanations, hrep.nodes]
    refine ⟨fun s hs hgrant => ?_, fun n hn => ?_⟩
    · have hungranted : (policy.allowAmplification && s.authority.amplificationAuthorized) =
          false := by rcases hgrant with h | h <;> simp [h]
      have hcontained : SignalContained s (progress pq topo policy ledger fences pins request) :=
        signalContained_progress hs hungranted
      refine ⟨fun e he hes h hh => ?_, fun n hn x hx hxs => ?_⟩
      · exact ⟨(hcontained.hops e he hes h hh).potential, (hcontained.hops e he hes h hh).gain⟩
      · obtain ⟨i, a, ha, rfl⟩ := mem_aggregateNodes.mp hn
        exact hcontained.within i a ha x hx hxs
    · obtain ⟨i, a, -, rfl⟩ := mem_aggregateNodes.mp hn
      exact applied_le_ceiling policy a

end PropagationEngine

end Backpressure
