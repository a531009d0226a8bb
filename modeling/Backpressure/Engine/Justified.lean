import Backpressure.Engine.Checkable
import Backpressure.Engine.Delivery
import Backpressure.Engine.Shares

/-!
# No unexplained pressure

A contribution is written when its entry is popped; the hops that led to it were reported when the
entries on the way were queued. So whatever stops a traversal, the explanation has a chain of hops
for everything that the signal contributed.
-/

namespace Backpressure

namespace Traversal

variable {pq : EntryQueue} {ctx : TraversalContext} {t t' : Traversal pq} {l : List HopRecord}
  {r r' : ResourceId} {p p' : Potential} {h : HopRecord}

/-- The hops lead from one resource to another, each with the potential that the hop before it
left. -/
def Leads : List HopRecord → ResourceId → Potential → ResourceId → Potential → Prop
  | [], r, p, r', p' => r = r' ∧ p = p'
  | h :: rest, r, p, r', p' => h.src = r ∧ h.potentialBefore = p ∧
      Leads rest h.dst h.potentialAfter r' p'

theorem Leads.snoc (hl : Leads l r p h.src h.potentialBefore) :
    Leads (l ++ [h]) r p h.dst h.potentialAfter := by
  induction l generalizing r p with
  | nil => exact ⟨hl.1.symm, hl.2.symm, rfl, rfl⟩
  | cons h' rest ih => exact ⟨hl.1, hl.2.1, ih hl.2.2⟩

/-- A settling path is a chain of recorded hops, one for each level of depth. -/
theorem SettlingPath.chain {hops : List HopRecord} {depth gain : Nat}
    (h : SettlingPath ctx hops r p depth gain) :
    ∃ chain, (∀ h ∈ chain, h ∈ hops) ∧ chain.length = depth ∧
      Leads chain ctx.signal.origin ctx.seed r p := by
  induction h with
  | origin => exact ⟨[], by simp, rfl, rfl, rfl⟩
  | @hop h edge gain _ hmem _ _ _ ih =>
    obtain ⟨chain, hchain, hlength, hleads⟩ := ih
    refine ⟨chain ++ [h], ?_, ?_, hleads.snoc⟩
    · intro h' hh'
      rcases List.mem_append.mp hh' with hh' | hh'
      · exact hchain h' hh'
      · rw [List.mem_singleton.mp hh']
        exact hmem
    · rw [List.length_append, hlength, List.length_singleton]

theorem Tour.accepted {i : Nat} {xs : List Visit} (h : Tour ctx i xs t) :
    ∀ hop ∈ t.expl.hops, hop.accepted = true := by
  intro hop hhop
  rw [h.hops] at hhop
  obtain ⟨x, -, hx⟩ := List.mem_flatMap.mp hhop
  obtain ⟨c, -, rfl⟩ := List.mem_map.mp hx
  exact accepted_acceptedHop

/-- Whatever a traversal settles, it has reached along accepted hops of its explanation. -/
theorem path_of_settled (fresh : t.Fresh) (hindexed : ctx.topo.Indexed)
    (hrun : t.run ctx = (.success, t')) :
    (∀ hop ∈ t'.expl.hops, hop.accepted = true) ∧
      ∀ e ∈ settlements ctx t, ∀ res, ctx.topo.resourceAt e.node = some res →
        SettlingPath ctx t'.expl.hops res.id e.potential e.depth e.cumulativeGainQ16 := by
  obtain ⟨i, origin, xs, horigin, hsettlements, htoured⟩ := toured_run fresh hrun
  refine ⟨htoured.toTour.accepted, fun e he res hres => ?_⟩
  rw [hsettlements] at he
  obtain ⟨x, hx, rfl⟩ := List.mem_map.mp he
  exact htoured.toTour.path hindexed horigin (htoured.entries x hx) res hres

end Traversal

namespace PropagationEngine

open Traversal Tally

variable {pq : EntryQueue} {topo : Topology} {policy : PropagationPolicy}
  {ledger : PropagationLedger} {fences : Option FenceTable} {pins : List (Option Generation)}
  {request : PropagationRequest} {s : PressureSignal}

/-- The explanation of a source is that of its signal: as it was before any traversal for a replay,
and that of its traversal for a live signal. -/
theorem explanation_of_source (hs : s ∈ (admission policy request).accepted)
    {e : PropagationExplanation}
    (he : e ∈ (progress pq topo policy ledger fences pins request).explanations)
    (hsource : e.source = s.source) :
    s ∈ replays policy ledger request ∧ e = (baseExplanation topo policy request s).finalize ∨
      s ∈ liveSignals policy ledger request ∧ ∃ t,
        traversalOf pq topo policy ledger fences pins request s = (.success, t) ∧
        e = (ranExplanation (progressBefore pq topo policy ledger fences pins request s).counters
          t).finalize := by
  rcases explanation_cases e he with ⟨s', hs', rfl⟩ | ⟨s', hs', t, htrav, rfl⟩
  · obtain rfl := accepted_source_injective (List.mem_filter.mp hs').1 hs hsource
    exact .inl ⟨hs', rfl⟩
  · have hrun := run_cases (traversalContext topo policy ledger fences pins request s')
      (@startTraversal_fresh pq topo policy request
        (progressBefore pq topo policy ledger fences pins request s') s')
    change RunCase _ _ (traversalOf pq topo policy ledger fences pins request s') at hrun
    rw [htrav] at hrun
    have hsource' : t.expl.source = s.source := hsource
    obtain rfl := accepted_source_injective (List.mem_filter.mp hs').1 hs
      ((runCase_source hrun).1.symm.trans hsource')
    exact .inr ⟨hs', t, htrav, rfl⟩

/-- Every contribution is that of a live signal, with an entry that settled the resource. -/
theorem contribution_settled {n : NodeOutcome} {c : Contribution}
    (hn : n ∈ aggregateNodes policy (progress pq topo policy ledger fences pins request).acc)
    (hc : c ∈ n.contributions) :
    ∃ s ∈ liveSignals policy ledger request,
      ∃ e ∈ reach pq topo policy ledger fences pins request s, ∃ r,
        topo.resourceAt e.node = some r ∧ r.id = n.resource ∧
        c = contributionOf (traversalContext topo policy ledger fences pins request s) e := by
  obtain ⟨i, a, hlookup, rfl⟩ := mem_aggregateNodes.mp hn
  obtain ⟨r, hr, hid⟩ := keyed_progress i a hlookup
  have htally := (Accumulators.tally_of_lookup hlookup).symm.trans (tally_progress i)
  have hcontributions := foldl_arrive_contributions
    (arrivalsAt pq topo policy ledger fences pins request i) {} (Nat.zero_le _)
  rw [← htally] at hcontributions
  have hmem : c ∈ (Tally.of a).contributions := hc
  rw [hcontributions] at hmem
  obtain ⟨y, hy, rfl⟩ := List.mem_map.mp (List.mem_of_mem_take hmem)
  obtain ⟨s, hs, e, he, rfl, rfl⟩ := mem_arrivalsAt.mp hy
  exact ⟨s, hs, e, he, r, hr, hid.symm, rfl⟩

/-- A chain of accepted hops takes the seed of the signal to the contribution at the resource. -/
def Justified (s : PressureSignal) (hops : List HopRecord) (resource : ResourceId)
    (c : Contribution) : Prop :=
  ∃ chain last, (∀ h ∈ chain, h ∈ hops ∧ h.accepted = true) ∧ chain.length = c.depth ∧
    Leads chain s.origin (.fromMagnitude s.observation.magnitude) resource last ∧
    last.toMagnitude = c.magnitude

/-- The contributions of a live signal are justified by its traversal. -/
theorem justified_of_traversal (hbuilt : topo.Built) {t : Traversal pq}
    (htrav : traversalOf pq topo policy ledger fences pins request s = (.success, t))
    {e : QueueEntry} (he : e ∈ reach pq topo policy ledger fences pins request s) {r : Resource}
    (hr : topo.resourceAt e.node = some r) :
    Justified s t.expl.hops r.id
      (contributionOf (traversalContext topo policy ledger fences pins request s) e) := by
  rw [← @settlements_startTraversal pq topo policy ledger fences pins request s
    (progressBefore pq topo policy ledger fences pins request s)] at he
  obtain ⟨haccepted, hpath⟩ := path_of_settled startTraversal_fresh
    (Topology.indexed_of_built hbuilt) htrav
  obtain ⟨chain, hchain, hlength, hleads⟩ := (hpath e he r hr).chain
  exact ⟨chain, e.potential, fun h hh => ⟨hchain h hh, haccepted h (hchain h hh)⟩, hlength, hleads,
    rfl⟩

/-- Every contribution is that of an accepted signal which has an explanation, and every explanation
of that signal has a chain of accepted hops for it. -/
theorem contributions_justified (pq : EntryQueue) (topo : Topology) (policy : PropagationPolicy)
    (ledger : PropagationLedger) (fences : Option FenceTable) (liveEpoch : Epoch)
    (request : PropagationRequest) (hbuilt : topo.Built) :
    let outcome := (propagate pq (.of topo policy ledger fences liveEpoch) request).1
    ∀ n ∈ outcome.nodes, ∀ c ∈ n.contributions,
      ∃ s ∈ (admission policy request).accepted, c.source = s.source ∧ c.signal = s.id ∧
        (∃ e ∈ outcome.explanations, e.source = s.source) ∧
        ∀ e ∈ outcome.explanations, e.source = s.source → Justified s e.hops n.resource c := by
  intro outcome n hn c hc
  rcases propagate_report pq topo policy ledger fences liveEpoch request with
    ⟨hsilent, -⟩ | ⟨pins, hrep⟩
  · rw [hsilent.nodes] at hn
    cases hn
  rw [hrep.nodes] at hn
  rw [hrep.explanations]
  obtain ⟨s, hs, entry, hentry, r, hr, hid, rfl⟩ := contribution_settled hn hc
  have haccepted := (List.mem_filter.mp hs).1
  have hsettled : entry ∈ settlements (traversalContext topo policy ledger fences pins request s)
      (startTraversal pq topo policy request
        (progressBefore pq topo policy ledger fences pins request s) s) := by
    rwa [settlements_startTraversal]
  have hok : (traversalOf pq topo policy ledger fences pins request s).1.ok = true := by
    rcases run_settles (traversalContext topo policy ledger fences pins request s)
      (@startTraversal_fresh pq topo policy request
        (progressBefore pq topo policy ledger fences pins request s) s) with
      ⟨-, -, hnone⟩ | ⟨t, hrun⟩
    · rw [hnone] at hsettled
      cases hsettled
    · rw [traversalOf, hrun]
      rfl
  refine ⟨s, haccepted, rfl, rfl, ?_, fun e he hsource => ?_⟩
  · obtain ⟨e, he, hsource, -⟩ := explanation_of_live hs hok
    exact ⟨e, he, hsource⟩
  · rcases explanation_of_source haccepted he hsource with ⟨hreplay, -⟩ | ⟨-, t, htrav, rfl⟩
    · have hknown := (List.mem_filter.mp hreplay).2
      rw [(List.mem_filter.mp hs).2] at hknown
      cases hknown
    · rw [← hid]
      exact justified_of_traversal hbuilt htrav hentry hr

/-- A signal that reaches its neighbour under a record budget of one. -/
theorem contributions_justified_tight :
    let topo := probeTopology [probeResource ⟨7⟩, probeResource ⟨8⟩]
      [{ probeEdge ⟨1⟩ ⟨7⟩ ⟨8⟩ with attenuation := .fromRawSaturating 32768 }]
    let request := { probeRequest probePolicy topo ⟨7⟩ 5 with recordBudgetOverride := 1 }
    let outcome := (propagate .scan (.of topo probePolicy (.make 4 4 4) none probeEpoch) request).1
    (outcome.nodes.map fun n =>
        (n.resource, n.contributions.map fun c => (c.depth, c.magnitude.raw))) =
      [(⟨7⟩, [(0, 65536)]), (⟨8⟩, [(1, 32768)])] ∧
    ∀ n ∈ outcome.nodes, ∀ c ∈ n.contributions,
      ∃ s ∈ (admission probePolicy request).accepted, c.source = s.source ∧ c.signal = s.id ∧
        (∃ e ∈ outcome.explanations, e.source = s.source) ∧
        ∀ e ∈ outcome.explanations, e.source = s.source → Justified s e.hops n.resource c := by
  intro topo request outcome
  have hbuilt : topo.Built := built_probeTopology (by decide +kernel)
  exact ⟨by decide +kernel, contributions_justified .scan topo probePolicy (.make 4 4 4) none
    probeEpoch request hbuilt⟩

end PropagationEngine

end Backpressure
