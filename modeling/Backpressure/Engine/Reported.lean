import Backpressure.Engine.Allowance

/-!
# Reported hops take place

The budgets of a traversal allow a number of visits and the hops of them. All these hops take place
exactly when they lead to no more resources than there are visits.
-/

namespace Backpressure

namespace Traversal

variable {pq : EntryQueue} {ctx : TraversalContext} {t t' : Traversal pq}

/-- The hops of the visits that the budgets allow. -/
def allowedVisits (ctx : TraversalContext) (t : Traversal pq) : List (List HopRecord) :=
  allowed ctx.policy.maxFanout.toNat ctx.policy.maxVisited.toNat ctx.policy.maxExpansions.toNat
    (freelyAsked ctx t)

/-- The origin and the resources to which the allowed hops lead. -/
def reachedResources (ctx : TraversalContext) (t : Traversal pq) : List ResourceId :=
  (ctx.signal.origin :: (allowedVisits ctx t).flatten.map HopRecord.dst).dedup

/-- As many visits are allowed as the allowed hops reach resources, if any is. -/
def Covers (ctx : TraversalContext) (t : Traversal pq) : Prop :=
  allowedVisits ctx t = [] ∨ (reachedResources ctx t).length ≤ (allowedVisits ctx t).length

instance (ctx : TraversalContext) (t : Traversal pq) : Decidable (Covers ctx t) :=
  inferInstanceAs (Decidable (_ ∨ _))

section Tour

variable {i : Nat} {origin : Resource} {xs : List Visit}

/-- A tour that visits anything visits the origin. -/
theorem Tour.visits_origin (h : Tour ctx i xs t) {x : Visit} (hx : x ∈ xs) :
    ∃ y ∈ xs, y.entry = originEntry ctx i := by
  -- an arrival is one hop deeper than the entry of its visit
  induction hdepth : x.entry.depth generalizing x with
  | zero =>
    rcases h.entries x hx with hentry | ⟨y, hy, c, hc, hentry⟩
    · exact ⟨x, hx, hentry⟩
    · rw [hentry] at hdepth
      cases hdepth
  | succ depth ih =>
    rcases h.entries x hx with hentry | ⟨y, hy, c, hc, hentry⟩
    · exact ⟨x, hx, hentry⟩
    · rw [hentry] at hdepth
      exact ih hy (Nat.succ.inj hdepth)

/-- The visited resources, each once, are among the origin and the targets of the hops. -/
theorem Tour.visited_reached (h : Tour ctx i xs t) (horigin : Origin ctx i origin) {x : Visit}
    (hx : x ∈ xs) : x.res.id ∈ ctx.signal.origin :: (xs.flatMap Visit.hops).map HopRecord.dst := by
  have hres := (h.lawful x hx).resourceAt
  rcases h.entries x hx with hentry | ⟨y, hy, c, hc, hentry⟩
  · rw [hentry] at hres
    obtain rfl := Option.some.inj (hres.symm.trans horigin.resourceAt)
    rw [horigin.id]
    exact List.mem_cons_self
  · obtain ⟨settled, -, hpassed⟩ := (h.lawful y hy).passed c hc
    obtain ⟨expansions, fanout, hadm⟩ := hpassed.admitted
    obtain ⟨toRes, hadmitted⟩ := of_admits hadm
    rw [hentry] at hres
    obtain rfl := Option.some.inj (hres.symm.trans hadmitted.resourceAt)
    rw [hadmitted.target]
    refine List.mem_cons_of_mem _ (List.mem_map.mpr ⟨c.hop y.entry y.res, ?_, rfl⟩)
    exact List.mem_flatMap.mpr ⟨y, hy, List.mem_map_of_mem hc⟩

theorem Tour.nodup_visited (h : Tour ctx i xs t) : (xs.map fun x => x.res.id).Nodup := by
  have hnodes : xs.Pairwise fun x y => x.entry.node ≠ y.entry.node := List.pairwise_map.mp h.nodup
  refine List.pairwise_map.mpr (hnodes.imp_of_mem fun hx hy hne hid => hne ?_)
  exact Topology.index_unique (h.lawful _ hx).resourceAt (h.lawful _ hy).resourceAt hid

end Tour

/-- A list among another without repetitions is all of it exactly when it is as long. -/
theorem subset_iff_length_le {α : Type} {l l' : List α} (hl : l.Nodup) (hl' : l'.Nodup)
    (hsub : l ⊆ l') : l' ⊆ l ↔ l'.length ≤ l.length := by
  constructor
  · exact fun hback => (List.subperm_of_subset hl' hback).length_le
  · intro hlength id hid
    have hperm := (List.subperm_of_subset hl hsub).perm_of_length_le hlength
    exact hperm.mem_iff.mpr hid

/-- The targets of all hops are settled exactly when every resource that they reach is visited. -/
theorem Toured.settled_iff_visited (h : Toured ctx i xs t') {origin : Resource}
    (horigin : Origin ctx i origin) (hsettled : t'.settled = (xs.map fun x => x.entry.node).reverse)
    (hne : xs ≠ []) :
    (∀ hop ∈ t'.expl.hops, ∃ j, Targets ctx.topo hop j ∧ j ∈ t'.settled) ↔
      (ctx.signal.origin :: (xs.flatMap Visit.hops).map HopRecord.dst).dedup ⊆
        xs.map fun x => x.res.id := by
  have hvisited : ∀ x ∈ xs, ctx.topo.resourceAt x.entry.node = some x.res :=
    fun x hx => (h.lawful x hx).resourceAt
  rw [h.hops]
  constructor
  · intro htargets id hid
    rcases List.mem_cons.mp (List.mem_dedup.mp hid) with rfl | hid
    · -- the first visit is that of the origin
      obtain ⟨x, hx⟩ := List.exists_mem_of_ne_nil _ hne
      obtain ⟨y, hy, hentry⟩ := h.toTour.visits_origin hx
      have hres := hvisited y hy
      rw [hentry] at hres
      obtain rfl := Option.some.inj (hres.symm.trans horigin.resourceAt)
      rw [← horigin.id]
      exact List.mem_map_of_mem hy
    · obtain ⟨hop, hhop, rfl⟩ := List.mem_map.mp hid
      obtain ⟨j, ⟨r, hr, hid⟩, hset⟩ := htargets hop hhop
      rw [hsettled, List.mem_reverse] at hset
      obtain ⟨x, hx, rfl⟩ := List.mem_map.mp hset
      obtain rfl := Option.some.inj ((hvisited x hx).symm.trans hr)
      rw [← hid]
      exact List.mem_map_of_mem hx
  · intro hcovers hop hhop
    have hdst : hop.dst ∈ xs.map fun x => x.res.id :=
      hcovers (List.mem_dedup.mpr (List.mem_cons_of_mem _ (List.mem_map_of_mem hhop)))
    obtain ⟨x, hx, hid⟩ := List.mem_map.mp hdst
    exact ⟨x.entry.node, ⟨x.res, hvisited x hx, hid⟩, h.mem_settled x hx⟩

/-- The targets of all hops are settled exactly when the allowed visits cover them. -/
theorem settled_iff_covers (fresh : t.Fresh) (hrecords : t.records = 0)
    (h : t.run ctx = (.success, t')) (hkept : t'.truncated = false) :
    (∀ hop ∈ t'.expl.hops, ∃ i, Targets ctx.topo hop i ∧ i ∈ t'.settled) ↔ Covers ctx t := by
  obtain ⟨i, origin, horigin, htoured⟩ := visits_run fresh h
  have hallowed : (visits ctx t).map Visit.hops = allowedVisits ctx t :=
    visits_allowed fresh hrecords (by rw [h]; exact hkept)
  unfold Covers
  rw [reachedResources, ← hallowed, ← List.flatMap_def, List.length_map, List.map_eq_nil_iff]
  by_cases hnil : visits ctx t = []
  · refine iff_of_true (fun hop hhop => ?_) (.inl hnil)
    rw [htoured.hops, hnil] at hhop
    cases hhop
  · have hsub : (visits ctx t).map (fun x => x.res.id) ⊆
        (ctx.signal.origin :: ((visits ctx t).flatMap Visit.hops).map HopRecord.dst).dedup := by
      intro id hid
      obtain ⟨x, hx, rfl⟩ := List.mem_map.mp hid
      exact List.mem_dedup.mpr (htoured.toTour.visited_reached horigin hx)
    rw [htoured.settled_iff_visited horigin (htoured.visited hkept) hnil,
      subset_iff_length_le htoured.toTour.nodup_visited (List.nodup_dedup _) hsub,
      List.length_map, or_iff_right hnil]

/-- An untruncated traversal runs out exactly when the allowed visits cover its hops. -/
theorem runsOut_iff_covers (fresh : t.Fresh) (hrecords : t.records = 0)
    (hkept : (t.run ctx).2.truncated = false) : RunsOut ctx t ↔ Covers ctx t := by
  rcases run_settles ctx fresh with ⟨hst, -, hnone⟩ | ⟨t', hrun⟩
  · have hvisits : visits ctx t = [] := by
      rw [← entries_visits] at hnone
      exact List.map_eq_nil_iff.mp hnone
    have hallowed := visits_allowed fresh hrecords hkept
    rw [hvisits] at hallowed
    exact iff_of_true (PropagationEngine.runsOut_of_refused rfl hst) (.inl hallowed.symm)
  · rw [hrun] at hkept
    have hcase := run_cases ctx fresh
    rw [hrun] at hcase
    obtain ⟨hlanded, hruns⟩ := landed_iff fresh hcase hkept
    rw [← settled_iff_covers fresh hrecords hrun hkept]
    constructor
    · intro hout hop hhop
      obtain ⟨i, htarget, hland⟩ := hlanded hout hop hhop
      exact ⟨i, htarget, hland.settled⟩
    · exact fun hsettled => hruns fun hop hhop _ => hsettled hop hhop

end Traversal

namespace PropagationEngine

open Traversal

/-- In a complete outcome every reported hop is real exactly when, for each live signal, the visits
that the budgets allow cover the hops that they allow. -/
theorem reported_hops_real_iff (pq : EntryQueue) (topo : Topology) (policy : PropagationPolicy)
    (ledger : PropagationLedger) (fences : Option FenceTable) (liveEpoch : Epoch)
    (request : PropagationRequest) (pins : List (Option Generation))
    (hpins : resolvePins topo request.pins = .ok pins)
    (hok : (propagate pq (.of topo policy ledger fences liveEpoch) request).1.status.ok = true)
    (hcomplete :
      (propagate pq (.of topo policy ledger fences liveEpoch) request).1.complete = true) :
    let outcome := (propagate pq (.of topo policy ledger fences liveEpoch) request).1
    (∀ e ∈ outcome.explanations, ∀ h ∈ e.hops, h.accepted = true →
      ∃ s ∈ liveSignals policy ledger request, e.source = s.source ∧
        Real topo s (traversalOf pq topo policy ledger fences pins request s).2 outcome h) ↔
      ∀ s ∈ liveSignals policy ledger request,
        Covers (traversalContext topo policy ledger fences pins request s)
          (startTraversal pq topo policy request
            (progressBefore pq topo policy ledger fences pins request s) s) := by
  intro outcome
  have hruns := hops_real_iff_runsOut pq topo policy ledger fences liveEpoch request pins hpins hok
    hcomplete
  refine hruns.trans (forall₂_congr fun s hs => ?_)
  have hkept := untruncated_live hpins hok hcomplete s hs
  exact runsOut_iff_covers startTraversal_fresh rfl hkept

/-- Resource 9 is reached over two paths. -/
def forkTopology : Topology :=
  probeTopology [probeResource ⟨7⟩, probeResource ⟨8⟩, probeResource ⟨9⟩]
    [probeEdge ⟨1⟩ ⟨7⟩ ⟨8⟩, probeEdge ⟨2⟩ ⟨7⟩ ⟨9⟩, probeEdge ⟨3⟩ ⟨8⟩ ⟨9⟩]

/-- Budgets that the fork uses up to the last visit and the last expansion. -/
def forkPolicy : PropagationPolicy := { probePolicy with maxVisited := 3, maxExpansions := 3 }

def forkRequest : PropagationRequest := probeRequest forkPolicy forkTopology ⟨7⟩ 5

/-- Three hops over the fork, all of them real. -/
theorem reported_hops_real_iff_fork :
    let outcome := (propagate .scan
      (.of forkTopology forkPolicy (.make 4 4 4) none probeEpoch) forkRequest).1
    (outcome.explanations.map fun e => e.hops.map fun h => (h.src, h.dst)) =
        [[(⟨7⟩, ⟨8⟩), (⟨7⟩, ⟨9⟩), (⟨8⟩, ⟨9⟩)]] ∧
      ∀ e ∈ outcome.explanations, ∀ h ∈ e.hops, h.accepted = true →
        ∃ s ∈ liveSignals forkPolicy (.make 4 4 4) forkRequest, e.source = s.source ∧
          Real forkTopology s (traversalOf .scan forkTopology forkPolicy (.make 4 4 4) none
            [none, none, none] forkRequest s).2 outcome h := by
  intro outcome
  have hpins : resolvePins forkTopology forkRequest.pins = .ok [none, none, none] := by
    decide +kernel
  have hreported : outcome.status.ok = true ∧ outcome.complete = true := by decide +kernel
  have hcovers : ∀ s ∈ liveSignals forkPolicy (.make 4 4 4) forkRequest,
      Covers (traversalContext forkTopology forkPolicy (.make 4 4 4) none [none, none, none]
        forkRequest s)
        (startTraversal .scan forkTopology forkPolicy forkRequest (progressBefore .scan forkTopology
          forkPolicy (.make 4 4 4) none [none, none, none] forkRequest s) s) := by
    decide +kernel
  exact ⟨by decide +kernel, (reported_hops_real_iff .scan forkTopology forkPolicy (.make 4 4 4) none
    probeEpoch forkRequest [none, none, none] hpins hreported.1 hreported.2).mpr hcovers⟩

/-- With room for one visit, the hop to the second resource is reported, and does not happen. -/
theorem reported_hop_not_real :
    let policy := { probePolicy with maxVisited := 1 }
    let topo := probeTopology [probeResource ⟨7⟩, probeResource ⟨8⟩] [probeEdge ⟨1⟩ ⟨7⟩ ⟨8⟩]
    let outcome := (propagate .scan (.of topo policy (.make 4 4 4) none probeEpoch)
      (probeRequest policy topo ⟨7⟩ 5)).1
    outcome.status.ok = true ∧ outcome.complete = true ∧
      ∃ e ∈ outcome.explanations, ∃ h ∈ e.hops, h.accepted = true ∧ h.dst = ⟨8⟩ ∧
        ∀ n ∈ outcome.nodes, n.resource ≠ h.dst := by
  decide +kernel

end PropagationEngine

end Backpressure
