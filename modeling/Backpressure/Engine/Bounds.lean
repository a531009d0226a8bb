import Backpressure.Engine.Probe
import Backpressure.Engine.Visits
import Backpressure.Model.OutEdges

/-!
# What bounds a traversal

Cycles, self-loops and amplifying edges cannot feed a traversal: a resource is settled once, the
edges out of it are gone through once, and every accepted edge is paid for out of the budgets.
-/

namespace Backpressure

namespace Traversal

variable {pq : EntryQueue} {ctx : TraversalContext} {t t' : Traversal pq} {i : Nat}
  {xs : List Visit} {x : Visit}

/-- The hop reports the edge at the index. -/
structure Reports (topo : Topology) (e : Nat) (hop : HopRecord) : Prop where
  edge : ∃ edge, topo.edgeAt e = some edge ∧ hop.edge = edge.id ∧ hop.src = edge.src ∧
    hop.dst = edge.dst

theorem arrival_depth {entry : QueueEntry} {c : CrossedEdge} {settled : List Nat}
    (h : c.Passed ctx settled entry) :
    (c.arrival entry).depth = entry.depth + 1 ∧ entry.depth + 1 ≤ ctx.authorityHops := by
  obtain ⟨expansions, fanout, hadm⟩ := h.admitted
  obtain ⟨toRes, hadmitted⟩ := of_admits hadm
  refine ⟨rfl, hadmitted.hops.trans ?_⟩
  unfold TraversalContext.hopBound
  exact Nat.min_le_right _ _

/-- Whatever is queued or settled stays within the granted hops. -/
theorem Tour.depth_le (h : Tour ctx i xs t) {e : QueueEntry} (he : Comes ctx i xs e) :
    e.depth ≤ ctx.authorityHops := by
  rcases he with rfl | ⟨x, hx, c, hc, rfl⟩
  · exact Nat.zero_le _
  · obtain ⟨settled, -, hpassed⟩ := (h.lawful x hx).passed c hc
    obtain ⟨hdepth, hle⟩ := arrival_depth hpassed
    rw [hdepth]
    exact hle

/-- The edges crossed in a visit leave its resource. -/
theorem Visit.Lawful.leaves (h : x.Lawful ctx) (hindexed : ctx.topo.Indexed) {c : CrossedEdge}
    (hc : c ∈ x.crossed) : ctx.topo.edgeAt c.edgeIndex = some c.edge ∧
      ctx.topo.indexOf c.edge.src = some x.entry.node ∧ c.edge.src = x.res.id := by
  obtain ⟨settled, -, hpassed⟩ := h.passed c hc
  have hmem : c.edgeIndex ∈ ctx.topo.outEdgeIndicesAt x.entry.node :=
    h.indices.subset (List.mem_map_of_mem hc)
  obtain ⟨edge, hedge, hsrc⟩ := (hindexed.mem_iff _ _).mp hmem
  obtain rfl : edge = c.edge := Option.some.inj (hedge.symm.trans hpassed.edgeAt)
  obtain ⟨r, hr, hid⟩ := Topology.resourceAt_of_indexOf hsrc
  obtain rfl : r = x.res := Option.some.inj (hr.symm.trans h.resourceAt)
  exact ⟨hedge, hsrc, hid.symm⟩

/-- The edges crossed in a tour, visit by visit. -/
def crossings (xs : List Visit) : List Nat := xs.flatMap fun x => x.crossed.map CrossedEdge.edgeIndex

theorem Tour.nodup_crossings (h : Tour ctx i xs t) (hindexed : ctx.topo.Indexed) :
    (crossings xs).Nodup := by
  refine List.nodup_flatMap.mpr ⟨fun x hx => ?_, ?_⟩
  · exact (hindexed.nodup _).sublist (h.lawful x hx).indices
  · have hnodes : xs.Pairwise fun x y => x.entry.node ≠ y.entry.node :=
      List.pairwise_map.mp h.nodup
    refine hnodes.imp_of_mem fun {x y} hx hy hne => ?_
    -- an edge leaves one resource only
    intro e hex hey
    have hxe := (h.lawful x hx).indices.subset hex
    have hye := (h.lawful y hy).indices.subset hey
    obtain ⟨edge, hedge, hsrc⟩ := (hindexed.mem_iff _ _).mp hxe
    obtain ⟨edge', hedge', hsrc'⟩ := (hindexed.mem_iff _ _).mp hye
    obtain rfl : edge = edge' := Option.some.inj (hedge.symm.trans hedge')
    exact hne (Option.some.inj (hsrc.symm.trans hsrc'))

theorem Tour.reports (h : Tour ctx i xs t) (hindexed : ctx.topo.Indexed) :
    List.Forall₂ (Reports ctx.topo) (crossings xs) t.expl.hops := by
  have hvisit : ∀ x ∈ xs, List.Forall₂ (Reports ctx.topo)
      (x.crossed.map CrossedEdge.edgeIndex) x.hops := by
    intro x hx
    unfold Visit.hops
    rw [List.forall₂_map_left_iff, List.forall₂_map_right_iff, List.forall₂_same]
    intro c hc
    obtain ⟨hedge, -, hsrc⟩ := (h.lawful x hx).leaves hindexed hc
    exact ⟨c.edge, hedge, rfl, hsrc.symm, rfl⟩
  rw [h.hops]
  unfold crossings
  clear h
  induction xs with
  | nil => exact .nil
  | cons x rest ih =>
    rw [List.flatMap_cons, List.flatMap_cons]
    exact List.rel_append (hvisit x List.mem_cons_self)
      (ih fun y hy => hvisit y (List.mem_cons_of_mem x hy))

theorem Tour.length_hops (h : Tour ctx i xs t) :
    t.expl.hops.length ≤ ctx.policy.maxExpansions.toNat := by
  have hlength : t.expl.hops.length = t.expansions := by
    rw [h.hops, h.expansions, List.length_flatMap]
    simp only [Visit.hops, List.length_map]
  rw [hlength]
  exact h.budget

/-- The hops out of one resource are those of its visit. -/
theorem fanout_hops (hlawful : ∀ x ∈ xs, x.Lawful ctx)
    (hnodup : (xs.map fun x => x.entry.node).Nodup) (id : ResourceId) :
    ((xs.flatMap Visit.hops).filter fun h => h.src = id).length ≤ ctx.policy.maxFanout.toNat := by
  induction xs with
  | nil => exact Nat.zero_le _
  | cons x rest ih =>
    obtain ⟨hx, hrest⟩ := List.nodup_cons.mp hnodup
    have hlawful' : ∀ y ∈ rest, y.Lawful ctx := fun y hy => hlawful y (List.mem_cons_of_mem x hy)
    have hsrc : ∀ y : Visit, ∀ h ∈ y.hops, h.src = y.res.id := by
      intro y h hh
      obtain ⟨c, -, rfl⟩ := List.mem_map.mp hh
      rfl
    rw [List.flatMap_cons, List.filter_append, List.length_append]
    by_cases hid : x.res.id = id
    · -- the resource is visited once
      have hothers : (rest.flatMap Visit.hops).filter (fun h => h.src = id) = [] := by
        refine List.filter_eq_nil_iff.mpr fun h hh => ?_
        obtain ⟨y, hy, hhy⟩ := List.mem_flatMap.mp hh
        rw [hsrc y h hhy, decide_eq_true_iff]
        intro hyid
        have hsame : y.entry.node = x.entry.node := Topology.index_unique
          (hlawful' y hy).resourceAt (hlawful x List.mem_cons_self).resourceAt (hyid.trans hid.symm)
        exact hx (List.mem_map.mpr ⟨y, hy, hsame⟩)
      have hlength : x.hops.length = x.crossed.length := List.length_map _
      have hfan := (hlawful x List.mem_cons_self).fanout
      have hfilter := List.length_filter_le (fun h : HopRecord => decide (h.src = id)) x.hops
      rw [hothers, List.length_nil]
      omega
    · have hnone : x.hops.filter (fun h => h.src = id) = [] := by
        refine List.filter_eq_nil_iff.mpr fun h hh => ?_
        rw [hsrc x h hh, decide_eq_true_iff]
        exact hid
      have hle := ih hlawful' hrest
      rw [hnone, List.length_nil]
      omega

theorem length_settled (h : Toured ctx i xs t) :
    t.settled.length ≤ min ctx.topo.resources.length ctx.policy.maxVisited.toNat := by
  have hsub : t.settled ⊆ List.range ctx.topo.resources.length :=
    fun n hn => List.mem_range.mpr (h.located n hn)
  have hle := (List.subperm_of_subset h.settled hsub).length_le
  rw [List.length_range] at hle
  exact Nat.le_min.mpr ⟨hle, h.bounded⟩

/-- The loop of every traversal stops by itself. -/
theorem loop_terminates (fresh : t.Fresh) {s : Traversal pq} (h : t.enter ctx = .ok s) :
    Lib.Turns.Stops (turn ctx) s (Lib.Turns.run (turn ctx) (fuel ctx) s) := by
  have hcases := enter_cases ctx fresh
  rw [h] at hcases
  cases hcases with
  | seeded _ _ _ htidy => exact loop_stops (seeded_queue fresh htidy).2

end Traversal

namespace PropagationEngine

open Traversal

/-- The traversal of a signal stops by itself, settles each resource and accepts each edge at most
once, and keeps to the visit, expansion, fan-out and hop budgets. -/
theorem traversal_bounded (pq : EntryQueue) (topo : Topology) (policy : PropagationPolicy)
    (ledger : PropagationLedger) (fences : Option FenceTable) (pins : List (Option Generation))
    (request : PropagationRequest) (p : Progress) (s : PressureSignal) (hbuilt : topo.Built) :
    let ctx := traversalContext topo policy ledger fences pins request s
    let start := startTraversal pq topo policy request p s
    let t := (start.run ctx).2
    (∀ seeded, start.enter ctx = .ok seeded →
      Lib.Turns.Stops (turn ctx) seeded (Lib.Turns.run (turn ctx) (fuel ctx) seeded)) ∧
    t.settled.Nodup ∧ ((settlements ctx start).map QueueEntry.node).Nodup ∧
    (∀ e ∈ settlements ctx start, e.node ∈ t.settled) ∧
    t.settled.length ≤ min topo.resources.length policy.maxVisited.toNat ∧
    (∃ edges : List Nat, edges.Nodup ∧ List.Forall₂ (Reports topo) edges t.expl.hops) ∧
    t.expl.hops.length ≤ policy.maxExpansions.toNat ∧
    (∀ id, (t.expl.hops.filter fun h => h.src = id).length ≤ policy.maxFanout.toNat) ∧
    ∀ e ∈ settlements ctx start, e.depth ≤ policy.maxHops.toNat ∧
      (s.authority.maxHopsGranted ≠ 0 → e.depth ≤ s.authority.maxHopsGranted.toNat) := by
  intro ctx start t
  have fresh : start.Fresh := startTraversal_fresh
  have hindexed : topo.Indexed := Topology.indexed_of_built hbuilt
  refine ⟨fun seeded henter => loop_terminates fresh henter, ?_⟩
  rcases run_settles ctx fresh with ⟨-, hsame, hnone⟩ | ⟨t', hrun⟩
  · -- a refused traversal has done nothing
    rw [hnone]
    change (start.run ctx).2.settled.Nodup ∧ _
    refine ⟨?_, List.nodup_nil, by simp, ?_, ⟨[], List.nodup_nil, ?_⟩, ?_, fun _ => ?_, by simp⟩
    · rw [hsame]
      exact List.nodup_nil
    · change (start.run ctx).2.settled.length ≤ _
      rw [hsame]
      exact Nat.zero_le _
    · change List.Forall₂ _ _ (start.run ctx).2.expl.hops
      rw [hsame]
      exact .nil
    · change (start.run ctx).2.expl.hops.length ≤ _
      rw [hsame]
      exact Nat.zero_le _
    · change ((start.run ctx).2.expl.hops.filter _).length ≤ _
      rw [hsame]
      exact Nat.zero_le _
  · obtain rfl : t = t' := congrArg Prod.snd hrun
    obtain ⟨i, origin, xs, -, hsettlements, htoured⟩ := toured_run fresh hrun
    have htour := htoured.toTour
    rw [hsettlements]
    refine ⟨htoured.settled, ?_, fun e he => ?_, length_settled htoured,
      ⟨crossings xs, htour.nodup_crossings hindexed, htour.reports hindexed⟩, htour.length_hops,
      fun id => ?_, fun e he => ?_⟩
    · rw [List.map_map]
      exact htour.nodup
    · obtain ⟨x, hx, rfl⟩ := List.mem_map.mp he
      exact htoured.mem_settled x hx
    · rw [htour.hops]
      exact fanout_hops htour.lawful htour.nodup id
    · obtain ⟨x, hx, rfl⟩ := List.mem_map.mp he
      have hdepth : x.entry.depth ≤ ctx.authorityHops := htour.depth_le (htour.entries x hx)
      unfold TraversalContext.authorityHops at hdepth
      change _ ≤ if s.authority.maxHopsGranted = 0 then policy.maxHops.toNat
        else min s.authority.maxHopsGranted.toNat policy.maxHops.toNat at hdepth
      split at hdepth
      case isTrue hzero => exact ⟨hdepth, fun hne => absurd hzero hne⟩
      case isFalse => exact ⟨by omega, fun _ => by omega⟩

/-- Two resources that feed each other: both are settled once, and one edge is crossed. -/
theorem traversal_bounded_cycle :
    let topo := probeTopology [probeResource ⟨7⟩, probeResource ⟨8⟩]
      [probeEdge ⟨1⟩ ⟨7⟩ ⟨8⟩, probeEdge ⟨2⟩ ⟨8⟩ ⟨7⟩]
    let request := probeRequest probePolicy topo ⟨7⟩ 5
    let signal := probeSignal probePolicy topo ⟨7⟩ 5
    let ctx := traversalContext topo probePolicy (.make 4 4 4) none [none, none] request signal
    let start := startTraversal .scan topo probePolicy request (unstarted probePolicy (.make 4 4 4)
      topo request) signal
    let t := (start.run ctx).2
    ((settlements ctx start).map (fun e => (e.node, e.depth)) = [(0, 0), (1, 1)] ∧
      t.expl.hops.map (fun h => (h.src, h.dst)) = [(⟨7⟩, ⟨8⟩)]) ∧
    (∀ seeded, start.enter ctx = .ok seeded →
      Lib.Turns.Stops (turn ctx) seeded (Lib.Turns.run (turn ctx) (fuel ctx) seeded)) ∧
    t.settled.Nodup ∧ ((settlements ctx start).map QueueEntry.node).Nodup ∧
    (∀ e ∈ settlements ctx start, e.node ∈ t.settled) ∧
    t.settled.length ≤ min 2 1024 ∧
    (∃ edges : List Nat, edges.Nodup ∧ List.Forall₂ (Reports topo) edges t.expl.hops) ∧
    t.expl.hops.length ≤ 4096 ∧ (∀ id, (t.expl.hops.filter fun h => h.src = id).length ≤ 32) ∧
    ∀ e ∈ settlements ctx start, e.depth ≤ 8 := by
  intro topo request signal ctx start t
  have hbuilt : topo.Built := built_probeTopology (by decide +kernel)
  obtain ⟨hstops, hnodup, hnodes, hsettled, hlength, hreports, hhops, hfanout, hdepth⟩ :=
    traversal_bounded .scan topo probePolicy (.make 4 4 4) none [none, none] request
      (unstarted probePolicy (.make 4 4 4) topo request) signal hbuilt
  exact ⟨by decide +kernel, hstops, hnodup, hnodes, hsettled, hlength, hreports, hhops, hfanout,
    fun e he => (hdepth e he).1⟩

end PropagationEngine

end Backpressure
