import Backpressure.Engine.Fates
import Mathlib.Algebra.BigOperators.Group.List.Lemmas

/-!
# What an outcome adds up to

The counters of an untruncated explanation against its hops and its suppressed records, and the
signal counters of an outcome against its explanations and rejections.
-/

namespace Backpressure

open Lib.Turns (Turn)

/-- The refusals that the suppressed records report under some reasons. -/
def countUnder (q : SuppressionReason → Bool) (l : List SuppressedEdgeRecord) : Nat :=
  ((l.filter fun r => q r.reason).map SuppressedEdgeRecord.count).sum

namespace Topology

/-- The number of edges that leave the resource at an index. -/
def outDegreeAt (topo : Topology) (index : Nat) : Nat := (topo.outEdgeIndicesAt index).length

/-- An out-degree is a 32-bit word in the source. -/
def DegreesFit (topo : Topology) : Prop := ∀ i, topo.outDegreeAt i < 2 ^ 32

theorem degreesFit_of_few {topo : Topology} (h : topo.outEdgeIndices.length < 2 ^ 32) :
    topo.DegreesFit := by
  intro i
  refine Nat.lt_of_le_of_lt ?_ h
  unfold outDegreeAt outEdgeIndicesAt
  split
  · exact (List.length_take_le' ..).trans ((List.drop_sublist ..).length_le)
  · exact Nat.zero_le _

end Topology

/-- The accepted hop runs over the edge. -/
structure RunsOver (topo : Topology) (edge : DependencyEdge) (h : HopRecord) : Prop where
  mem : edge ∈ topo.edges
  src : h.src = edge.src
  dst : h.dst = edge.dst
  id : h.edge = edge.id
  accepted : h.accepted = true

/-- The resource is known, and its edges were all decided upon. -/
structure Handled.Whole (topo : Topology) (x : Handled) : Prop where
  resourceAt : topo.resourceAt x.node = some x.res
  fates : x.fates.length = topo.outDegreeAt x.node
  crossed : ∀ edge hop, .crossed edge hop ∈ x.fates → RunsOver topo edge hop

namespace Traversal

variable {pq : EntryQueue} {ctx : TraversalContext} {topo : Topology} {t t' base : Traversal pq}

/-! ## Records -/

section Briefs

variable {id : ResourceId} {reasons : List SuppressionReason} {q : SuppressionReason → Bool}

theorem briefs_eq : briefs id reasons =
    (SuppressionReason.slots.filter (· ∈ reasons)).map fun r => (id, r, reasons.count r) := by
  unfold briefs
  induction SuppressionReason.slots with
  | nil => rfl
  | cons r rest ih =>
    by_cases hr : r ∈ reasons
    · have hcount : reasons.count r ≠ 0 := fun hzero => List.count_eq_zero.mp hzero hr
      rw [List.filterMap_cons, if_neg hcount, List.filter_cons_of_pos (by simpa using hr), ih]
      rfl
    · rw [List.filterMap_cons, if_pos (List.count_eq_zero.mpr hr),
        List.filter_cons_of_neg (by simpa using hr), ih]

/-- Every reason that occurs has its slot. -/
theorem slots_perm_dedup :
    (SuppressionReason.slots.filter (· ∈ reasons)).Perm reasons.dedup := by
  refine (List.perm_ext_iff_of_nodup (SuppressionReason.nodup_slots.filter _)
    (List.nodup_dedup reasons)).mpr fun r => ?_
  rw [List.mem_filter, List.mem_dedup]
  simp [SuppressionReason.mem_slots]

/-- The refusals that briefs report under some reasons. -/
def briefCount (q : SuppressionReason → Bool)
    (l : List (ResourceId × SuppressionReason × Nat)) : Nat :=
  ((l.filter fun b => q b.2.1).map fun b => b.2.2).sum

theorem briefCount_append {l l' : List (ResourceId × SuppressionReason × Nat)} :
    briefCount q (l ++ l') = briefCount q l + briefCount q l' := by
  simp [briefCount]

theorem briefCount_map (l : List SuppressedEdgeRecord) :
    briefCount q (l.map brief) = countUnder q l := by
  unfold briefCount countUnder
  rw [List.filter_map, List.map_map]
  rfl

/-- The records of a resource count each of its refusals once. -/
theorem briefCount_briefs : briefCount q (briefs id reasons) = reasons.countP q := by
  have hperm : ((SuppressionReason.slots.filter (· ∈ reasons)).filter q).Perm
      (reasons.dedup.filter q) := slots_perm_dedup.filter q
  have hsum : briefCount q (briefs id reasons) =
      (((SuppressionReason.slots.filter (· ∈ reasons)).filter q).map reasons.count).sum := by
    unfold briefCount
    rw [briefs_eq, List.filter_map, List.map_map]
    rfl
  rw [hsum, (hperm.map _).sum_eq]
  exact List.sum_map_count_dedup_filter_eq_countP q reasons

/-- The records of a resource are told apart by their reasons. -/
theorem keys_briefs : ((briefs id reasons).map fun b => (b.1, b.2.1)).Nodup := by
  have hinj : Function.Injective fun r : SuppressionReason => (id, r) := fun r r' h => by
    simpa using h
  rw [briefs_eq, List.map_map]
  exact (SuppressionReason.nodup_slots.filter _).map hinj

theorem src_briefs {b : ResourceId × SuppressionReason × Nat} (h : b ∈ briefs id reasons) :
    b.1 = id := by
  rw [briefs_eq] at h
  obtain ⟨r, -, rfl⟩ := List.mem_map.mp h
  rfl

end Briefs

/-! ## The resources gone through -/

/-- The resources whose out-edges a traversal goes through: those that it settles, or its origin
when that is blocked. -/
def goneThrough (ctx : TraversalContext) (t : Traversal pq) : List Nat :=
  match t.enter ctx with
  | .error _ => (ctx.topo.indexOf ctx.signal.origin).toList
  | .ok _ => (settlements ctx t).map QueueEntry.node

section Handled

variable {x : Handled} {xs : List Handled} {settled : List Nat} {expansions fanout : Nat}
  {entry : QueueEntry} {res : Resource} {node : Nat} {id : ResourceId} {reason : SuppressionReason}

theorem wired_of_indexed (hindexed : topo.Indexed) (hfit : topo.DegreesFit) : Wired topo := by
  intro node res hres
  refine ⟨fun i hi => ?_, hfit node⟩
  obtain ⟨edge, hedge, hsrc⟩ := (hindexed.mem_iff node i).mp hi
  obtain ⟨r, hr, hid⟩ := Topology.resourceAt_of_indexOf hsrc
  cases hres.symm.trans hr
  exact ⟨edge, hedge, hid.symm⟩

theorem length_decided {l : List Nat}
    (h : ∀ i ∈ l, ∃ edge, ctx.topo.edgeAt i = some edge ∧ edge.src = id) :
    (ctx.fates settled entry res l expansions fanout).length = l.length := by
  induction l generalizing expansions fanout with
  | nil => rfl
  | cons i rest ih =>
    obtain ⟨edge, hedge, -⟩ := h i List.mem_cons_self
    have hrest : ∀ j ∈ rest, ∃ edge, ctx.topo.edgeAt j = some edge ∧ edge.src = id :=
      fun j hj => h j (List.mem_cons_of_mem i hj)
    rw [TraversalContext.fates, hedge]
    dsimp only
    split
    · rw [List.length_cons, List.length_cons, ih hrest]
    · rw [List.length_cons, List.length_cons, ih hrest]

theorem runsOver_acceptedHop {edgeIndex : Nat} {edge : DependencyEdge}
    {carried : TraversalContext.Carried} (hedge : topo.edgeAt edgeIndex = some edge)
    (hsrc : edge.src = res.id) : RunsOver topo edge (acceptedHop entry res edge carried) :=
  ⟨List.mem_of_getElem? hedge, hsrc.symm, rfl, rfl, accepted_acceptedHop⟩

theorem runsOver_decided {l : List Nat}
    (h : ∀ i ∈ l, ∃ edge, ctx.topo.edgeAt i = some edge ∧ edge.src = res.id) :
    ∀ edge hop, .crossed edge hop ∈ ctx.fates settled entry res l expansions fanout →
      RunsOver ctx.topo edge hop := by
  induction l generalizing expansions fanout with
  | nil => exact fun _ _ hmem => by cases hmem
  | cons i rest ih =>
    obtain ⟨edge, hedge, hsrc⟩ := h i List.mem_cons_self
    have hrest : ∀ j ∈ rest, ∃ edge, ctx.topo.edgeAt j = some edge ∧ edge.src = res.id :=
      fun j hj => h j (List.mem_cons_of_mem i hj)
    intro crossed hop hmem
    rw [TraversalContext.fates, hedge] at hmem
    dsimp only at hmem
    split at hmem
    · rcases List.mem_cons.mp hmem with heq | hmem
      · cases heq
      · exact ih hrest crossed hop hmem
    case h_2 hfate =>
      rcases List.mem_cons.mp hmem with heq | hmem
      · cases heq
        -- the only crossing that a decision makes
        unfold TraversalContext.fateOf at hfate
        split at hfate
        · cases hfate
        · split at hfate
          · cases hfate
          · split at hfate
            · cases hfate
            · cases hfate
              exact runsOver_acceptedHop hedge hsrc
      · exact ih hrest crossed hop hmem

theorem runsOver_closedFates : ∀ edge hop, .crossed edge hop ∈ ctx.closedFates node reason →
    RunsOver ctx.topo edge hop := by
  intro edge hop hmem
  obtain ⟨_, -, heq⟩ := List.mem_map.mp hmem
  cases heq

theorem length_closedFates (hsourced : Sourced ctx.topo node id) :
    (ctx.closedFates node reason).length = ctx.topo.outDegreeAt node := by
  unfold TraversalContext.closedFates Topology.outDegreeAt
  rw [List.length_map, List.filterMap_length_eq_length]
  intro i hi
  obtain ⟨edge, hedge, -⟩ := hsourced.edges i hi
  rw [hedge]
  rfl

theorem whole_handledAt (hwired : Wired ctx.topo) (hres : ctx.topo.resourceAt entry.node = some res) :
    (ctx.handledAt settled expansions entry res).Whole ctx.topo := by
  have hsourced := hwired _ _ hres
  unfold TraversalContext.handledAt
  split_ifs
  · exact ⟨hres, length_closedFates hsourced, runsOver_closedFates⟩
  · exact ⟨hres, length_closedFates hsourced, runsOver_closedFates⟩
  · exact ⟨hres, length_closedFates hsourced, runsOver_closedFates⟩
  · exact ⟨hres, length_decided hsourced.edges, runsOver_decided hsourced.edges⟩

theorem blockedOrigin_cases (h : ctx.blockedOrigin = some x) :
    ctx.topo.indexOf ctx.signal.origin = some x.node ∧ ctx.topo.resourceAt x.node = some x.res ∧
      ∃ reason, Early reason .suppressed ∧ x.fates = ctx.closedFates x.node reason := by
  obtain ⟨i, hi, h⟩ := Option.bind_eq_some_iff.mp h
  obtain ⟨origin, horigin, h⟩ := Option.bind_eq_some_iff.mp h
  split at h
  · cases h
    exact ⟨hi, horigin, .fenced, by decide, rfl⟩
  · split at h
    · cases h
      refine ⟨hi, horigin, origin.blockReason, ?_, rfl⟩
      unfold Resource.blockReason
      split <;> decide
    · cases h

theorem handling_cases (h : handling ctx t = some x) : ∃ entry, settling ctx t = some entry ∧
    ∃ res, ctx.topo.resourceAt entry.node = some res ∧
      ∃ settled expansions, x = ctx.handledAt settled expansions entry res := by
  obtain ⟨entry, hsettling, h⟩ := Option.bind_eq_some_iff.mp h
  obtain ⟨res, hres, rfl⟩ := Option.map_eq_some_iff.mp h
  exact ⟨entry, hsettling, res, hres, _, _, rfl⟩

/-- A resource gone through is the blocked origin, or was settled. -/
theorem handled_cases (hx : x ∈ handled ctx t) : ctx.blockedOrigin = some x ∨
    ∃ entry ∈ settlements ctx t, ∃ res, ctx.topo.resourceAt entry.node = some res ∧
      ∃ settled expansions, x = ctx.handledAt settled expansions entry res := by
  unfold handled at hx
  split at hx
  · exact .inl (Option.mem_toList.mp hx)
  case h_2 s henter =>
    rw [(run_of_enter henter).2]
    exact .inr (Lib.Turns.exists_mem_log (fun _ _ => handling_cases) hx)

/-- The edges of every resource gone through were all decided upon. -/
theorem whole_handled (hwired : Wired ctx.topo) : ∀ x ∈ handled ctx t, x.Whole ctx.topo := by
  intro x hx
  rcases handled_cases hx with hblocked | ⟨entry, -, res, hres, settled, expansions, rfl⟩
  · obtain ⟨hi, hres, reason, -, hfates⟩ := blockedOrigin_cases hblocked
    exact ⟨hres, hfates ▸ length_closedFates (hwired _ _ hres), hfates ▸ runsOver_closedFates⟩
  · exact whole_handledAt hwired hres

theorem node_handling : (handling ctx t).map Handled.node = (settling ctx t).map QueueEntry.node := by
  unfold handling
  cases hsettling : settling ctx t with
  | none => rfl
  | some entry =>
    obtain ⟨_, res, -, hres, -⟩ := turn_of_settling hsettling
    rw [Option.bind_some, hres, Option.map_some, Option.map_some, res_handledAt.2]
    rfl

/-- The resources with decided edges are those that the traversal goes through. -/
theorem nodes_handled (fresh : t.Fresh) (hrun : t.run ctx = (.success, t')) :
    (handled ctx t).map Handled.node = goneThrough ctx t := by
  have hcases := enter_cases ctx fresh
  unfold handled goneThrough
  cases henter : t.enter ctx with
  | ok s =>
    dsimp only
    rw [(run_of_enter henter).2, Lib.Turns.map_log, Lib.Turns.map_log]
    refine congrArg (Lib.Turns.log · (turn ctx) (fuel ctx) s) (funext fun v => ?_)
    exact node_handling
  | error done =>
    dsimp only
    rw [henter] at hcases
    cases hcases with
    | @refused st hst =>
      unfold run at hrun
      rw [henter] at hrun
      cases hrun
      cases hst
    | @blocked i origin _ horigin hblocked =>
      rw [horigin.indexOf]
      unfold TraversalContext.blockedOrigin
      rw [horigin.indexOf, Option.bind_some, horigin.resourceAt, Option.bind_some]
      split
      · rfl
      case isFalse hopen =>
        have hrecv : origin.canReceive = false :=
          hblocked.resolve_left fun hfence => hopen (Option.isSome_iff_ne_none.mpr hfence)
        rw [hrecv]
        rfl

theorem nodup_goneThrough (fresh : t.Fresh) (hrun : t.run ctx = (.success, t')) :
    (goneThrough ctx t).Nodup := by
  unfold goneThrough
  split
  · cases ctx.topo.indexOf ctx.signal.origin with
    | none => exact List.nodup_nil
    | some i => exact List.nodup_singleton i
  · obtain ⟨i, origin, xs, -, hsettlements, htoured⟩ := toured_run fresh hrun
    rw [hsettlements, List.map_map]
    exact htoured.nodup

theorem sum_outDegreeAt (hwhole : ∀ x ∈ xs, x.Whole topo) :
    (xs.flatMap Handled.fates).length = ((xs.map Handled.node).map topo.outDegreeAt).sum := by
  rw [List.length_flatMap, List.map_map]
  refine congrArg List.sum (List.map_congr_left fun x hx => ?_)
  exact (hwhole x hx).fates

/-- The suppressed records count each refusal once. -/
theorem Accounts.countUnder (h : Accounts xs base t) (q : SuppressionReason → Bool) :
    countUnder q t.expl.suppressed = (refusals (xs.flatMap Handled.fates)).countP q := by
  rw [← briefCount_map, h.suppressed]
  clear h
  induction xs with
  | nil => rfl
  | cons x rest ih =>
    rw [List.flatMap_cons, briefCount_append, briefCount_briefs, ih, List.flatMap_cons,
      refusals_append, List.countP_append]

/-- The suppressed records are told apart by their resource and reason. -/
theorem Accounts.keys (h : Accounts xs base t) (hwhole : ∀ x ∈ xs, x.Whole topo)
    (hnodup : (xs.map Handled.node).Nodup) :
    (t.expl.suppressed.map fun r => (r.src, r.reason)).Nodup := by
  have hkeys : (t.expl.suppressed.map fun r => (r.src, r.reason)) =
      (t.expl.suppressed.map brief).map fun b => (b.1, b.2.1) := by
    rw [List.map_map]
    rfl
  rw [hkeys, h.suppressed, List.map_flatMap, List.nodup_flatMap]
  refine ⟨fun x _ => keys_briefs, ?_⟩
  have hpairwise : xs.Pairwise fun x y => x.node ≠ y.node := List.pairwise_map.mp hnodup
  refine hpairwise.imp_of_mem fun {x y} hx hy hne => ?_
  -- two resources of one identity would be one
  change List.Disjoint _ _
  rw [List.disjoint_left]
  intro k hk hk'
  obtain ⟨b, hb, rfl⟩ := List.mem_map.mp hk
  obtain ⟨b', hb', hsame⟩ := List.mem_map.mp hk'
  have hid : y.res.id = x.res.id := by
    rw [← src_briefs hb, ← src_briefs hb']
    exact (Prod.mk.inj hsame).1
  exact hne (Topology.index_unique (hwhole x hx).resourceAt (hwhole y hy).resourceAt hid.symm)

/-- The edges of the accepted hops. -/
def crossedEdges (xs : List Handled) : List DependencyEdge :=
  (xs.flatMap Handled.fates).filterMap Fate.crossing

theorem runsOver_crossedEdges (hwhole : ∀ x ∈ xs, x.Whole topo) :
    List.Forall₂ (RunsOver topo) (crossedEdges xs) (acceptedHops (xs.flatMap Handled.fates)) := by
  have hall : ∀ edge hop, .crossed edge hop ∈ xs.flatMap Handled.fates → RunsOver topo edge hop := by
    intro edge hop hmem
    obtain ⟨x, hx, hfate⟩ := List.mem_flatMap.mp hmem
    exact (hwhole x hx).crossed edge hop hfate
  unfold crossedEdges
  revert hall
  generalize xs.flatMap Handled.fates = fates
  intro hall
  induction fates with
  | nil => exact .nil
  | cons fate rest ih =>
    have hrest := ih fun edge hop hmem => hall edge hop (List.mem_cons_of_mem fate hmem)
    cases fate with
    | refused => exact hrest
    | crossed edge hop => exact .cons (hall edge hop List.mem_cons_self) hrest

/-- An amplification is counted for every amplifying edge that is crossed, and for some that are
not. -/
theorem countP_counted {fates : List Fate} :
    fates.countP Fate.counted = (fates.filterMap Fate.crossing).countP DependencyEdge.isAmplifying +
      fates.countP Fate.overcounted := by
  induction fates with
  | nil => rfl
  | cons fate rest ih =>
    cases fate with
    | refused edge reason counted =>
      have hcrossing : (Fate.refused edge reason counted :: rest).filterMap Fate.crossing =
          rest.filterMap Fate.crossing := rfl
      rw [List.countP_cons, List.countP_cons, ih, hcrossing, Nat.add_assoc]
      rfl
    | crossed edge hop =>
      have hcrossing : (Fate.crossed edge hop :: rest).filterMap Fate.crossing =
          edge :: rest.filterMap Fate.crossing := rfl
      rw [List.countP_cons, hcrossing, List.countP_cons,
        List.countP_cons_of_neg (by exact Bool.false_ne_true), ih, Nat.add_right_comm]
      rfl

end Handled

end Traversal

/-! ## The edges of an explanation -/

/-- Every edge that leaves the given resources is counted once: as a hop, or under the reason for
which it was refused. -/
structure EdgesCounted (topo : Topology) (nodes : List Nat) (e : PropagationExplanation) : Prop where
  considered : e.counters.hopsConsidered = (nodes.map topo.outDegreeAt).sum
  parted : e.counters.hopsConsidered =
    e.hops.length + (e.suppressed.map SuppressedEdgeRecord.count).sum
  propagated : e.hops.length = e.counters.hopsPropagated
  once : (e.suppressed.map fun r => (r.src, r.reason)).Nodup

/-- Every category of refusals is counted by its records, and the amplifications by the hops that
crossed an amplifying edge. -/
structure CategoriesCounted (crossed : List DependencyEdge) (e : PropagationExplanation) :
    Prop where
  loops : e.counters.loopPreventions = countUnder (· == .nodeAlreadySettled) e.suppressed
  stale : e.counters.staleRejections = countUnder (· == .staleDependencyGeneration) e.suppressed
  fenced : e.counters.fenceRejections = countUnder (· == .fenced) e.suppressed
  unauthorized : e.counters.unauthorizedRejections =
    countUnder SuppressionReason.ofAuthority e.suppressed
  amplifications : e.counters.amplifications = crossed.countP DependencyEdge.isAmplifying
  used : e.amplificationUsed = true ↔ 0 < crossed.countP DependencyEdge.isAmplifying

/-- No fence has closed a resource that was gone through, and no edge was damped after its
amplification had been counted. -/
structure Uneventful (xs : List Handled) : Prop where
  fences : ∀ x ∈ xs, x.fenced = false
  damped : ∀ x ∈ xs, ∀ fate ∈ x.fates, fate.overcounted = false

namespace PropagationEngine

open Traversal

variable {pq : EntryQueue} {topo : Topology} {policy : PropagationPolicy}
  {ledger : PropagationLedger} {fences : Option FenceTable} {liveEpoch : Epoch}
  {pins : List (Option Generation)} {request : PropagationRequest} {s : PressureSignal}
  {u : Traversal pq} {e : PropagationExplanation}

/-- The resources whose out-edges the traversal of a signal goes through; a replay has none. -/
def nodesOf (pq : EntryQueue) (topo : Topology) (policy : PropagationPolicy)
    (ledger : PropagationLedger) (fences : Option FenceTable) (pins : List (Option Generation))
    (request : PropagationRequest) (s : PressureSignal) : List Nat :=
  if isLive ledger s then
    goneThrough (traversalContext topo policy ledger fences pins request s)
      (startTraversal pq topo policy request (unstarted policy ledger topo request) s)
  else []

/-- A budget stopped the traversal of the signal. -/
def CutShort (pq : EntryQueue) (topo : Topology) (policy : PropagationPolicy)
    (ledger : PropagationLedger) (fences : Option FenceTable) (pins : List (Option Generation))
    (request : PropagationRequest) (s : PressureSignal) : Prop :=
  isLive ledger s = true ∧
    (aloneTraversal pq topo policy ledger fences pins request s).2.truncated = true

/-- The resources that the traversal of a signal goes through, with the decisions over their
edges. -/
def decisionsOf (pq : EntryQueue) (topo : Topology) (policy : PropagationPolicy)
    (ledger : PropagationLedger) (fences : Option FenceTable) (pins : List (Option Generation))
    (request : PropagationRequest) (s : PressureSignal) : List Handled :=
  if isLive ledger s then
    handled (traversalContext topo policy ledger fences pins request s)
      (startTraversal pq topo policy request (unstarted policy ledger topo request) s)
  else []

theorem blank_startTraversal {p : Progress} : (startTraversal pq topo policy request p s).Blank :=
  ⟨startTraversal_fresh, rfl, rfl⟩

/-- An untruncated explanation accounts for the edges that its traversal goes through. -/
structure Accounted (topo : Topology) (xs : List Handled) (e : PropagationExplanation) : Prop where
  hops : e.hops = acceptedHops (xs.flatMap Handled.fates)
  considered : e.counters.hopsConsidered = (xs.flatMap Handled.fates).length
  propagated : e.counters.hopsPropagated = e.hops.length
  records : e.suppressed.map brief = xs.flatMap fun x => briefs x.res.id (refusals x.fates)
  refused : ∀ q, countUnder q e.suppressed = (refusals (xs.flatMap Handled.fates)).countP q
  keys : (e.suppressed.map fun r => (r.src, r.reason)).Nodup
  loops : e.counters.loopPreventions =
    (refusals (xs.flatMap Handled.fates)).count .nodeAlreadySettled
  stale : e.counters.staleRejections =
    (refusals (xs.flatMap Handled.fates)).count .staleDependencyGeneration
  fenced : e.counters.fenceRejections =
    (refusals (xs.flatMap Handled.fates)).count .fenced + xs.countP Handled.fenced
  unauthorized : e.counters.unauthorizedRejections =
    (refusals (xs.flatMap Handled.fates)).countP SuppressionReason.ofAuthority
  amplifications : e.counters.amplifications = (xs.flatMap Handled.fates).countP Fate.counted
  used : e.amplificationUsed = (xs.flatMap Handled.fates).any Fate.counted

/-- Every record is that of a resource and of a reason for which some of its edges are refused. -/
theorem Accounted.record {xs : List Handled} {r : SuppressedEdgeRecord} (h : Accounted topo xs e)
    (hr : r ∈ e.suppressed) : ∃ x ∈ xs, x.res.id = r.src ∧ r.reason ∈ refusals x.fates ∧
      (refusals x.fates).count r.reason = r.count := by
  have hbrief : brief r ∈ e.suppressed.map brief := List.mem_map_of_mem hr
  rw [h.records] at hbrief
  obtain ⟨x, hx, hbrief⟩ := List.mem_flatMap.mp hbrief
  rw [briefs_eq] at hbrief
  obtain ⟨reason, hslot, hsame⟩ := List.mem_map.mp hbrief
  obtain ⟨hid, rfl, hcount⟩ : x.res.id = r.src ∧ reason = r.reason ∧
      (refusals x.fates).count reason = r.count := by simpa [brief] using hsame
  exact ⟨x, hx, hid, by simpa using (List.mem_filter.mp hslot).2, hcount⟩

theorem accounted_of_run (hwired : Wired topo)
    (hrun : aloneTraversal pq topo policy ledger fences pins request s = (.success, u))
    (hkept : u.truncated = false)
    (h : Explains e (unstarted policy ledger topo request).counters u) :
    Accounted topo (handled (traversalContext topo policy ledger fences pins request s)
      (startTraversal pq topo policy request (unstarted policy ledger topo request) s)) e := by
  have haccounts := accounts_run hwired blank_startTraversal hrun hkept
  have hwhole := @whole_handled pq (traversalContext topo policy ledger fences pins request s)
    (startTraversal pq topo policy request (unstarted policy ledger topo request) s) hwired
  have hnodup := nodup_goneThrough startTraversal_fresh hrun
  rw [← nodes_handled startTraversal_fresh hrun] at hnodup
  -- a counter of the explanation is what its traversal has added
  have hcounter : ∀ f : EngineCounters → Nat,
      f { e.counters with signalsReceived := 0 } = f { explanationCounters
        (unstarted policy ledger topo request).counters u.counters with signalsReceived := 0 } :=
    fun f => congrArg f h.counters
  revert haccounts hwhole hnodup
  generalize handled (traversalContext topo policy ledger fences pins request s)
    (startTraversal pq topo policy request (unstarted policy ledger topo request) s) = xs
  intro haccounts hwhole hnodup
  have hhops : e.hops = acceptedHops (xs.flatMap Handled.fates) := h.hops.trans haccounts.hops
  constructor
  · exact hhops
  · refine (hcounter EngineCounters.hopsConsidered).trans ?_
    exact Nat.sub_eq_of_eq_add' haccounts.considered
  · refine (hcounter EngineCounters.hopsPropagated).trans ?_
    rw [hhops]
    exact Nat.sub_eq_of_eq_add' haccounts.propagated
  · exact h.suppressed ▸ haccounts.suppressed
  · exact fun q => h.suppressed ▸ haccounts.countUnder q
  · exact h.suppressed ▸ haccounts.keys hwhole hnodup
  · refine (hcounter EngineCounters.loopPreventions).trans ?_
    exact Nat.sub_eq_of_eq_add' haccounts.loops
  · refine (hcounter EngineCounters.staleRejections).trans ?_
    exact Nat.sub_eq_of_eq_add' haccounts.stale
  · refine (hcounter EngineCounters.fenceRejections).trans ?_
    exact Nat.sub_eq_of_eq_add' (haccounts.fenced.trans (Nat.add_assoc _ _ _))
  · refine (hcounter EngineCounters.unauthorizedRejections).trans ?_
    exact Nat.sub_eq_of_eq_add' haccounts.unauthorized
  · refine (hcounter EngineCounters.amplifications).trans ?_
    exact Nat.sub_eq_of_eq_add' haccounts.amplifications
  · exact h.used.trans haccounts.used

theorem accounted_replay (topo : Topology) :
    Accounted topo [] (baseExplanation topo policy request s).finalize := by
  constructor
  · rfl
  · rfl
  · rfl
  · rfl
  · exact fun _ => rfl
  · exact List.nodup_nil
  all_goals rfl

theorem accounted_explanation (hwired : Wired topo) (hs : s ∈ (admission policy request).accepted)
    (he : e ∈ (progress pq topo policy ledger fences pins request).explanations)
    (hsource : e.source = s.source)
    (hfull : ¬CutShort pq topo policy ledger fences pins request s) :
    Accounted topo (decisionsOf pq topo policy ledger fences pins request s) e ∧
      (decisionsOf pq topo policy ledger fences pins request s).map Handled.node =
        nodesOf pq topo policy ledger fences pins request s := by
  unfold decisionsOf nodesOf
  rcases explanation_alone hs he hsource with ⟨hreplay, rfl⟩ | ⟨hlive, u, hrun, hexplains⟩
  · have hknown : isLive ledger s = false := by simpa using (List.mem_filter.mp hreplay).2
    rw [if_neg (by simp [hknown]), if_neg (by simp [hknown])]
    exact ⟨accounted_replay topo, rfl⟩
  · have hnew : isLive ledger s = true := (List.mem_filter.mp hlive).2
    have hkept : u.truncated = false := by
      rw [← Bool.not_eq_true]
      intro htrunc
      refine hfull ⟨hnew, ?_⟩
      rw [hrun]
      exact htrunc
    rw [if_pos hnew, if_pos hnew]
    exact ⟨accounted_of_run hwired hrun hkept hexplains, nodes_handled startTraversal_fresh hrun⟩

theorem whole_decisionsOf (hwired : Wired topo) :
    ∀ x ∈ decisionsOf pq topo policy ledger fences pins request s, x.Whole topo := by
  unfold decisionsOf
  split
  · exact whole_handled hwired
  · exact fun x hx => by cases hx

theorem edges_counted {xs : List Handled} (h : Accounted topo xs e)
    (hwhole : ∀ x ∈ xs, x.Whole topo) : EdgesCounted topo (xs.map Handled.node) e where
  considered := h.considered.trans (sum_outDegreeAt hwhole)
  parted := by
    have hall : (e.suppressed.map SuppressedEdgeRecord.count).sum =
        (refusals (xs.flatMap Handled.fates)).length := by
      have hcount := h.refused fun _ => true
      rw [countUnder, List.filter_true, List.countP_true] at hcount
      exact hcount
    rw [h.considered, length_fates, hall, h.hops]
  propagated := h.propagated.symm
  once := h.keys

/-- The categories are counted exactly when nothing was counted beside them. -/
theorem categories_counted_iff {xs : List Handled} (h : Accounted topo xs e) :
    CategoriesCounted (crossedEdges xs) e ↔ Uneventful xs := by
  have hcounted := @countP_counted (xs.flatMap Handled.fates)
  have hfenced : xs.countP Handled.fenced = 0 ↔ ∀ x ∈ xs, x.fenced = false := by
    rw [List.countP_eq_zero]
    simp
  have hdamped : (xs.flatMap Handled.fates).countP Fate.overcounted = 0 ↔
      ∀ x ∈ xs, ∀ fate ∈ x.fates, fate.overcounted = false := by
    rw [List.countP_eq_zero]
    simp only [List.mem_flatMap, Bool.not_eq_true]
    exact ⟨fun hall x hx fate hfate => hall fate ⟨x, hx, hfate⟩,
      fun hall fate ⟨x, hx, hfate⟩ => hall x hx fate hfate⟩
  constructor
  · intro hexact
    refine ⟨hfenced.mp ?_, hdamped.mp ?_⟩
    · have hrecords := hexact.fenced.trans (h.refused _)
      rw [h.fenced, List.count_eq_countP] at hrecords
      omega
    · have hamplified := hexact.amplifications
      rw [h.amplifications, hcounted] at hamplified
      unfold crossedEdges at hamplified
      omega
  · intro hplain
    have hfences := hfenced.mpr hplain.fences
    have hover := hdamped.mpr hplain.damped
    have hamplified : (xs.flatMap Handled.fates).countP Fate.counted =
        (crossedEdges xs).countP DependencyEdge.isAmplifying := by
      rw [hcounted, hover]
      rfl
    refine ⟨?_, ?_, ?_, ?_, h.amplifications.trans hamplified, ?_⟩
    · rw [h.loops, h.refused, List.count_eq_countP]
    · rw [h.stale, h.refused, List.count_eq_countP]
    · rw [h.fenced, h.refused, hfences, List.count_eq_countP, Nat.add_zero]
    · rw [h.unauthorized, h.refused]
    · rw [h.used, ← hamplified, List.countP_pos_iff, List.any_eq_true]

/-- An explanation that is not truncated is that of a traversal that no budget stopped. -/
theorem not_cutShort (hs : s ∈ (admission policy request).accepted)
    (he : e ∈ (progress pq topo policy ledger fences pins request).explanations)
    (hsource : e.source = s.source) (hkept : e.truncated = false) :
    ¬CutShort pq topo policy ledger fences pins request s := by
  rintro ⟨hnew, htrunc⟩
  rcases explanation_alone hs he hsource with ⟨hreplay, -⟩ | ⟨-, u, hrun, hexplains⟩
  · have hknown : isLive ledger s = false := by simpa using (List.mem_filter.mp hreplay).2
    rw [hknown] at hnew
    cases hnew
  · rw [hrun] at htrunc
    exact absurd (htrunc.symm.trans (hexplains.truncated hkept)) (by decide)

/-! ## The signals of an outcome -/

/-- A request past its own checks, so that its signals are looked at. -/
structure PastChecks (topo : Topology) (policy : PropagationPolicy) (liveEpoch : Epoch)
    (request : PropagationRequest) : Prop where
  checked : (checkRequest topo policy liveEpoch request).ok = true
  sources : request.signals.length ≤ policy.maxSources.toNat
  pinCount : request.pins.length ≤ kMaxDependencyPins
  pins : ∃ pins, resolvePins topo request.pins = .ok pins

/-- Every signal received is accepted, rejected or known, and reported as such. -/
structure SignalsCounted (o : PropagationOutcome) : Prop where
  received : o.counters.signalsReceived =
    o.counters.signalsAccepted + o.counters.signalsRejected + o.counters.signalsIdempotent
  explanations : o.explanations.length = o.counters.signalsAccepted + o.counters.signalsIdempotent
  rejections : o.rejections.length = o.counters.signalsRejected

/-- The counts while `left` signals are still to be decided upon. -/
structure Counting (left : Nat) (c : EngineCounters) (explanations rejections : Nat) : Prop where
  received : c.signalsReceived =
    c.signalsAccepted + c.signalsRejected + c.signalsIdempotent + left
  explanations : explanations = c.signalsAccepted + c.signalsIdempotent
  rejections : rejections = c.signalsRejected

theorem counting_admission : Counting (admission policy request).accepted.length
    (admission policy request).counters 0 (admission policy request).rejections.length := by
  have hcounted : ∀ (l : List PressureSignal) (a : Admission),
      Counting (a.accepted.length + l.length) a.counters 0 a.rejections.length →
      Counting (l.foldl (admitNext policy request) a).accepted.length
        (l.foldl (admitNext policy request) a).counters 0
        (l.foldl (admitNext policy request) a).rejections.length := by
    intro l
    induction l with
    | nil => exact fun a h => h
    | cons s rest ih =>
      intro a h
      rw [List.foldl_cons]
      refine ih _ ?_
      rw [List.length_cons] at h
      unfold admitNext
      dsimp only
      split
      · refine ⟨h.received.trans ?_, h.explanations, h.rejections⟩
        dsimp only
        rw [List.length_append, List.length_singleton]
        omega
      · have hreceived := h.received
        have hrejections := h.rejections
        refine ⟨?_, h.explanations, ?_⟩
        · dsimp only [rejectSignal]
          omega
        · dsimp only [rejectSignal]
          rw [List.length_append, List.length_singleton, hrejections]
  exact hcounted request.signals _ ⟨by simp, rfl, rfl⟩

/-- A traversal decides about no signal. -/
theorem counters_run (ctx : TraversalContext) (t : Traversal pq) :
    ∃ work, (t.run ctx).2.counters = t.counters.add work := by
  obtain ⟨ws, st, v, hrun⟩ := run_withOutputs ctx t
  have ht : t.run ctx = (st, v.withOutputs (t.outputs.write ws)) := hrun t.outputs
  rw [ht]
  exact ⟨_, Outputs.counters_write t.outputs ws⟩

/-- The signals that are not live any more when the traversals begin. -/
theorem counting_unstarted : Counting (liveSignals policy ledger request).length
    (unstarted policy ledger topo request).counters
    (unstarted policy ledger topo request).explanations.length
    (unstarted policy ledger topo request).rejections.length := by
  have hadmission := @counting_admission policy request
  have hparts := List.length_eq_length_filter_add (l := (admission policy request).accepted)
    (isLive ledger)
  have hreceived := hadmission.received
  have hnone := hadmission.explanations
  refine ⟨?_, ?_, hadmission.rejections⟩
  · unfold unstarted liveSignals
    dsimp only
    omega
  · unfold unstarted
    dsimp only
    rw [List.length_map]
    omega

theorem counting_traverse {left : Nat} {p : Progress}
    (h : Counting (left + 1) p.counters p.explanations.length p.rejections.length) :
    Counting left (traverse pq topo policy ledger fences pins request p s).counters
      (traverse pq topo policy ledger fences pins request p s).explanations.length
      (traverse pq topo policy ledger fences pins request p s).rejections.length := by
  obtain ⟨work, hwork⟩ := counters_run
    (traversalContext topo policy ledger fences pins request s)
    (startTraversal pq topo policy request p s)
  have hreceived := h.received
  have hexplanations := h.explanations
  have hrejections := h.rejections
  unfold traverse
  dsimp only
  rw [hwork]
  split
  · refine ⟨?_, ?_, ?_⟩
    · dsimp only [EngineCounters.add, startTraversal]
      omega
    · exact hexplanations
    · dsimp only [EngineCounters.add, startTraversal]
      rw [List.length_append, List.length_singleton, hrejections]
  · refine ⟨?_, ?_, ?_⟩
    · dsimp only [EngineCounters.add, startTraversal]
      omega
    · dsimp only [EngineCounters.add, startTraversal]
      rw [List.length_append, List.length_singleton]
      omega
    · exact hrejections

theorem counting_progress : Counting 0 (progress pq topo policy ledger fences pins request).counters
    (progress pq topo policy ledger fences pins request).explanations.length
    (progress pq topo policy ledger fences pins request).rejections.length := by
  have hall : ∀ (l : List PressureSignal) (p : Progress),
      Counting l.length p.counters p.explanations.length p.rejections.length →
      Counting 0 (l.foldl (traverse pq topo policy ledger fences pins request) p).counters
        (l.foldl (traverse pq topo policy ledger fences pins request) p).explanations.length
        (l.foldl (traverse pq topo policy ledger fences pins request) p).rejections.length := by
    intro l
    induction l with
    | nil => exact fun p h => h
    | cons s rest ih => exact fun p h => ih _ (counting_traverse h)
  rw [progress_eq]
  exact hall _ _ counting_unstarted

theorem signalsCounted_of_counting {o : PropagationOutcome} {c : EngineCounters}
    (h : Counting 0 c o.explanations.length o.rejections.length)
    (hreceived : o.counters.signalsReceived = c.signalsReceived)
    (haccepted : o.counters.signalsAccepted = c.signalsAccepted)
    (hrejected : o.counters.signalsRejected = c.signalsRejected)
    (hidempotent : o.counters.signalsIdempotent = c.signalsIdempotent) : SignalsCounted o := by
  refine ⟨?_, ?_, ?_⟩
  · rw [hreceived, haccepted, hrejected, hidempotent]
    exact h.received
  · rw [haccepted, hidempotent]
    exact h.explanations
  · rw [hrejected]
    exact h.rejections

theorem signals_counted (h : PastChecks topo policy liveEpoch request) :
    SignalsCounted (propagate pq (.of topo policy ledger fences liveEpoch) request).1 := by
  obtain ⟨pins, hpins⟩ := h.pins
  have hplan : plan pq topo policy ledger fences liveEpoch request =
      planSignals pq topo policy ledger fences pins request := by
    unfold plan
    dsimp only
    rw [if_neg (by simp [h.checked]), if_neg (Nat.not_lt.mpr h.sources),
      if_neg (Nat.not_lt.mpr h.pinCount), hpins]
  have hprogress := @counting_progress pq topo policy ledger fences pins request
  unfold propagate EngineContext.of
  dsimp only
  rw [hplan]
  by_cases hnone : (admission policy request).accepted = []
  · have hadmission := @counting_admission policy request
    rw [hnone] at hadmission
    unfold planSignals
    dsimp only
    rw [if_pos hnone]
    refine signalsCounted_of_counting (c := (admission policy request).counters) ?_ ?_ ?_ ?_ ?_
    · rw [finalize_explanations, finalize_rejections]
      exact hadmission
    all_goals rw [finalize_counters]
  · have hready : Ready topo policy liveEpoch pins request :=
      ⟨h.checked, h.sources, h.pinCount, hpins, hnone⟩
    have hcase : PlanCase pq topo policy ledger fences liveEpoch request
        (planSignals pq topo policy ledger fences pins request) := hplan ▸ plan_cases
    revert hcase
    generalize planSignals pq topo policy ledger fences pins request = r
    intro hcase
    cases hcase with
    | refused hnot => exact absurd hready (hnot pins)
    | allRefused hready' =>
      cases hready'.pins.symm.trans hpins
      refine signalsCounted_of_counting (c := (progress pq topo policy ledger fences pins
        request).counters) ?_ ?_ ?_ ?_ ?_
      · rw [finalize_explanations, finalize_rejections]
        exact hprogress
      all_goals
        rw [finalize_counters]
        rfl
    | planned hready' =>
      cases hready'.pins.symm.trans hpins
      dsimp only
      refine signalsCounted_of_counting (c := (progress pq topo policy ledger fences pins
        request).counters) ?_ ?_ ?_ ?_ ?_
      · rw [finalize_explanations, finalize_rejections]
        split
        · unfold commit
          dsimp only
          split <;> exact hprogress
        · exact hprogress
      all_goals
        rw [finalize_counters]
        dsimp only
        split
        · unfold commit
          dsimp only
          split <;> rfl
        · rfl

/-! ## Results -/

theorem explanation_accepted
    (he : e ∈ (progress pq topo policy ledger fences pins request).explanations) :
    ∃ s ∈ (admission policy request).accepted, e.source = s.source := by
  obtain ⟨s, hs, hsource, -⟩ := explained_progress e he
  exact ⟨s, hs, hsource⟩

/-- Untruncated explanations count every edge once, and past the request checks every signal is
counted once. -/
theorem accounting_exact (pq : EntryQueue) (topo : Topology) (policy : PropagationPolicy)
    (ledger : PropagationLedger) (fences : Option FenceTable) (liveEpoch : Epoch)
    (pins : List (Option Generation)) (request : PropagationRequest) (hbuilt : topo.Built)
    (hfit : topo.DegreesFit) (hpins : resolvePins topo request.pins = .ok pins) :
    let outcome := (propagate pq (.of topo policy ledger fences liveEpoch) request).1
    (∀ e ∈ outcome.explanations, ∃ s ∈ (admission policy request).accepted, e.source = s.source ∧
      (e.truncated = false → ¬CutShort pq topo policy ledger fences pins request s) ∧
      (¬CutShort pq topo policy ledger fences pins request s →
        EdgesCounted topo (nodesOf pq topo policy ledger fences pins request s) e)) ∧
    (PastChecks topo policy liveEpoch request → SignalsCounted outcome) := by
  intro outcome
  refine ⟨fun e he => ?_, signals_counted⟩
  have hwired : Wired topo := wired_of_indexed (Topology.indexed_of_built hbuilt) hfit
  rcases propagate_report pq topo policy ledger fences liveEpoch request with
    ⟨hsilent, -⟩ | ⟨pins', hrep⟩
  · rw [hsilent.explanations] at he
    cases he
  · cases hrep.ready.pins.symm.trans hpins
    rw [hrep.explanations] at he
    obtain ⟨s, hs, hsource⟩ := explanation_accepted he
    refine ⟨s, hs, hsource, not_cutShort hs he hsource, fun hfull => ?_⟩
    obtain ⟨haccounted, hnodes⟩ := accounted_explanation hwired hs he hsource hfull
    rw [← hnodes]
    exact edges_counted haccounted (whole_decisionsOf hwired)

/-- A signal that settles its neighbour, whose way back is refused: two edges are considered, one is
crossed and one is recorded as refused. -/
theorem accounting_exact_cycle :
    let topo := probeTopology [probeResource ⟨7⟩, probeResource ⟨8⟩]
      [probeEdge ⟨1⟩ ⟨7⟩ ⟨8⟩, probeEdge ⟨2⟩ ⟨8⟩ ⟨7⟩]
    let request := probeRequest probePolicy topo ⟨7⟩ 5
    let outcome := (propagate .scan (.of topo probePolicy (.make 4 4 4) none probeEpoch) request).1
    (outcome.explanations.map fun e => (e.counters.hopsConsidered, e.hops.length,
        e.suppressed.map fun r => (r.src, r.count))) = [(2, 1, [(⟨8⟩, 1)])] ∧
      (∀ e ∈ outcome.explanations, ∃ s ∈ (admission probePolicy request).accepted,
        e.source = s.source ∧ EdgesCounted topo
          (nodesOf .scan topo probePolicy (.make 4 4 4) none [none, none] request s) e) ∧
      SignalsCounted outcome := by
  intro topo request outcome
  have hbuilt : topo.Built := built_probeTopology (by decide +kernel)
  have hfit : topo.DegreesFit := Topology.degreesFit_of_few (by decide +kernel)
  have hpins : resolvePins topo request.pins = .ok [none, none] := by decide +kernel
  have hkept : ∀ e ∈ outcome.explanations, e.truncated = false := by decide +kernel
  obtain ⟨hedges, hsignals⟩ := accounting_exact .scan topo probePolicy (.make 4 4 4) none probeEpoch
    [none, none] request hbuilt hfit hpins
  refine ⟨by decide +kernel, fun e he => ?_, hsignals
    ⟨by decide +kernel, by decide +kernel, by decide +kernel, _, hpins⟩⟩
  obtain ⟨s, hs, hsource, hwhole, hcounted⟩ := hedges e he
  exact ⟨s, hs, hsource, hcounted (hwhole (hkept e he))⟩

/-- The counters of an untruncated explanation agree with its records exactly when no fence has
closed a resource that was gone through, and no edge was damped after its amplification had been
counted. -/
theorem categories_exact_iff (pq : EntryQueue) (topo : Topology) (policy : PropagationPolicy)
    (ledger : PropagationLedger) (fences : Option FenceTable) (liveEpoch : Epoch)
    (pins : List (Option Generation)) (request : PropagationRequest) (hbuilt : topo.Built)
    (hfit : topo.DegreesFit) (hpins : resolvePins topo request.pins = .ok pins) :
    ∀ e ∈ (propagate pq (.of topo policy ledger fences liveEpoch) request).1.explanations,
      ∃ s ∈ (admission policy request).accepted, e.source = s.source ∧
        (e.truncated = false → ¬CutShort pq topo policy ledger fences pins request s) ∧
        (¬CutShort pq topo policy ledger fences pins request s →
          List.Forall₂ (RunsOver topo)
            (crossedEdges (decisionsOf pq topo policy ledger fences pins request s)) e.hops ∧
          (CategoriesCounted
              (crossedEdges (decisionsOf pq topo policy ledger fences pins request s)) e ↔
            Uneventful (decisionsOf pq topo policy ledger fences pins request s))) := by
  intro e he
  have hwired : Wired topo := wired_of_indexed (Topology.indexed_of_built hbuilt) hfit
  rcases propagate_report pq topo policy ledger fences liveEpoch request with
    ⟨hsilent, -⟩ | ⟨pins', hrep⟩
  · rw [hsilent.explanations] at he
    cases he
  · cases hrep.ready.pins.symm.trans hpins
    rw [hrep.explanations] at he
    obtain ⟨s, hs, hsource⟩ := explanation_accepted he
    refine ⟨s, hs, hsource, not_cutShort hs he hsource, fun hfull => ?_⟩
    obtain ⟨haccounted, -⟩ := accounted_explanation hwired hs he hsource hfull
    refine ⟨?_, categories_counted_iff haccounted⟩
    rw [haccounted.hops]
    exact runsOver_crossedEdges (whole_decisionsOf hwired)

/-- A refusal of egress at resource 7. -/
def egressFences : FenceTable where
  fences := [{ id := ⟨1⟩, resource := ⟨7⟩, kind := .refuseEgress, epoch := ⟨1⟩ }]
  wellFormed f hf := by
    rw [List.mem_singleton.mp hf]
    exact ⟨by decide, by decide, nofun⟩

/-- A signal at a resource that refuses egress: the refusal of its edge is counted twice. -/
theorem categories_exact_fenced :
    let topo := probeTopology [probeResource ⟨7⟩, probeResource ⟨8⟩] [probeEdge ⟨1⟩ ⟨7⟩ ⟨8⟩]
    let request := probeRequest probePolicy topo ⟨7⟩ 5
    let fences := some egressFences
    let explanations := (propagate .scan (.of topo probePolicy (.make 4 4 4) fences probeEpoch)
        request).1.explanations
    explanations.map (fun e => (e.truncated, e.counters.fenceRejections)) = [(false, 2)] ∧
      ∀ e ∈ explanations, ∃ s ∈ (admission probePolicy request).accepted, e.source = s.source ∧
        ¬CategoriesCounted (crossedEdges
          (decisionsOf .scan topo probePolicy (.make 4 4 4) fences [none] request s)) e := by
  intro topo request fences explanations
  have hbuilt : topo.Built := built_probeTopology (by decide +kernel)
  have hfit : topo.DegreesFit := Topology.degreesFit_of_few (by decide +kernel)
  have hpins : resolvePins topo request.pins = .ok [none] := by decide +kernel
  have hkept : ∀ e ∈ explanations, e.truncated = false := by decide +kernel
  have heventful : ∀ s ∈ (admission probePolicy request).accepted,
      ∃ x ∈ decisionsOf .scan topo probePolicy (.make 4 4 4) fences [none] request s,
        x.fenced = true := by decide +kernel
  refine ⟨by decide +kernel, fun e he => ?_⟩
  obtain ⟨s, hs, hsource, hwhole, hexact⟩ := categories_exact_iff .scan topo probePolicy
    (.make 4 4 4) fences probeEpoch [none] request hbuilt hfit hpins e he
  refine ⟨s, hs, hsource, fun hcounted => ?_⟩
  have hfree := ((hexact (hwhole (hkept e he))).2.mp hcounted)
  obtain ⟨x, hx, hfenced⟩ := heventful s hs
  exact absurd (hfree.fences x hx) (by rw [hfenced]; decide)

/-- A fence that refuses egress is counted once for its resource and again for every edge. -/
theorem egress_fence_counted_twice : ¬∀ (pq : EntryQueue) (topo : Topology)
    (policy : PropagationPolicy) (ledger : PropagationLedger) (fences : Option FenceTable)
    (liveEpoch : Epoch) (request : PropagationRequest), topo.Built → topo.DegreesFit →
    ∀ e ∈ (propagate pq (.of topo policy ledger fences liveEpoch) request).1.explanations,
      e.truncated = false → ∀ crossed, List.Forall₂ (RunsOver topo) crossed e.hops →
        CategoriesCounted crossed e := by
  intro h
  let topo := probeTopology [probeResource ⟨7⟩, probeResource ⟨8⟩] [probeEdge ⟨1⟩ ⟨7⟩ ⟨8⟩]
  let request := probeRequest probePolicy topo ⟨7⟩ 5
  have hbuilt : topo.Built := built_probeTopology (by decide +kernel)
  have hfit : topo.DegreesFit := Topology.degreesFit_of_few (by decide +kernel)
  have hcounted : ∃ e ∈ (propagate .scan (.of topo probePolicy (.make 4 4 4) (some egressFences)
      probeEpoch) request).1.explanations, e.truncated = false ∧ e.hops = [] ∧
      e.counters.fenceRejections ≠ countUnder (· == .fenced) e.suppressed := by decide +kernel
  obtain ⟨e, he, hkept, hhops, hfenced⟩ := hcounted
  have hexact := h .scan topo probePolicy (.make 4 4 4) (some egressFences) probeEpoch request hbuilt
    hfit e he hkept [] (hhops ▸ .nil)
  exact hfenced hexact.fenced

end PropagationEngine

end Backpressure
