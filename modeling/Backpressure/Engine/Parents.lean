import Backpressure.Engine.Alone
import Backpressure.Engine.Justified

/-!
# Following the parents

An outcome names the resource and the edge through which the strongest arrival came. The strongest
at one resource need not be the strongest at the next, so the parents of a chain can belong to
different signals. Where the same edge leads at every resource of the way, they rebuild it.
-/

namespace Backpressure

/-- How the best potential came to a resource. -/
structure Link where
  received : Bool := false
  bestPotential : Potential := .zero
  bestDepth : Nat := 0
  bestSource : SourceId := {}
  parent : ResourceId := {}
  parentEdge : EdgeId := {}

namespace Link

def of (a : NodeAccumulator) : Link :=
  ⟨a.received, a.bestPotential, a.bestDepth, a.bestSource, a.parent, a.parentEdge⟩

/-- A stronger arrival takes the lead. -/
def lead (l m : Link) : Link :=
  if !l.received || decide (l.bestPotential.raw < m.bestPotential.raw) then m else l

theorem lead_cases (l m : Link) : l.lead m = l ∨ l.lead m = m := by
  unfold lead
  split
  · exact .inr rfl
  · exact .inl rfl

end Link

namespace Traversal

variable {pq : EntryQueue} {ctx : TraversalContext} {t t' : Traversal pq}

/-- The link that an entry makes. -/
def linkOf (ctx : TraversalContext) (e : QueueEntry) : Link where
  received := true
  bestPotential := e.potential
  bestDepth := e.depth
  bestSource := ctx.signal.source
  parent := ((e.parent.bind ctx.topo.resourceAt).map Resource.id).getD {}
  parentEdge := ((e.parentEdge.bind ctx.topo.edgeAt).map DependencyEdge.id).getD {}

theorem link_settle (e : QueueEntry) (a : NodeAccumulator) :
    Link.of (settleAccumulator ctx e a) = (Link.of a).lead (linkOf ctx e) := by
  unfold settleAccumulator Link.lead Link.of linkOf
  dsimp only
  by_cases hbetter : (!a.received || decide (a.bestPotential.raw < e.potential.raw)) = true
  · rw [if_pos hbetter, if_pos hbetter]
    split <;> rfl
  · rw [if_neg hbetter, if_neg hbetter]
    split <;> rfl

def linkReading : Reading Link where
  of := Link.of
  settled ctx e l := l.lead (linkOf ctx e)
  fresh _ := rfl
  alike _ _ h := (congrArg Link.of h).symm
  settle _ e a := link_settle e a

/-- After some settlements a resource has the link of one of them, or the one from before. -/
theorem foldl_count_link (l : List QueueEntry) (vs : Nat → Link) (i : Nat) :
    l.foldl (linkReading.count ctx) vs i = vs i ∨
      ∃ e ∈ l, e.node = i ∧ l.foldl (linkReading.count ctx) vs i = linkOf ctx e := by
  induction l generalizing vs with
  | nil => exact .inl rfl
  | cons e rest ih =>
    rw [List.foldl_cons]
    rcases ih (linkReading.count ctx vs e) with hsame | ⟨e', he', hnode, hlink⟩
    · rw [hsame]
      unfold Reading.count
      by_cases hi : i = e.node
      · subst hi
        rw [Function.update_self]
        rcases (vs e.node).lead_cases (linkOf ctx e) with hkept | hnew
        · exact .inl hkept
        · exact .inr ⟨e, List.mem_cons_self, rfl, hnew⟩
      · exact .inl (Function.update_of_ne hi _ _)
    · exact .inr ⟨e', List.mem_cons_of_mem e he', hnode, hlink⟩

/-- How an entry came about: it seeds the traversal, or it arrived across a reported hop. -/
inductive Came (ctx : TraversalContext) (entries : List QueueEntry) (hops : List HopRecord)
    (e : QueueEntry) : Prop
  | seeded : e.depth = 0 → e.parentEdge = none → (linkOf ctx e).parent = {} →
      (∀ r, ctx.topo.resourceAt e.node = some r → r.id = ctx.signal.origin) →
      Came ctx entries hops e
  | crossed {e' : QueueEntry} {k : Nat} {edge : DependencyEdge} :
      e' ∈ entries → e.parent = some e'.node → e.depth = e'.depth + 1 →
      e.parentEdge = some k → ctx.topo.edgeAt k = some edge →
      (linkOf ctx e).parent = edge.src → (linkOf ctx e).parentEdge = edge.id →
      (∃ src, ctx.topo.resourceAt e'.node = some src ∧ src.id = edge.src) →
      (∀ r, ctx.topo.resourceAt e.node = some r → r.id = edge.dst) →
      (∃ h ∈ hops, h.accepted = true ∧ h.edge = edge.id ∧ h.src = edge.src ∧ h.dst = edge.dst) →
      Came ctx entries hops e

/-- The edge across which an entry came says from where. -/
theorem Came.parent {entries : List QueueEntry} {hops : List HopRecord} {e : QueueEntry}
    (h : Came ctx entries hops e) : (linkOf ctx e).parent =
      ((e.parentEdge.bind ctx.topo.edgeAt).map DependencyEdge.src).getD {} := by
  cases h with
  | seeded _ hnone hparent =>
    rw [hparent, hnone]
    rfl
  | crossed _ _ _ hsome hedge hparent =>
    rw [hparent, hsome, Option.bind_some, hedge]
    rfl

theorem came_of_settled (fresh : t.Fresh) (hindexed : ctx.topo.Indexed)
    (hrun : t.run ctx = (.success, t')) :
    ∀ e ∈ settlements ctx t, Came ctx (settlements ctx t) t'.expl.hops e := by
  obtain ⟨i, origin, xs, horigin, hsettlements, htoured⟩ := toured_run fresh hrun
  have htour := htoured.toTour
  intro e he
  rw [hsettlements] at he ⊢
  obtain ⟨x, hx, rfl⟩ := List.mem_map.mp he
  rcases htour.entries x hx with hseed | ⟨y, hy, c, hc, harrival⟩
  · rw [hseed]
    refine .seeded rfl rfl rfl fun r hr => ?_
    rw [← horigin.id, Option.some.inj (horigin.resourceAt.symm.trans hr)]
  · rw [harrival]
    have hlawful := htour.lawful y hy
    obtain ⟨hedge, -, hsrc⟩ := hlawful.leaves hindexed hc
    obtain ⟨settled, -, hpassed⟩ := hlawful.passed c hc
    obtain ⟨expansions, fanout, hadm⟩ := hpassed.admitted
    obtain ⟨dst, hadmitted⟩ := of_admits hadm
    have hmem := htour.mem_hops hy hc
    refine .crossed (List.mem_map_of_mem hy) rfl rfl rfl hedge ?_ ?_
      ⟨y.res, hlawful.resourceAt, hsrc.symm⟩ (fun r hr => ?_)
      ⟨_, hmem, htour.accepted _ hmem, rfl, hsrc.symm, rfl⟩
    · change ((ctx.topo.resourceAt y.entry.node).map Resource.id).getD {} = c.edge.src
      rw [hlawful.resourceAt, hsrc]
      rfl
    · change ((ctx.topo.edgeAt c.edgeIndex).map DependencyEdge.id).getD {} = c.edge.id
      rw [hedge]
      rfl
    · rw [← hadmitted.target, Option.some.inj (hadmitted.resourceAt.symm.trans hr)]

end Traversal

namespace PropagationEngine

open Traversal Tally

variable {pq : EntryQueue} {topo : Topology} {policy : PropagationPolicy}
  {ledger : PropagationLedger} {fences : Option FenceTable} {pins : List (Option Generation)}
  {request : PropagationRequest} {s : PressureSignal} {i k : Nat} {n : NodeOutcome}
  {e e' : QueueEntry}

/-- The links of a request are those of its arrivals. -/
theorem link_progress :
    (linkReading.at' (progress pq topo policy ledger fences pins request).acc i).received = true →
    ∃ s ∈ liveSignals policy ledger request,
      ∃ e ∈ reach pq topo policy ledger fences pins request s, e.node = i ∧
        linkReading.at' (progress pq topo policy ledger fences pins request).acc i =
          linkOf (traversalContext topo policy ledger fences pins request s) e := by
  have hall := @progress_invariant pq topo policy ledger fences pins request
    (fun p => (∀ s', Traversal.Admissible
        (traversalContext topo policy ledger fences pins request s') p.acc) ∧
      ((linkReading.at' p.acc i).received = true → ∃ s ∈ liveSignals policy ledger request,
        ∃ e ∈ reach pq topo policy ledger fences pins request s, e.node = i ∧
          linkReading.at' p.acc i =
            linkOf (traversalContext topo policy ledger fences pins request s) e))
    (fun p hp => ⟨fun s' => hp.acc ▸ .empty, fun hreceived => ?_⟩)
    fun p s hs hp => ⟨admissible_traverse hp.1, fun hreceived => ?_⟩
  · exact hall.2
  · rw [hp.acc, Reading.at'_of_none (AList.lookup_empty i)] at hreceived
    cases hreceived
  · rw [acc_traverse, at'_run linkReading startTraversal_fresh (hp.1 s),
      settlements_startTraversal] at hreceived ⊢
    rcases @foldl_count_link (traversalContext topo policy ledger fences pins request s)
      (reach pq topo policy ledger fences pins request s) (linkReading.at' p.acc) i with
      hkept | ⟨e, he, hnode, hlink⟩
    · have hstart : (startTraversal pq topo policy request p s).acc = p.acc := rfl
      rw [hstart] at hreceived ⊢
      rw [hkept] at hreceived ⊢
      exact hp.2 hreceived
    · exact ⟨s, hs, e, he, hnode, hlink⟩

/-- The signal leads at the resource: the first of the strongest arrivals there is its own. -/
def LeadsAt (pq : EntryQueue) (topo : Topology) (policy : PropagationPolicy)
    (ledger : PropagationLedger) (fences : Option FenceTable) (pins : List (Option Generation))
    (request : PropagationRequest) (s : PressureSignal) (i : Nat) : Prop :=
  ∃ x rest, arrivalsAt pq topo policy ledger fences pins request i = x :: rest ∧
    (leader x rest).contribution.source = s.source

/-- A received outcome reports the entry with which the leading signal settled the resource. -/
structure Reported (pq : EntryQueue) (topo : Topology) (policy : PropagationPolicy)
    (ledger : PropagationLedger) (fences : Option FenceTable) (pins : List (Option Generation))
    (request : PropagationRequest) (n : NodeOutcome) (s : PressureSignal) (e : QueueEntry) :
    Prop where
  live : s ∈ liveSignals policy ledger request
  settled : e ∈ reach pq topo policy ledger fences pins request s
  resource : ∃ r, topo.resourceAt e.node = some r ∧ r.id = n.resource
  leads : LeadsAt pq topo policy ledger fences pins request s e.node
  source : n.bestSource = s.source
  depth : n.bestDepth = e.depth
  parent : n.parent = (linkOf (traversalContext topo policy ledger fences pins request s) e).parent
  edge : n.parentEdge =
    (linkOf (traversalContext topo policy ledger fences pins request s) e).parentEdge

theorem reported_of_received
    (hn : n ∈ aggregateNodes policy (progress pq topo policy ledger fences pins request).acc)
    (hreceived : n.received = true) :
    ∃ s e, Reported pq topo policy ledger fences pins request n s e := by
  obtain ⟨i, r, x, rest, hr, harrivals, hout⟩ := outcome_received hn hreceived
  obtain ⟨j, a, hlookup, rfl⟩ := mem_aggregateNodes.mp hn
  obtain ⟨r', hr', hid⟩ := keyed_progress j a hlookup
  have hsame : r.id = r'.id := hout.resource.symm.trans hid
  obtain rfl := Topology.index_unique hr hr' hsame
  obtain rfl := Option.some.inj (hr.symm.trans hr')
  have hlink := @link_progress pq topo policy ledger fences pins request i
  rw [Reading.at'_of_lookup hlookup] at hlink
  obtain ⟨s, hs, e, he, rfl, heq⟩ := hlink hreceived
  have hsource : a.bestSource = s.source := congrArg Link.bestSource heq
  exact ⟨s, e, hs, he, ⟨r, hr, hid.symm⟩, ⟨x, rest, harrivals, hout.source.symm.trans hsource⟩,
    hsource, congrArg Link.bestDepth heq, congrArg Link.parent heq, congrArg Link.parentEdge heq⟩

/-- What a signal has settled is reported. -/
theorem exists_reported (hs : s ∈ liveSignals policy ledger request)
    (he : e ∈ reach pq topo policy ledger fences pins request s) {r : Resource}
    (hr : topo.resourceAt e.node = some r) :
    ∃ n ∈ aggregateNodes policy (progress pq topo policy ledger fences pins request).acc,
      n.resource = r.id ∧ n.received = true := by
  have hmem : arrivalOf (traversalContext topo policy ledger fences pins request s) e ∈
      arrivalsAt pq topo policy ledger fences pins request e.node :=
    mem_arrivalsAt.mpr ⟨s, hs, e, he, rfl, rfl⟩
  cases harrivals : arrivalsAt pq topo policy ledger fences pins request e.node with
  | nil =>
    rw [harrivals] at hmem
    cases hmem
  | cons x rest =>
    obtain ⟨n, hn, hout⟩ := exists_outcome hr harrivals
    exact ⟨n, hn, hout.resource, hout.received⟩

/-- A signal that settles anything has run. -/
theorem ran_of_reach (he : e ∈ reach pq topo policy ledger fences pins request s) :
    ∃ t, traversalOf pq topo policy ledger fences pins request s = (.success, t) := by
  rw [← @settlements_startTraversal pq topo policy ledger fences pins request s
    (progressBefore pq topo policy ledger fences pins request s)] at he
  rcases run_settles (traversalContext topo policy ledger fences pins request s)
    (@startTraversal_fresh pq topo policy request
      (progressBefore pq topo policy ledger fences pins request s) s) with
    ⟨-, -, hnone⟩ | hrun
  · rw [hnone] at he
    cases he
  · exact hrun

/-! ## Following the parents -/

/-- From outcome to outcome, parent by parent, across reported hops to a resource that has none. -/
def LeadsBack (nodes : List NodeOutcome) (hops : List HopRecord) (origin : ResourceId) :
    Nat → NodeOutcome → Prop
  | 0, n => n.parent.valid = false ∧ n.resource = origin
  | k + 1, n => (∃ h ∈ hops, h.accepted = true ∧ h.edge = n.parentEdge ∧ h.src = n.parent ∧
      h.dst = n.resource) ∧ ∃ m ∈ nodes, m.resource = n.parent ∧ LeadsBack nodes hops origin k m

/-- The parents lead in as many steps as the best depth to the origin of an accepted signal of the
best source, across accepted hops of its explanation. -/
def Reconstructs (accepted : List PressureSignal) (outcome : PropagationOutcome) (n : NodeOutcome) :
    Prop :=
  ∃ s ∈ accepted, s.source = n.bestSource ∧ ∃ e ∈ outcome.explanations, e.source = s.source ∧
    LeadsBack outcome.nodes e.hops s.origin n.bestDepth n

instance decidableLeadsBack (nodes : List NodeOutcome) (hops : List HopRecord) (origin : ResourceId) :
    ∀ k n, Decidable (LeadsBack nodes hops origin k n)
  | 0, n => inferInstanceAs (Decidable (n.parent.valid = false ∧ n.resource = origin))
  | k + 1, n =>
    have := decidableLeadsBack nodes hops origin k
    inferInstanceAs (Decidable ((∃ h ∈ hops, h.accepted = true ∧ h.edge = n.parentEdge ∧
      h.src = n.parent ∧ h.dst = n.resource) ∧
        ∃ m ∈ nodes, m.resource = n.parent ∧ LeadsBack nodes hops origin k m))

instance (accepted : List PressureSignal) (outcome : PropagationOutcome) (n : NodeOutcome) :
    Decidable (Reconstructs accepted outcome n) :=
  inferInstanceAs (Decidable (∃ s ∈ accepted, s.source = n.bestSource ∧
    ∃ e ∈ outcome.explanations, e.source = s.source ∧
      LeadsBack outcome.nodes e.hops s.origin n.bestDepth n))

/-- The entry before, on the way of a signal. -/
def Back (entries : List QueueEntry) (e e' : QueueEntry) : Prop :=
  e' ∈ entries ∧ e.parent = some e'.node

/-- At every resource on the way to the entry, whichever signal leads there came across the same
edge. -/
def OwnWay (pq : EntryQueue) (topo : Topology) (policy : PropagationPolicy)
    (ledger : PropagationLedger) (fences : Option FenceTable) (pins : List (Option Generation))
    (request : PropagationRequest) (s : PressureSignal) (e : QueueEntry) : Prop :=
  ∀ e', Relation.ReflTransGen (Back (reach pq topo policy ledger fences pins request s)) e e' →
    ∀ s' ∈ liveSignals policy ledger request,
      LeadsAt pq topo policy ledger fences pins request s' e'.node →
      ∀ e'' ∈ reach pq topo policy ledger fences pins request s', e''.node = e'.node →
        e''.parentEdge = e'.parentEdge

/-- The entries of a request came about in its traversals, whose hops its explanations list. -/
theorem came_of_reach (hbuilt : topo.Built) (hs : s ∈ liveSignals policy ledger request)
    (he : e ∈ reach pq topo policy ledger fences pins request s) :
    ∃ x ∈ (progress pq topo policy ledger fences pins request).explanations, x.source = s.source ∧
      ∀ e ∈ reach pq topo policy ledger fences pins request s,
        Came (traversalContext topo policy ledger fences pins request s)
          (reach pq topo policy ledger fences pins request s) x.hops e := by
  obtain ⟨t, htrav⟩ := ran_of_reach he
  obtain ⟨x, hx, hsource, hhops⟩ := @explanation_of_live pq topo policy ledger fences pins request s
    hs (by rw [htrav]; rfl)
  refine ⟨x, hx, hsource, ?_⟩
  have hcame := came_of_settled startTraversal_fresh (Topology.indexed_of_built hbuilt) htrav
  rwa [settlements_startTraversal, ← show x.hops = t.expl.hops by rw [hhops, htrav]] at hcame

theorem OwnWay.back (h : OwnWay pq topo policy ledger fences pins request s e)
    (hback : Back (reach pq topo policy ledger fences pins request s) e e') :
    OwnWay pq topo policy ledger fences pins request s e' :=
  fun e'' hway => h e'' (.head hback hway)

/-- Where a signal has its own way, an outcome reports the link of that signal. -/
theorem link_of_ownWay (hbuilt : topo.Built) (hs : s ∈ liveSignals policy ledger request)
    (he : e ∈ reach pq topo policy ledger fences pins request s)
    (hway : OwnWay pq topo policy ledger fences pins request s e)
    (hn : n ∈ aggregateNodes policy (progress pq topo policy ledger fences pins request).acc)
    (hreceived : n.received = true) {r : Resource} (hr : topo.resourceAt e.node = some r)
    (hresource : n.resource = r.id) :
    n.parent = (linkOf (traversalContext topo policy ledger fences pins request s) e).parent ∧
      n.parentEdge =
        (linkOf (traversalContext topo policy ledger fences pins request s) e).parentEdge := by
  obtain ⟨s', e', hrep⟩ := reported_of_received hn hreceived
  obtain ⟨r', hr', hid⟩ := hrep.resource
  have hnode : e'.node = e.node := Topology.index_unique hr' hr (hid.trans hresource)
  have hsame := hway e .refl s' hrep.live (hnode ▸ hrep.leads) e' hrep.settled hnode
  obtain ⟨x, -, -, hcame⟩ := came_of_reach hbuilt hs he
  obtain ⟨x', -, -, hcame'⟩ := came_of_reach hbuilt hrep.live hrep.settled
  constructor
  · rw [hrep.parent, (hcame' e' hrep.settled).parent, (hcame e he).parent, hsame]
    rfl
  · rw [hrep.edge]
    unfold linkOf
    rw [hsame]
    rfl

/-- Where a signal has its own way, the parents follow it back. -/
theorem leadsBack_of_ownWay (hbuilt : topo.Built) (hs : s ∈ liveSignals policy ledger request)
    {hops : List HopRecord}
    (hcame : ∀ e ∈ reach pq topo policy ledger fences pins request s,
      Came (traversalContext topo policy ledger fences pins request s)
        (reach pq topo policy ledger fences pins request s) hops e)
    (he : e ∈ reach pq topo policy ledger fences pins request s)
    (hway : OwnWay pq topo policy ledger fences pins request s e)
    (hn : n ∈ aggregateNodes policy (progress pq topo policy ledger fences pins request).acc)
    (hreceived : n.received = true) {r : Resource} (hr : topo.resourceAt e.node = some r)
    (hresource : n.resource = r.id) :
    LeadsBack (aggregateNodes policy (progress pq topo policy ledger fences pins request).acc) hops
      s.origin e.depth n := by
  -- one step back is one level less deep
  induction hk : e.depth generalizing e n r with
  | zero =>
    obtain ⟨hparent, -⟩ := link_of_ownWay hbuilt hs he hway hn hreceived hr hresource
    cases hcame e he with
    | seeded _ _ hnone horigin =>
      refine ⟨?_, hresource.trans (horigin r hr)⟩
      rw [hparent, hnone]
      rfl
    | crossed _ _ hdepth =>
      rw [hk] at hdepth
      cases hdepth
  | succ k ih =>
    obtain ⟨hparent, hedge⟩ := link_of_ownWay hbuilt hs he hway hn hreceived hr hresource
    cases hcame e he with
    | seeded hdepth =>
      rw [hk] at hdepth
      cases hdepth
    | @crossed e' _ edge he' hback hdepth _ _ hsrc hid hfrom hdst hhop =>
      obtain ⟨src, hsrcAt, hsrcId⟩ := hfrom
      obtain ⟨m, hm, hmres, hmreceived⟩ := exists_reported hs he' hsrcAt
      refine ⟨?_, m, hm, ?_, ?_⟩
      · rw [hparent, hedge, hsrc, hid, hresource, hdst r hr]
        exact hhop
      · rw [hmres, hsrcId, hparent, hsrc]
      · exact ih he' (hway.back ⟨he', hback⟩) hm hmreceived hsrcAt hmres (by omega)

/-- The parents of a received outcome rebuild the way of its strongest arrival, where at every
resource of that way the arrival that leads came across the same edge. -/
theorem parents_reconstruct (pq : EntryQueue) (topo : Topology) (policy : PropagationPolicy)
    (ledger : PropagationLedger) (fences : Option FenceTable) (liveEpoch : Epoch)
    (request : PropagationRequest) (hbuilt : topo.Built) :
    let outcome := (propagate pq (.of topo policy ledger fences liveEpoch) request).1
    ∀ n ∈ outcome.nodes, n.received = true →
      (∀ pins, resolvePins topo request.pins = .ok pins →
        ∀ s ∈ liveSignals policy ledger request,
          ∀ e ∈ reach pq topo policy ledger fences pins request s,
            (topo.resourceAt e.node).map Resource.id = some n.resource →
            LeadsAt pq topo policy ledger fences pins request s e.node →
            OwnWay pq topo policy ledger fences pins request s e) →
      Reconstructs (admission policy request).accepted outcome n := by
  intro outcome n hn hreceived hown
  rcases propagate_report pq topo policy ledger fences liveEpoch request with
    ⟨hsilent, -⟩ | ⟨pins, hrep⟩
  · rw [hsilent.nodes] at hn
    cases hn
  have hexplanations : outcome.explanations = _ := hrep.explanations
  have hnodes : outcome.nodes = _ := hrep.nodes
  rw [hnodes] at hn
  obtain ⟨s, e, hreported⟩ := reported_of_received hn hreceived
  obtain ⟨r, hr, hid⟩ := hreported.resource
  have hway := hown pins hrep.ready.pins s hreported.live e hreported.settled (by rw [hr, ← hid]; rfl)
    hreported.leads
  obtain ⟨x, hx, hsource, hcame⟩ := came_of_reach hbuilt hreported.live hreported.settled
  refine ⟨s, (List.mem_filter.mp hreported.live).1, hreported.source.symm, x, ?_, hsource, ?_⟩
  · rwa [hexplanations]
  · rw [hnodes, hreported.depth]
    exact leadsBack_of_ownWay hbuilt hreported.live hcame hreported.settled hway hn hreceived hr
      hid.symm

/-- A signal that is alone has its own way. -/
theorem ownWay_alone (hlive : liveSignals policy ledger request = [s])
    (he : e ∈ reach pq topo policy ledger fences pins request s) :
    OwnWay pq topo policy ledger fences pins request s e := by
  intro e' hway s' hs' _ e'' he'' hnode
  obtain rfl : s' = s := by simpa [hlive] using hs'
  have he' : e' ∈ reach pq topo policy ledger fences pins request s' := by
    induction hway with
    | refl => exact he
    | tail _ hback => exact hback.1
  rw [List.inj_on_of_nodup_map nodup_reach he'' he' hnode]

/-- One signal over two hops. -/
theorem parents_reconstruct_chain :
    let topo := probeTopology [probeResource ⟨7⟩, probeResource ⟨8⟩, probeResource ⟨9⟩]
      [probeEdge ⟨1⟩ ⟨7⟩ ⟨8⟩, probeEdge ⟨2⟩ ⟨8⟩ ⟨9⟩]
    let request := probeRequest probePolicy topo ⟨7⟩ 5
    let outcome := (propagate .scan (.of topo probePolicy (.make 4 4 4) none probeEpoch) request).1
    ∃ n ∈ outcome.nodes, n.resource = ⟨9⟩ ∧ n.bestDepth = 2 ∧
      Reconstructs (admission probePolicy request).accepted outcome n := by
  intro topo request outcome
  have hbuilt : topo.Built := built_probeTopology (by decide +kernel)
  have hlive : liveSignals probePolicy (.make 4 4 4) request = [probeSignal probePolicy topo ⟨7⟩ 5] :=
    liveSignals_probe (by decide +kernel) (by decide +kernel) (by decide +kernel)
  have hdeep : ∃ n ∈ outcome.nodes, n.resource = ⟨9⟩ ∧ n.bestDepth = 2 ∧ n.received = true := by
    decide +kernel
  obtain ⟨n, hn, hresource, hdepth, hreceived⟩ := hdeep
  refine ⟨n, hn, hresource, hdepth, parents_reconstruct .scan topo probePolicy (.make 4 4 4) none
    probeEpoch request hbuilt n hn hreceived fun pins _ s hs e he _ _ => ?_⟩
  obtain rfl : s = probeSignal probePolicy topo ⟨7⟩ 5 := by simpa [hlive] using hs
  exact ownWay_alone hlive he

/-- The edges from resources 7 and 8 meet at resource 9. -/
def meetingTopology : Topology :=
  probeTopology [probeResource ⟨7⟩, probeResource ⟨8⟩, probeResource ⟨9⟩, probeResource ⟨10⟩]
    [probeEdge ⟨1⟩ ⟨7⟩ ⟨9⟩, probeEdge ⟨2⟩ ⟨8⟩ ⟨9⟩, probeEdge ⟨3⟩ ⟨9⟩ ⟨10⟩]

/-- A weaker signal from resource 7, and a stronger one from resource 8 that may go one hop only. -/
def meetingRequest : PropagationRequest :=
  let weak := probeSignal probePolicy meetingTopology ⟨7⟩ 5
  let strong := probeSignal probePolicy meetingTopology ⟨8⟩ 5
  { probeRequest probePolicy meetingTopology ⟨7⟩ 5 with
    signals :=
      [{ weak with observation := .observed (.fromRawSaturating 32768) probePolicy.thresholds },
        { strong with
          id := ⟨2⟩, source := ⟨2⟩, lineage := { lo := 2 }
          authority := { strong.authority with maxHopsGranted := 1 } }] }

/-- Resource 10 has the weaker signal as its best source, and resource 9 as its parent, whose own
parent is that of the stronger signal. -/
theorem parents_switch_signals :
    ¬∀ (pq : EntryQueue) (topo : Topology) (policy : PropagationPolicy) (ledger : PropagationLedger)
      (fences : Option FenceTable) (liveEpoch : Epoch) (request : PropagationRequest), topo.Built →
      let outcome := (propagate pq (.of topo policy ledger fences liveEpoch) request).1
      outcome.status.ok = true → outcome.complete = true → ∀ n ∈ outcome.nodes, n.received = true →
        Reconstructs (admission policy request).accepted outcome n := by
  intro h
  have hbuilt : meetingTopology.Built := built_probeTopology (by decide +kernel)
  have hall := h .scan meetingTopology probePolicy (.make 4 4 4) none probeEpoch meetingRequest hbuilt
    (by decide +kernel) (by decide +kernel)
  revert hall
  decide +kernel

end PropagationEngine

end Backpressure
