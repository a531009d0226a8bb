import Backpressure.Engine.Probe
import Backpressure.Engine.Refusals

/-!
# Reported hops are delivered

A hop is reported when its arrival is queued and has an effect when the arrival is popped. Best
first order makes the entry that settles a resource the largest one queued for it, so every
hop to a settled resource is delivered in full; a loop that stops on a budget with an arrival
still queued has reported a hop that never took place.
-/

namespace Backpressure

namespace Traversal

variable {pq : EntryQueue} {ctx : TraversalContext} {t t' u : Traversal pq} {c c' : Control}

/-- The hop has been delivered at the index of its target. -/
structure Landed (ctx : TraversalContext) (t : Traversal pq) (h : HopRecord) (i : Nat) : Prop where
  settled : i ∈ t.settled
  delivered : DeliveredAt ctx.signal h.potentialAfter.toMagnitude i t.acc

/-- The arrival of the hop is queued for the index of its target. -/
def Queued (t : Traversal pq) (h : HopRecord) (i : Nat) : Prop :=
  ∃ e ∈ pq.contents t.queue, e.node = i ∧ e.parent.isSome = true ∧ e.potential = h.potentialAfter

/-- The index is that of the target of the hop. -/
def Targets (topo : Topology) (h : HopRecord) (i : Nat) : Prop :=
  ∃ r, topo.resourceAt i = some r ∧ r.id = h.dst

theorem Targets.unique {topo : Topology} {h : HopRecord} {i j : Nat} (hi : Targets topo h i)
    (hj : Targets topo h j) : i = j := by
  obtain ⟨r, hr, hid⟩ := hi
  obtain ⟨s, hs, hid'⟩ := hj
  exact Topology.index_unique hr hs (hid.trans hid'.symm)

/-- Every reported hop is delivered or still queued, and nothing else is queued. -/
structure Paid (ctx : TraversalContext) (t : Traversal pq) : Prop where
  located : ∀ e ∈ pq.contents t.queue, e.node < ctx.topo.resources.length
  arrivals : ∀ e ∈ pq.contents t.queue, e.parent.isSome = true →
    ∃ h ∈ t.expl.hops, h.accepted = true ∧ Targets ctx.topo h e.node
  settled : ∀ e ∈ pq.contents t.queue, e.node ∈ t.settled →
    DeliveredAt ctx.signal e.potential.toMagnitude e.node t.acc
  hops : ∀ h ∈ t.expl.hops, ∃ i, Targets ctx.topo h i ∧ (Landed ctx t h i ∨ Queued t h i)

theorem accepted_acceptedHop {entry : QueueEntry} {res : Resource} {edge : DependencyEdge}
    {carried : TraversalContext.Carried} : (acceptedHop entry res edge carried).accepted = true := by
  unfold acceptedHop HopRecord.accepted
  dsimp only
  split <;> rfl

theorem Paid.tidy (h : Paid ctx t) (htidy : t.Tidy ctx.topo t') : Paid ctx t' := by
  refine ⟨fun e he => h.located e (htidy.queue ▸ he), fun e he hparent => ?_, fun e he hset => ?_,
    fun hop hhop => ?_⟩
  · rw [htidy.hops]
    exact h.arrivals e (htidy.queue ▸ he) hparent
  · exact (h.settled e (htidy.queue ▸ he) (htidy.settled ▸ hset)).alike htidy.acc
  · obtain ⟨i, htarget, hplace⟩ := h.hops hop (htidy.hops ▸ hhop)
    refine ⟨i, htarget, ?_⟩
    rcases hplace with hlanded | hqueued
    · exact .inl ⟨htidy.settled ▸ hlanded.settled, hlanded.delivered.alike htidy.acc⟩
    · rw [Queued, htidy.queue]
      exact .inr hqueued

theorem Paid.skip {entry : QueueEntry} {queue : pq.Carrier} (h : Paid ctx t)
    (hpop : pq.pop t.queue = some (entry, queue))
    (hskip : ctx.topo.resources.length ≤ entry.node ∨ entry.node ∈ t.settled) :
    Paid ctx { t with queue } := by
  have hsub : ∀ e ∈ pq.contents queue, e ∈ pq.contents t.queue :=
    fun e he => (Lib.PriorityQueue.mem_pop hpop).mpr (.inr he)
  have htop := Lib.PriorityQueue.top_mem hpop
  have hset : entry.node ∈ t.settled :=
    hskip.resolve_left (Nat.not_le_of_lt (h.located entry htop))
  refine ⟨fun e he => h.located e (hsub e he), fun e he => h.arrivals e (hsub e he),
    fun e he => h.settled e (hsub e he), fun hop hhop => ?_⟩
  obtain ⟨i, htarget, hplace⟩ := h.hops hop hhop
  refine ⟨i, htarget, ?_⟩
  rcases hplace with hlanded | ⟨e, he, hnode, hparent, hpotential⟩
  · exact .inl ⟨hlanded.settled, hlanded.delivered⟩
  · -- the popped arrival was for a settled resource, and is delivered there
    rcases (Lib.PriorityQueue.mem_pop hpop).mp he with rfl | he
    · refine .inl ⟨hnode ▸ hset, ?_⟩
      rw [← hpotential, ← hnode]
      exact h.settled e htop hset
    · exact .inr ⟨e, he, hnode, hparent, hpotential⟩

/-- Nothing queued for the resource that an entry settles arrives with more. -/
theorem potential_le_top {entry e : QueueEntry} {queue : pq.Carrier}
    (hpop : pq.pop t.queue = some (entry, queue)) (he : e ∈ pq.contents queue) :
    e.potential.raw ≤ entry.potential.raw := by
  have htop := pq.pop_top _ _ _ hpop e he
  rw [← Bool.not_eq_true, QueueEntry.less_iff] at htop
  omega

theorem Paid.settle {entry : QueueEntry} {queue : pq.Carrier} {res : Resource} (h : Paid ctx t)
    (hpop : pq.pop t.queue = some (entry, queue)) : Paid ctx (t.settle ctx entry queue res) := by
  have hsub : ∀ e ∈ pq.contents queue, e ∈ pq.contents t.queue :=
    fun e he => (Lib.PriorityQueue.mem_pop hpop).mpr (.inr he)
  have hkeep : ∀ {m : Magnitude} {i : Nat}, DeliveredAt ctx.signal m i t.acc →
      DeliveredAt ctx.signal m i (t.settle ctx entry queue res).acc :=
    fun hdel => hdel.update fun a => Delivered.settle
  -- whatever is queued for the resource now settled is delivered by the entry that settles it
  have hown : ∀ {m : Magnitude}, m.raw ≤ entry.potential.toMagnitude.raw →
      DeliveredAt ctx.signal m entry.node (t.settle ctx entry queue res).acc :=
    fun hm => ⟨_, Accumulators.lookup_update_self, delivered_settle hm⟩
  refine ⟨fun e he => h.located e (hsub e he), fun e he => h.arrivals e (hsub e he),
    fun e he hset => ?_, fun hop hhop => ?_⟩
  · by_cases hnode : e.node = entry.node
    · rw [hnode]
      exact hown (Potential.toMagnitude_mono (potential_le_top hpop he))
    · exact hkeep (h.settled e (hsub e he) ((List.mem_cons.mp hset).resolve_left hnode))
  · obtain ⟨i, htarget, hplace⟩ := h.hops hop hhop
    refine ⟨i, htarget, ?_⟩
    rcases hplace with hlanded | ⟨e, he, hnode, hparent, hpotential⟩
    · exact .inl ⟨List.mem_cons_of_mem _ hlanded.settled, hkeep hlanded.delivered⟩
    · rcases (Lib.PriorityQueue.mem_pop hpop).mp he with rfl | he
      · subst hnode
        refine .inl ⟨List.mem_cons_self, hown ?_⟩
        rw [hpotential]
      · exact .inr ⟨e, he, hnode, hparent, hpotential⟩

theorem Paid.accept {entry : QueueEntry} {res : Resource} {edgeIndex : Nat}
    {edge : DependencyEdge} {toIndex : Nat} {carried : TraversalContext.Carried} (h : Paid ctx t)
    (hcross : Crossing ctx t entry edgeIndex edge toIndex carried) :
    Paid ctx (t.accept entry res edgeIndex edge toIndex carried) := by
  obtain ⟨fanout, hadm⟩ := hcross.admitted
  obtain ⟨toRes, hadmitted⟩ := of_admits hadm
  have htarget : Targets ctx.topo (acceptedHop entry res edge carried) toIndex :=
    ⟨toRes, hadmitted.resourceAt, hadmitted.target⟩
  refine ⟨fun e he => ?_, fun e he hparent => ?_, fun e he hset => ?_, fun hop hhop => ?_⟩
  · rcases Lib.PriorityQueue.mem_push.mp he with rfl | he
    · exact (List.getElem?_eq_some_iff.mp hadmitted.resourceAt).1
    · exact h.located e he
  · rcases Lib.PriorityQueue.mem_push.mp he with rfl | he
    · exact ⟨_, List.mem_append_right _ List.mem_cons_self, accepted_acceptedHop, htarget⟩
    · obtain ⟨hop, hhop, haccepted⟩ := h.arrivals e he hparent
      exact ⟨hop, List.mem_append_left _ hhop, haccepted⟩
  · rcases Lib.PriorityQueue.mem_push.mp he with rfl | he
    · exact absurd hset hadmitted.unsettled
    · exact h.settled e he hset
  · rcases List.mem_append.mp hhop with hhop | hhop
    · obtain ⟨i, htarget, hplace⟩ := h.hops hop hhop
      refine ⟨i, htarget, ?_⟩
      rcases hplace with hlanded | ⟨e, he, hqueued⟩
      · exact .inl ⟨hlanded.settled, hlanded.delivered⟩
      · exact .inr ⟨e, Lib.PriorityQueue.mem_push.mpr (.inr he), hqueued⟩
    · obtain rfl := List.mem_singleton.mp hhop
      exact ⟨toIndex, htarget, .inr ⟨_, Lib.PriorityQueue.mem_push.mpr (.inl rfl), rfl, rfl, rfl⟩⟩

theorem paid_step (h : t.truncated = false → Paid ctx t) (hstep : Step ctx c t c' t')
    (hkept : t'.truncated = false) : Paid ctx t' := by
  have hbefore : t.truncated = false := by
    cases htrunc : t.truncated with
    | false => rfl
    | true => exact absurd (truncated_steps hstep.steps htrunc) (by simp [hkept])
  have hpaid := h hbefore
  cases hstep with
  | tidy htidy => exact hpaid.tidy htidy
  | skip hpop hskip => exact hpaid.skip hpop hskip
  | settle hpop => exact hpaid.settle hpop
  | abandon _ _ _ htrunc =>
    rw [htrunc] at hkept
    cases hkept
  | accept _ hcross => exact hpaid.accept hcross
  | leave => exact hpaid

theorem paid_steps (h : Paid ctx t) (hsteps : Steps ctx c t c' t') (hkept : t'.truncated = false) :
    Paid ctx t' :=
  hsteps.invariant (P := fun _ v => v.truncated = false → Paid ctx v) (fun _ => h)
    (fun _ _ _ _ => paid_step) hkept

theorem paid_seeded {i : Nat} {origin : Resource} (fresh : t.Fresh) (horigin : Origin ctx i origin) :
    Paid ctx { t with queue := pq.push t.queue (originEntry ctx i) } := by
  have honly : ∀ e ∈ pq.contents (pq.push t.queue (originEntry ctx i)), e = originEntry ctx i := by
    intro e he
    rw [fresh.queue] at he
    exact (Lib.PriorityQueue.mem_push.mp he).resolve_right Lib.PriorityQueue.not_mem_empty
  refine ⟨fun e he => ?_, fun e he hparent => ?_, fun e _ hset => ?_, ?_⟩
  · rw [honly e he]
    exact (List.getElem?_eq_some_iff.mp horigin.resourceAt).1
  · rw [honly e he] at hparent
    cases hparent
  · change e.node ∈ t.settled at hset
    rw [fresh.settled] at hset
    cases hset
  · change ∀ h ∈ t.expl.hops, _
    simp [fresh.hops]

/-- The turn ends the loop on a budget, with an arrival still queued for a resource that is not
settled. -/
def StopsShort (ctx : TraversalContext) (t : Traversal pq) : Prop :=
  ∃ u, turn ctx t = .stop u ∧ ∃ e ∈ pq.contents u.queue, e.parent.isSome = true ∧ e.node ∉ u.settled

/-- No turn of the traversal stops short. -/
def RunsOut (ctx : TraversalContext) (t : Traversal pq) : Prop :=
  ∀ s, t.enter ctx = .ok s → ∀ v, Lib.Turns.Reaches (turn ctx) s v → ¬StopsShort ctx v

/-- With its records complete, a traversal that runs out lands all its hops, and one that
settles the targets of all its hops runs out. -/
theorem landed_iff (fresh : t.Fresh) (h : RunCase ctx t (.success, t'))
    (hkept : t'.truncated = false) :
    (RunsOut ctx t → ∀ hop ∈ t'.expl.hops, ∃ i, Targets ctx.topo hop i ∧ Landed ctx t' hop i) ∧
    ((∀ hop ∈ t'.expl.hops, hop.accepted = true → ∃ i, Targets ctx.topo hop i ∧ i ∈ t'.settled) →
      RunsOut ctx t) := by
  cases h with
  | refused hst => cases hst
  | @blocked _ _ _ horigin hclosed htidy =>
    have hhops : t'.expl.hops = [] := htidy.hops.trans fresh.hops
    refine ⟨by simp [hhops], fun _ s hs => ?_⟩
    have hcases := enter_cases ctx fresh
    rw [hs] at hcases
    cases hcases with
    | seeded horigin' hopen hcan =>
      obtain rfl := Option.some.inj (horigin.indexOf.symm.trans horigin'.indexOf)
      obtain rfl := Option.some.inj (horigin.resourceAt.symm.trans horigin'.resourceAt)
      rcases hclosed with hfence | hrefuses
      · exact absurd hopen hfence
      · rw [hcan] at hrefuses
        cases hrefuses
  | @traversed i origin s u horigin _ _ henter htidy _ _ hstops =>
    have hpaid : Paid ctx u.flushOrTruncate :=
      paid_steps (paid_seeded fresh horigin) (final_steps htidy hstops) hkept
    have hflush : Tidy ctx.topo u u.flushOrTruncate := tidy_flushOrTruncate
    constructor
    · intro hruns hop hhop
      obtain ⟨j, htarget, hplace⟩ := hpaid.hops hop hhop
      refine ⟨j, htarget, ?_⟩
      rcases hplace with hlanded | ⟨e, he, rfl, hparent, hpotential⟩
      · exact hlanded
      · obtain ⟨v, hreach, hturn⟩ := hstops.last
        have hset : e.node ∈ u.flushOrTruncate.settled := by
          by_contra hnot
          rw [hflush.settled] at hnot
          exact hruns s henter v hreach ⟨u, hturn, e, hflush.queue ▸ he, hparent, hnot⟩
        exact ⟨hset, hpotential ▸ hpaid.settled e he hset⟩
    · rintro hsettled s' hs' v hreach ⟨u', hturn, e, he, hparent, hset⟩
      obtain rfl := Except.ok.inj (henter.symm.trans hs')
      obtain rfl := hstops.unique (hreach.stops (.stop hturn))
      rw [← hflush.queue] at he
      rw [← hflush.settled] at hset
      obtain ⟨hop, hhop, haccepted, htarget⟩ := hpaid.arrivals e he hparent
      obtain ⟨j, htarget', hland⟩ := hsettled hop hhop haccepted
      exact hset (htarget.unique htarget' ▸ hland)

end Traversal

namespace PropagationEngine

open Traversal

variable {pq : EntryQueue} {topo : Topology} {policy : PropagationPolicy}
  {ledger : PropagationLedger} {fences : Option FenceTable} {pins : List (Option Generation)}
  {liveEpoch : Epoch} {request : PropagationRequest}

/-- What a traversal has delivered is there when the request is done. -/
theorem delivered_progress {s : PressureSignal} {t : Traversal pq} {m : Magnitude} {i : Nat}
    (hs : s ∈ liveSignals policy ledger request)
    (hrun : traversalOf pq topo policy ledger fences pins request s = (.success, t))
    (hdel : DeliveredAt s m i t.acc) :
    DeliveredAt s m i (progress pq topo policy ledger fences pins request).acc := by
  refine progress_established (P := fun p => ∀ s', Admissible
    (traversalContext topo policy ledger fences pins request s') p.acc)
    (Q := fun p => DeliveredAt s m i p.acc) hs ?_ ?_ ?_ ?_
  · intro p hp s'
    rw [hp.acc]
    exact .empty
  · exact fun p s' _ hp => admissible_traverse hp
  · intro _
    unfold traversalOf at hrun
    cases traverse_cases pq topo policy ledger fences pins request
      (progressBefore pq topo policy ledger fences pins request s) s with
    | refused hst _ _ _ _ _ _ hrun' =>
      cases hrun.symm.trans hrun'
      cases hst
    | ran _ hacc _ _ _ _ _ _ _ hrun' =>
      cases hrun.symm.trans hrun'
      exact hacc ▸ hdel
  · intro p s' _ hp hq
    cases traverse_cases pq topo policy ledger fences pins request p s' with
    | refused _ _ hacc => exact hacc ▸ hq
    | ran hrun' hacc =>
      rw [hacc]
      exact delivered_run (t := startTraversal pq topo policy request p s') hq (hp s') hrun'

/-- The hop led to a resource that the traversal settled, and the outcome reports the signal
there with at least the magnitude of the hop. -/
structure Real (topo : Topology) (s : PressureSignal) (t : Traversal pq) (o : PropagationOutcome)
    (h : HopRecord) : Prop where
  settled : ∃ i ∈ t.settled, Targets topo h i
  reported : ∃ n ∈ o.nodes, n.resource = h.dst ∧ n.received = true ∧
    (n.contributionsTruncated = true ∨ ∃ x ∈ n.contributions, x.source = s.source ∧
      x.signal = s.id ∧ h.potentialAfter.toMagnitude.raw ≤ x.magnitude.raw)

/-- A landed hop is real. -/
theorem real_of_landed {s : PressureSignal} {t : Traversal pq} {o : PropagationOutcome}
    {h : HopRecord} {i : Nat} (hs : s ∈ liveSignals policy ledger request)
    (hrep : Report pq topo policy ledger fences liveEpoch request pins o)
    (hrun : traversalOf pq topo policy ledger fences pins request s = (.success, t))
    (htarget : Targets topo h i)
    (hlanded : Landed (traversalContext topo policy ledger fences pins request s) t h i) :
    Real topo s t o h := by
  refine ⟨⟨i, hlanded.settled, htarget⟩, ?_⟩
  obtain ⟨a, ha, hdelivered⟩ := delivered_progress hs hrun hlanded.delivered
  obtain ⟨r, hr, hid⟩ := htarget
  obtain ⟨r', hr', hid'⟩ := keyed_progress i a ha
  obtain rfl := Option.some.inj (hr.symm.trans hr')
  refine ⟨nodeOutcome policy a, ?_, hid'.trans hid, hdelivered.received, hdelivered.contributed⟩
  rw [hrep.nodes]
  exact mem_aggregateNodes.mpr ⟨i, a, ha, rfl⟩

/-- A refused traversal has no loop to stop. -/
theorem runsOut_of_refused {ctx : TraversalContext} {t t' : Traversal pq} {st : Status}
    (h : t.run ctx = (st, t')) (hst : st.ok = false) : RunsOut ctx t := by
  intro s hs
  unfold run at h
  rw [hs] at h
  cases h
  cases hst

/-- Behind a complete outcome no traversal is truncated. -/
theorem untruncated_live (hpins : resolvePins topo request.pins = .ok pins)
    (hok : (propagate pq (.of topo policy ledger fences liveEpoch) request).1.status.ok = true)
    (hcomplete : (propagate pq (.of topo policy ledger fences liveEpoch) request).1.complete = true) :
    ∀ s ∈ liveSignals policy ledger request,
      (traversalOf pq topo policy ledger fences pins request s).2.truncated = false := by
  rcases propagate_report pq topo policy ledger fences liveEpoch request with
    ⟨hsilent, -⟩ | ⟨pins', hrep⟩
  · rw [hsilent.status] at hok
    cases hok
  obtain rfl := Except.ok.inj (hrep.ready.pins.symm.trans hpins)
  exact fun s hs => truncated_traversalOf hs (hrep.untruncated hcomplete)

/-- In a complete outcome every reported hop is real exactly when no live signal's traversal
stops short on a budget. -/
theorem hops_real_iff_runsOut (pq : EntryQueue) (topo : Topology) (policy : PropagationPolicy)
    (ledger : PropagationLedger) (fences : Option FenceTable) (liveEpoch : Epoch)
    (request : PropagationRequest) (pins : List (Option Generation))
    (hpins : resolvePins topo request.pins = .ok pins)
    (hok : (propagate pq (.of topo policy ledger fences liveEpoch) request).1.status.ok = true)
    (hcomplete : (propagate pq (.of topo policy ledger fences liveEpoch) request).1.complete = true) :
    let outcome := (propagate pq (.of topo policy ledger fences liveEpoch) request).1
    (∀ e ∈ outcome.explanations, ∀ h ∈ e.hops, h.accepted = true →
      ∃ s ∈ liveSignals policy ledger request, e.source = s.source ∧
        Real topo s (traversalOf pq topo policy ledger fences pins request s).2 outcome h) ↔
      ∀ s ∈ liveSignals policy ledger request,
        RunsOut (traversalContext topo policy ledger fences pins request s)
          (startTraversal pq topo policy request
            (progressBefore pq topo policy ledger fences pins request s) s) := by
  intro outcome
  rcases propagate_report pq topo policy ledger fences liveEpoch request with
    ⟨hsilent, -⟩ | ⟨pins', hrep⟩
  · rw [hsilent.status] at hok
    cases hok
  obtain rfl := Except.ok.inj (hrep.ready.pins.symm.trans hpins)
  have hkept := untruncated_live hpins hok hcomplete
  constructor
  · intro hreal s hs
    cases hst : (traversalOf pq topo policy ledger fences pins' request s).1.ok with
    | false => exact runsOut_of_refused rfl hst
    | true =>
      obtain ⟨t, htrav, hrun⟩ := traversalOf_ok hst
      obtain ⟨e, he, hsource, hhops⟩ := explanation_of_live hs hst
      have hkept' := hkept s hs
      rw [htrav] at hhops hkept'
      refine (landed_iff startTraversal_fresh hrun hkept').2 fun hop hhop haccepted => ?_
      rw [← hrep.explanations] at he
      obtain ⟨s', hs', hsource', hreal'⟩ := hreal e he hop (hhops ▸ hhop) haccepted
      obtain rfl := live_source_injective hs hs' (hsource.symm.trans hsource')
      rw [htrav] at hreal'
      obtain ⟨i, hset, htarget⟩ := hreal'.settled
      exact ⟨i, htarget, hset⟩
  · intro hruns e he h hh haccepted
    rw [hrep.explanations] at he
    rcases explanation_from e he with hnone | ⟨s, hs, hsource, hst, hhops, -⟩
    · rw [hnone] at hh
      cases hh
    · obtain ⟨t, htrav, hrun⟩ := traversalOf_ok (by rw [hst]; rfl)
      have hkept' := hkept s hs
      rw [htrav] at hhops hkept'
      obtain ⟨i, htarget, hlanded⟩ := (landed_iff startTraversal_fresh hrun hkept').1 (hruns s hs)
        h (hhops ▸ hh)
      refine ⟨s, hs, hsource, ?_⟩
      rw [htrav]
      exact real_of_landed hs hrep htrav htarget hlanded

end PropagationEngine

end Backpressure
