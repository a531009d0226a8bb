import Backpressure.Engine.Probe
import Backpressure.Engine.Receipt

/-!
# What fences keep out

The traversal asks the fence table for one governing fence at the origin, at the target of
every edge and at the source of every expansion. What governs is therefore honoured on every
run; a live refusal of ingress that another fence masks is not.
-/

namespace Backpressure

namespace Traversal

variable {pq : EntryQueue} {ctx : TraversalContext} {t t' : Traversal pq} {c c' : Control}

/-- The fences that govern the ends of a hop let it pass. -/
structure Unfenced (ctx : TraversalContext) (hop : HopRecord) : Prop where
  src_in : ctx.ingressFence hop.src = none
  src_out : ctx.egressFence hop.src = none
  dst_in : ctx.ingressFence hop.dst = none

/-- Received pressure is nowhere a governing fence keeps it out. -/
def Admissible (ctx : TraversalContext) (acc : Accumulators) : Prop :=
  ∀ i a, acc.lookup i = some a → a.received = true → Enterable ctx i

theorem Admissible.empty : Admissible ctx ∅ := fun i a ha => by
  cases (AList.lookup_empty i).symm.trans ha

theorem Admissible.alike {acc acc' : Accumulators} (h : Admissible ctx acc)
    (halike : acc.Alike ctx.topo acc') : Admissible ctx acc' := by
  intro i a' ha' hrecv
  rcases halike.adds i a' ha' with ⟨a, ha, hsame⟩ | ⟨r, -, hsame⟩
  · exact h i a ha (hsame.received ▸ hrecv)
  · rw [hsame.received] at hrecv
    cases hrecv

theorem Admissible.update {acc : Accumulators} {i : Nat} {id : ResourceId}
    {f : NodeAccumulator → NodeAccumulator} (h : Admissible ctx acc)
    (hrecv : ∀ a : NodeAccumulator, (f a).received = true → Enterable ctx i) :
    Admissible ctx (acc.update i id f) := by
  intro j a ha hreceived
  by_cases hj : j = i
  · subst hj
    rw [Accumulators.lookup_update_self] at ha
    obtain rfl := Option.some.inj ha
    exact hrecv _ hreceived
  · rw [Accumulators.lookup_update_ne hj] at ha
    exact h j a ha hreceived

/-- Everything queued, settled or reported respects the governing fences. -/
structure Respectful (ctx : TraversalContext) (c : Control) (t : Traversal pq) : Prop where
  queue : ∀ e ∈ pq.contents t.queue, Enterable ctx e.node
  current : c.All fun e _ => Enterable ctx e.node
  hops : ∀ h ∈ t.expl.hops, Unfenced ctx h
  acc : Admissible ctx t.acc

theorem respectful_step (h : Respectful ctx c t) (hstep : Step ctx c t c' t') :
    Respectful ctx c' t' := by
  cases hstep with
  | tidy htidy =>
    exact ⟨htidy.queue ▸ h.queue, h.current, htidy.hops ▸ h.hops, h.acc.alike htidy.acc⟩
  | skip hpop =>
    exact ⟨fun e he => h.queue e ((Lib.PriorityQueue.mem_pop hpop).mpr (.inr he)), trivial, h.hops,
      h.acc⟩
  | settle hpop _ _ hres =>
    have henter := h.queue _ (Lib.PriorityQueue.top_mem hpop)
    refine ⟨fun e he => h.queue e ((Lib.PriorityQueue.mem_pop hpop).mpr (.inr he)), henter, h.hops, ?_⟩
    exact h.acc.update fun _ _ => henter
  | abandon hpop _ htidy =>
    refine ⟨fun e he => ?_, trivial, htidy.hops ▸ h.hops, h.acc.alike htidy.acc⟩
    rw [htidy.queue] at he
    exact h.queue e ((Lib.PriorityQueue.mem_pop hpop).mpr (.inr he))
  | accept hexp hcross =>
    obtain ⟨fanout, hadm⟩ := hcross.admitted
    obtain ⟨toRes, hadmitted⟩ := of_admits hadm
    obtain ⟨r, hr, -, hin⟩ := h.current
    obtain rfl := Option.some.inj (hr.symm.trans hexp.resourceAt)
    have htarget : Enterable ctx (_ : Nat) :=
      ⟨toRes, hadmitted.resourceAt, hadmitted.receives, hadmitted.target ▸ hadmitted.ingress⟩
    refine ⟨fun e he => ?_, h.current, fun hop hhop => ?_, h.acc⟩
    · rcases Lib.PriorityQueue.mem_push.mp he with rfl | he
      · exact htarget
      · exact h.queue e he
    · rcases List.mem_append.mp hhop with hhop | hhop
      · exact h.hops hop hhop
      · rw [List.mem_singleton.mp hhop]
        exact ⟨hin, hexp.egress, hadmitted.ingress⟩
  | leave => exact ⟨h.queue, trivial, h.hops, h.acc⟩

theorem respectful_run (fresh : t.Fresh) (hacc : Admissible ctx t.acc)
    (h : RunCase ctx t (.success, t')) :
    Admissible ctx t'.acc ∧ ∀ hop ∈ t'.expl.hops, Unfenced ctx hop := by
  cases h with
  | refused hst => cases hst
  | blocked horigin _ htidy =>
    refine ⟨Admissible.alike ?_ htidy.acc, ?_⟩
    · refine hacc.update (f := fun a => { a with received := false }) fun _ hrecv => ?_
      cases hrecv
    · have hhops : t'.expl.hops = [] := htidy.hops.trans fresh.hops
      simp [hhops]
  | @traversed i origin s u horigin hfence hrecv _ htidy _ _ hstops =>
    have hseed : Respectful ctx .idle { t with queue := pq.push t.queue (originEntry ctx i) } := by
      refine ⟨fun e he => ?_, trivial, ?_, hacc⟩
      · rw [fresh.queue] at he
        rcases Lib.PriorityQueue.mem_push.mp he with rfl | he
        · exact ⟨_, horigin.resourceAt, hrecv, hfence⟩
        · exact absurd he Lib.PriorityQueue.not_mem_empty
      · change ∀ h ∈ t.expl.hops, Unfenced ctx h
        simp [fresh.hops]
    have hfinal := (final_steps htidy hstops).invariant (P := Respectful ctx) hseed
      fun _ _ _ _ => respectful_step
    exact ⟨hfinal.acc, hfinal.hops⟩

end Traversal

namespace PropagationEngine

open Traversal

variable {pq : EntryQueue} {topo : Topology} {policy : PropagationPolicy}
  {ledger : PropagationLedger} {fences : Option FenceTable} {pins : List (Option Generation)}
  {liveEpoch : Epoch} {request : PropagationRequest}

/-- The traversal of one signal keeps received pressure admissible for all. -/
theorem admissible_traverse {p : Progress} {s : PressureSignal}
    (hp : ∀ s', Admissible (traversalContext topo policy ledger fences pins request s') p.acc) :
    ∀ s', Admissible (traversalContext topo policy ledger fences pins request s')
      (traverse pq topo policy ledger fences pins request p s).acc := by
  intro s'
  cases traverse_cases pq topo policy ledger fences pins request p s with
  | refused _ _ hacc => exact hacc ▸ hp s'
  | ran hrun hacc =>
    have hadm := (respectful_run startTraversal_fresh (hp s) hrun).1
    exact hacc ▸ hadm

/-- What the progress of a request keeps about fences; the signal plays no part in it. -/
structure FencesKept (topo : Topology) (policy : PropagationPolicy) (ledger : PropagationLedger)
    (fences : Option FenceTable) (pins : List (Option Generation)) (request : PropagationRequest)
    (p : Progress) : Prop where
  acc : ∀ s, Admissible (traversalContext topo policy ledger fences pins request s) p.acc
  hops : ∀ s, ∀ e ∈ p.explanations, ∀ h ∈ e.hops,
    Unfenced (traversalContext topo policy ledger fences pins request s) h

theorem fencesKept_progress : FencesKept topo policy ledger fences pins request
    (progress pq topo policy ledger fences pins request) := by
  refine progress_invariant (fun p hp => ⟨fun s => ?_, fun s e he h hh => ?_⟩)
    fun p s _ hp => ?_
  · rw [hp.acc]
    exact .empty
  · rw [(hp.replays e he).1] at hh
    cases hh
  · refine ⟨admissible_traverse hp.acc, fun s' e he h hh => ?_⟩
    cases traverse_cases pq topo policy ledger fences pins request p s with
    | refused _ _ _ hexpl => exact hp.hops s' e (hexpl ▸ he) h hh
    | ran hrun _ hexpl hhops =>
      have hunf := (respectful_run startTraversal_fresh (hp.acc s) hrun).2
      rw [hexpl] at he
      rcases List.mem_append.mp he with he | he
      · exact hp.hops s' e he h hh
      · rw [List.mem_singleton.mp he, hhops] at hh
        have := hunf h hh
        exact ⟨this.src_in, this.src_out, this.dst_in⟩

/-- Pressure does not enter the resource. -/
def KeepsOut (o : PropagationOutcome) (resource : ResourceId) : Prop :=
  (∀ n ∈ o.nodes, n.resource = resource → n.received = false) ∧
    ∀ e ∈ o.explanations, ∀ h ∈ e.hops, h.accepted = true → h.dst ≠ resource

/-- Pressure does not leave the resource. -/
def KeepsIn (o : PropagationOutcome) (resource : ResourceId) : Prop :=
  ∀ e ∈ o.explanations, ∀ h ∈ e.hops, h.accepted = true → h.src ≠ resource

/-- What the live fences on a resource ask of an outcome, whichever of them governs. -/
structure RefusalsHonoured (fences : FenceTable) (resource : ResourceId) (now : Tick)
    (o : PropagationOutcome) : Prop where
  ingress : (∃ f ∈ fences.live resource now, f.refusesIngress = true) → KeepsOut o resource
  egress : (∃ f ∈ fences.live resource now, f.refusesEgress = true) → KeepsIn o resource

theorem ingressFence_none {ctx : TraversalContext} {r : ResourceId} {g : Fence}
    (h : ctx.ingressFence r = none) (hg : ctx.governing r = some g) : g.refusesIngress = false := by
  rw [TraversalContext.ingressFence, hg, Option.filter_some] at h
  simpa using h

theorem egressFence_none {ctx : TraversalContext} {r : ResourceId} {g : Fence}
    (h : ctx.egressFence r = none) (hg : ctx.governing r = some g) : g.refusesEgress = false := by
  rw [TraversalContext.egressFence, hg, Option.filter_some] at h
  simpa using h

section Honoured

variable {table : FenceTable} {resource : ResourceId}

/-- A live refusal of ingress keeps pressure out, unless it is masked. -/
theorem keepsOut_progress (hmask : ¬table.Masked resource request.now)
    (hlive : ∃ f ∈ table.live resource request.now, f.refusesIngress = true)
    {o : PropagationOutcome}
    (hrep : Report pq topo policy ledger (some table) liveEpoch request pins o) :
    KeepsOut o resource := by
  obtain ⟨g, hg, hin⟩ := FenceTable.governing_refusesIngress_iff.mpr ⟨hlive, hmask⟩
  have hkept : FencesKept topo policy ledger (some table) pins request
      (progress pq topo policy ledger (some table) pins request) := fencesKept_progress
  have hgoverns : ∀ s, (traversalContext topo policy ledger (some table) pins request s).governing
      resource = some g := fun _ => hg
  refine ⟨fun n hn hres => ?_, fun e he h hh _ hdst => ?_⟩
  · rw [hrep.nodes] at hn
    obtain ⟨i, a, ha, rfl⟩ := mem_aggregateNodes.mp hn
    cases hrecv : a.received with
    | false => exact hrecv
    | true =>
      obtain ⟨r, hr, -, hopen⟩ := hkept.acc {} i a ha hrecv
      obtain ⟨r', hr', hid⟩ := keyed_progress i a ha
      obtain rfl := Option.some.inj (hr.symm.trans hr')
      have hsame : r.id = resource := hid.symm.trans hres
      rw [hsame] at hopen
      exact absurd hin (by simp [ingressFence_none hopen (hgoverns {})])
  · rw [hrep.explanations] at he
    have hopen := (hkept.hops {} e he h hh).dst_in
    rw [hdst] at hopen
    exact absurd hin (by simp [ingressFence_none hopen (hgoverns {})])

/-- A live refusal of egress keeps pressure in, masked or not: whatever governs instead
refuses ingress, and the resource is never expanded. -/
theorem keepsIn_progress (hlive : ∃ f ∈ table.live resource request.now, f.refusesEgress = true)
    {o : PropagationOutcome}
    (hrep : Report pq topo policy ledger (some table) liveEpoch request pins o) :
    KeepsIn o resource := by
  obtain ⟨f, hf, -⟩ := hlive
  obtain ⟨g, hg, hrefuses⟩ := FenceTable.governing_refuses hf
  have hkept : FencesKept topo policy ledger (some table) pins request
      (progress pq topo policy ledger (some table) pins request) := fencesKept_progress
  have hgoverns : ∀ s, (traversalContext topo policy ledger (some table) pins request s).governing
      resource = some g := fun _ => hg
  intro e he h hh _ hsrc
  rw [hrep.explanations] at he
  have hunfenced := hkept.hops {} e he h hh
  have hin := hunfenced.src_in
  have hout := hunfenced.src_out
  rw [hsrc] at hin hout
  rcases hrefuses with hegress | hingress
  · exact absurd hegress (by simp [egressFence_none hout (hgoverns {})])
  · exact absurd hingress (by simp [ingressFence_none hin (hgoverns {})])

theorem honoured_of_not_masked (hmask : ¬table.Masked resource request.now) :
    RefusalsHonoured table resource request.now
      (propagate pq (.of topo policy ledger (some table) liveEpoch) request).1 := by
  rcases propagate_report pq topo policy ledger (some table) liveEpoch request with
    ⟨hsilent, -⟩ | ⟨pins, hrep⟩
  · refine ⟨fun _ => ⟨?_, ?_⟩, fun _ => ?_⟩
    · simp [hsilent.nodes]
    · simp [hsilent.explanations]
    · unfold KeepsIn
      simp [hsilent.explanations]
  · exact ⟨fun hlive => keepsOut_progress hmask hlive hrep, fun hlive => keepsIn_progress hlive hrep⟩

end Honoured

/-! ## Pressure enters past a masked refusal -/

/-- An open origin of a live signal has received when the request is done. -/
theorem received_origin (pq : EntryQueue) (hpolicy : policy.Valid) {s : PressureSignal} {i : Nat} {origin : Resource}
    (hs : s ∈ liveSignals policy ledger request)
    (horigin : Origin (traversalContext topo policy ledger fences pins request s) i origin)
    (hopen : (traversalContext topo policy ledger fences pins request s).ingressFence origin.id =
      none) (hcan : origin.canReceive = true) :
    DeliveredAt s s.observation.magnitude i
      (progress pq topo policy ledger fences pins request).acc := by
  refine progress_established (P := fun p => ∀ s', Admissible
    (traversalContext topo policy ledger fences pins request s') p.acc)
    (Q := fun p => DeliveredAt s s.observation.magnitude i p.acc) hs ?_ ?_ ?_ ?_
  · intro p hp s'
    rw [hp.acc]
    exact .empty
  · exact fun p s' _ hp => admissible_traverse hp
  · intro hp
    cases traverse_cases pq topo policy ledger fences pins request
      (progressBefore pq topo policy ledger fences pins request s) s with
    | refused _ hstart =>
      exact absurd ⟨⟨i, origin, horigin⟩, (accepted_of_mem (List.mem_filter.mp hs).1).seed⟩ hstart
    | ran hrun hacc =>
      rw [hacc]
      exact delivered_origin startTraversal_fresh hpolicy.visited horigin hopen hcan hrun
  · intro p s' _ hp hdel
    cases traverse_cases pq topo policy ledger fences pins request p s' with
    | refused _ _ hacc => exact hacc ▸ hdel
    | ran hrun hacc =>
      rw [hacc]
      exact delivered_run (t := startTraversal pq topo policy request p s') hdel (hp s') hrun

/-- The open origin of a live signal is reported as received. -/
theorem reported_origin {s : PressureSignal} {i : Nat} {origin : Resource} {o : PropagationOutcome}
    (hrep : Report pq topo policy ledger fences liveEpoch request pins o)
    (hs : s ∈ liveSignals policy ledger request)
    (horigin : Origin (traversalContext topo policy ledger fences pins request s) i origin)
    (hopen : (traversalContext topo policy ledger fences pins request s).ingressFence origin.id =
      none) (hcan : origin.canReceive = true) :
    ∃ n ∈ o.nodes, n.resource = origin.id ∧ n.received = true := by
  obtain ⟨a, ha, hdelivered⟩ := received_origin pq hrep.ready.policy_valid hs horigin hopen hcan
  obtain ⟨r, hr, hid⟩ := keyed_progress i a ha
  obtain rfl := Option.some.inj (horigin.resourceAt.symm.trans hr)
  refine ⟨nodeOutcome policy a, ?_, hid, hdelivered.received⟩
  rw [hrep.nodes]
  exact mem_aggregateNodes.mpr ⟨i, a, ha, rfl⟩

/-- A request at a masked resource, and nothing else in the topology. -/
theorem entered_of_masked (pq : EntryQueue) {table : FenceTable} {resource : ResourceId} {now : Tick}
    (hmask : table.Masked resource now) : ∃ topo : Topology, topo.Built ∧
      ∃ n ∈ (propagate pq (.of topo probePolicy (.make 1 1 1) (some table) probeEpoch)
          (probeRequest probePolicy topo resource now)).1.nodes,
        n.resource = resource ∧ n.received = true := by
  obtain ⟨⟨f, hf, -⟩, hbarrier, g, hhead, hegress⟩ := hmask
  obtain ⟨hfmem, hfon⟩ := List.mem_filter.mp hf
  have hvalid : resource.valid = true := by
    have hsame : f.resource = resource := by
      rw [Fence.liveOn, Bool.and_eq_true, beq_iff_eq] at hfon
      exact hfon.1
    exact hsame ▸ (table.wellFormed f hfmem).resource
  let origin := probeResource resource
  obtain ⟨topo, hbuilt, hres, hdigest⟩ := Topology.build_singleton (r := origin)
    (by simp [origin, probeResource, Resource.validate, hvalid, Generation.known])
  refine ⟨topo, hbuilt, ?_⟩
  have hpolicy : probePolicy.validate.ok = true := by decide
  have hready : Ready topo probePolicy probeEpoch _ (probeRequest probePolicy topo resource now) :=
    ready_probe hpolicy hdigest hvalid
  have hrep := report_of_ready pq (.make 1 1 1) (some table) hready
  have hat : topo.resourceAt 0 = some origin := by
    rw [Topology.resourceAt, hres]
    rfl
  have hgoverning : table.governing resource now = some g :=
    (FenceTable.governing_eq_head? hbarrier).trans hhead
  have hlive : probeSignal probePolicy topo resource now ∈ liveSignals probePolicy (.make 1 1 1)
      (probeRequest probePolicy topo resource now) := by
    rw [liveSignals_probe hpolicy hdigest hvalid]
    exact List.mem_singleton.mpr rfl
  refine reported_origin hrep hlive ⟨Topology.indexOf_of_resourceAt hat, hat, rfl⟩ ?_ rfl
  · change (table.governing resource now).filter Fence.refusesIngress = none
    rw [hgoverning, Option.filter_some, Fence.refusesIngress, hegress]
    rfl

/-- The live fences on a resource are honoured on every run exactly when none of them masks a
refusal of ingress. -/
theorem refusals_honoured_iff (pq : EntryQueue) (fences : FenceTable) (resource : ResourceId)
    (now : Tick) :
    (∀ (topo : Topology) (policy : PropagationPolicy) (ledger : PropagationLedger)
      (liveEpoch : Epoch) (request : PropagationRequest), topo.Built → request.now = now →
      RefusalsHonoured fences resource now
        (propagate pq (.of topo policy ledger (some fences) liveEpoch) request).1) ↔
      ¬fences.Masked resource now := by
  constructor
  · intro h hmask
    obtain ⟨topo, hbuilt, n, hn, hres, hrecv⟩ := entered_of_masked pq hmask
    obtain ⟨f, hf, hkind⟩ := hmask.1
    have hrefuses : f.refusesIngress = true := by simp [Fence.refusesIngress, hkind]
    have hclosed := ((h topo probePolicy (.make 1 1 1) probeEpoch _ hbuilt rfl).ingress
      ⟨f, hf, hrefuses⟩).1 n hn hres
    rw [hrecv] at hclosed
    cases hclosed
  · rintro hmask topo policy ledger liveEpoch request - rfl
    exact honoured_of_not_masked hmask

/-- A refusal of egress, then a refusal of ingress, on one resource. -/
def maskedFences : FenceTable where
  fences :=
    [{ id := ⟨1⟩, resource := ⟨7⟩, kind := .refuseEgress, epoch := ⟨1⟩ },
      { id := ⟨2⟩, resource := ⟨7⟩, kind := .refuseIngress, epoch := ⟨1⟩ }]
  wellFormed f hf := by
    simp only [List.mem_cons, List.not_mem_nil, or_false] at hf
    rcases hf with rfl | rfl <;> exact ⟨by decide, by decide, nofun⟩

/-- Pressure enters a resource whose refusal of ingress is the later of two fences. -/
theorem masked_refusal_entered :
    let topo := probeTopology [probeResource ⟨7⟩] []
    (∃ f ∈ maskedFences.live ⟨7⟩ 5, f.refusesIngress = true) ∧
      ¬RefusalsHonoured maskedFences ⟨7⟩ 5
        (propagate .scan (.of topo probePolicy (.make 1 1 1) (some maskedFences) probeEpoch)
          (probeRequest probePolicy topo ⟨7⟩ 5)).1 := by
  intro topo
  have hlive : ∃ f ∈ maskedFences.live ⟨7⟩ 5, f.refusesIngress = true := by decide
  refine ⟨hlive, fun h => ?_⟩
  have hentered : ∃ n ∈ (propagate .scan (.of topo probePolicy (.make 1 1 1) (some maskedFences)
      probeEpoch) (probeRequest probePolicy topo ⟨7⟩ 5)).1.nodes,
      n.resource = ⟨7⟩ ∧ n.received = true := by decide +kernel
  obtain ⟨n, hn, hres, hrecv⟩ := hentered
  exact absurd ((h.ingress hlive).1 n hn hres) (by simp [hrecv])

end PropagationEngine

end Backpressure
