import Backpressure.Engine.Alone
import Backpressure.Engine.Strongest
import Backpressure.Lib.Dominated

/-!
# What lets more through

A stronger signal, a broader authority, a lower floor of the policy, a lifted fence or a dropped pin
lets at least as much pressure through, as long as budgets, hops and damping hold nothing back. What
is applied at a resource then grows under every rule that adds contributions up or takes the largest
of them.
-/

namespace Backpressure

open Lib
open Lib.BestFirst (Arrives)
open List (SublistForall₂)

namespace TraversalContext

variable {ctx ctx' : TraversalContext} {u v k : Nat} {edge : DependencyEdge}

/-- The second context lets through what the first one does, and no less of it. -/
structure Wider (ctx ctx' : TraversalContext) : Prop where
  topo : ctx'.topo = ctx.topo
  origin : ctx'.signal.origin = ctx.signal.origin
  magnitude : ctx.signal.observation.magnitude.raw ≤ ctx'.signal.observation.magnitude.raw
  weight : ctx.signal.weightQ16.toNat ≤ ctx'.signal.weightQ16.toNat
  floor : ctx'.policy.minPropagatable.raw ≤ ctx.policy.minPropagatable.raw
  pins : ∀ k edge, ctx.pinRefuses k edge = false → ctx'.pinRefuses k edge = false
  covered : ∀ id, ctx.signal.authority.covers id = true → ctx'.signal.authority.covers id = true
  ingress : ∀ id, ctx.ingressFence id = none → ctx'.ingressFence id = none
  egress : ∀ id, ctx.egressFence id = none → ctx'.egressFence id = none

theorem Wider.admissible (h : Wider ctx ctx') (hedge : ctx.Admissible u v k edge) :
    ctx'.Admissible u v k edge where
  leaves := by
    obtain ⟨res, hres, hforwards, hegress⟩ := hedge.leaves
    exact ⟨res, h.topo ▸ hres, hforwards, h.egress _ hegress⟩
  outEdge := h.topo ▸ hedge.outEdge
  edgeAt := h.topo ▸ hedge.edgeAt
  pin := h.pins k edge hedge.pin
  attenuation := hedge.attenuation
  pressure := hedge.pressure
  plain := hedge.plain
  target := h.topo ▸ hedge.target
  receives := h.topo ▸ hedge.receives
  covered := h.covered _ hedge.covered
  ingress := h.ingress _ hedge.ingress

theorem Wider.seed (h : Wider ctx ctx') : ctx.seed.raw ≤ ctx'.seed.raw := by
  unfold TraversalContext.seed
  rw [Potential.raw_fromMagnitude, Potential.raw_fromMagnitude]
  exact Nat.mul_le_mul_right _ h.magnitude

theorem Wider.arrives (h : Wider ctx ctx') {i p : Nat}
    (harrives : Arrives ctx.network i ctx.seed.raw v p) :
    ∃ q, Arrives ctx'.network i ctx'.seed.raw v q ∧ p ≤ q := by
  refine harrives.mono (fun u v f harc => ?_) ?_ h.seed
  · obtain ⟨k, edge, hedge, rfl⟩ := harc
    exact ⟨k, edge, h.admissible hedge, rfl⟩
  · show ctx'.floorPotential.raw ≤ ctx.floorPotential.raw
    unfold floorPotential
    rw [Potential.raw_fromMagnitude, Potential.raw_fromMagnitude]
    exact Nat.mul_le_mul_right _ h.floor

end TraversalContext

namespace Traversal

open TraversalContext (Wider)

variable {ctx ctx' : TraversalContext} {i i' : Nat} {origin origin' : Resource}
  {entries entries' : List QueueEntry} {e : QueueEntry}

/-- What is settled is settled with no less in the wider context. -/
theorem Strongest.wider (h : Strongest ctx i origin entries)
    (h' : Strongest ctx' i' origin' entries') (hwider : Wider ctx ctx') (he : e ∈ entries) :
    ∃ e' ∈ entries', e'.node = e.node ∧ e.potential.raw ≤ e'.potential.raw := by
  have hindex := h'.start.indexOf
  have hsame := h'.start.resourceAt
  rw [hwider.topo, hwider.origin] at hindex
  rw [hwider.topo] at hsame
  obtain rfl : i = i' := Option.some.inj (h.start.indexOf.symm.trans hindex)
  obtain rfl : origin = origin' := Option.some.inj (h.start.resourceAt.symm.trans hsame)
  obtain ⟨hopen, -⟩ := (h.reached e.node).mp ⟨e, he, rfl⟩
  have hopen' : Open ctx' origin := ⟨hopen.receives, hwider.ingress _ hopen.ingress⟩
  obtain ⟨q, harrives, hle⟩ := hwider.arrives (h.greatest e he).1
  obtain ⟨e', he', hnode⟩ := (h'.reached e.node).mpr ⟨hopen', q, harrives⟩
  have hgreatest := (h'.greatest e' he').2
  rw [hnode] at hgreatest
  exact ⟨e', he', hnode, hle.trans (hgreatest harrives)⟩

end Traversal

/-! ## Aggregation -/

namespace Contribution

/-- The second contribution counts for no less. -/
structure Below (c c' : Contribution) : Prop where
  magnitude : c.magnitude.raw ≤ c'.magnitude.raw
  weighted : c.weighted.raw ≤ c'.weighted.raw

end Contribution

section Aggregate

variable {policy : PropagationPolicy} {l l' : List Contribution} {best b : Magnitude}

theorem raw_foldl_largest_le {ms : List Magnitude} :
    (ms.foldl largest best).raw ≤ b.raw ↔ best.raw ≤ b.raw ∧ ∀ m ∈ ms, m.raw ≤ b.raw := by
  induction ms generalizing best with
  | nil => simp
  | cons m rest ih =>
    rw [List.foldl_cons, ih, List.forall_mem_cons]
    unfold largest
    split
    · constructor
      · rintro ⟨hm, hrest⟩
        exact ⟨by omega, hm, hrest⟩
      · exact fun h => h.2
    · constructor
      · rintro ⟨hbest, hrest⟩
        exact ⟨hbest, by omega, hrest⟩
      · exact fun h => ⟨h.1, h.2.2⟩

/-- The largest of what is read from some contributions. -/
theorem largest_mono {read : Contribution → Magnitude} {c c' : Contribution}
    (hread : ∀ x ∈ c :: l, ∃ y ∈ c' :: l', (read x).raw ≤ (read y).raw) :
    ((l.map read).foldl largest (read c)).raw ≤ ((l'.map read).foldl largest (read c')).raw := by
  obtain ⟨hfirst, hrest⟩ := (@raw_foldl_largest_le (read c') _ (l'.map read)).mp (Nat.le_refl _)
  have hall : ∀ y ∈ c' :: l', (read y).raw ≤ ((l'.map read).foldl largest (read c')).raw := by
    rw [List.forall_mem_cons]
    exact ⟨hfirst, fun y hy => hrest _ (List.mem_map_of_mem hy)⟩
  rw [raw_foldl_largest_le]
  refine ⟨?_, fun m hm => ?_⟩
  · obtain ⟨y, hy, hle⟩ := hread c List.mem_cons_self
    exact hle.trans (hall y hy)
  · obtain ⟨x, hx, rfl⟩ := List.mem_map.mp hm
    obtain ⟨y, hy, hle⟩ := hread x (List.mem_cons_of_mem c hx)
    exact hle.trans (hall y hy)

theorem saturatingSum_eq {sum : Nat} (hsum : sum ≤ 65536) :
    saturatingSum sum l = min 65536 (sum + (l.map fun c => c.magnitude.raw).sum) := by
  induction l generalizing sum with
  | nil =>
    rw [saturatingSum, List.map_nil, List.sum_nil]
    omega
  | cons c rest ih =>
    rw [saturatingSum, List.map_cons, List.sum_cons]
    split
    · omega
    · rw [ih (by omega)]
      omega

/-- Every rule but the one that looks at the priority first. -/
theorem aggregate_mono (hrule : policy.aggregation ≠ .priorityFirst)
    (h : SublistForall₂ Contribution.Below l l') :
    (aggregateContributions policy l).raw ≤ (aggregateContributions policy l').raw := by
  cases l with
  | nil => exact Nat.zero_le _
  | cons c rest =>
    cases l' with
    | nil => cases h
    | cons c' rest' =>
      unfold aggregateContributions
      dsimp only
      cases hagg : policy.aggregation with
      | priorityFirst => exact absurd hagg hrule
      | count => exact Nat.le_refl _
      | max =>
        refine largest_mono fun x hx => ?_
        obtain ⟨y, hy, hle⟩ := Dominated.exists_above h hx
        exact ⟨y, hy, hle.magnitude⟩
      | weightedMax =>
        refine largest_mono fun x hx => ?_
        obtain ⟨y, hy, hle⟩ := Dominated.exists_above h hx
        exact ⟨y, hy, hle.weighted⟩
      | saturatingSum =>
        have hsum := Dominated.sum_le h fun _ _ hbelow => hbelow.magnitude
        unfold Q16.fromRawSaturating
        dsimp only
        rw [saturatingSum_eq (Nat.zero_le _), saturatingSum_eq (Nat.zero_le _)]
        omega

theorem clamped_mono {a a' : NodeAccumulator} (hrule : policy.aggregation ≠ .priorityFirst)
    (h : SublistForall₂ Contribution.Below a.contributions a'.contributions) :
    (clampedAggregate policy a).raw ≤ (clampedAggregate policy a').raw := by
  have hle := aggregate_mono hrule h
  unfold clampedAggregate
  dsimp only
  split
  · split
    · exact Nat.le_refl _
    · omega
  · split
    · omega
    · exact hle

end Aggregate

/-! ## Batches -/

namespace PropagationEngine

open Traversal Tally
open TraversalContext (Wider)

variable {pq pq' : EntryQueue} {topo : Topology} {policy : PropagationPolicy}
  {ledger ledger' : PropagationLedger} {fences fences' : Option FenceTable} {liveEpoch : Epoch}
  {pins pins' : List (Option Generation)} {request request' : PropagationRequest}
  {s s' : PressureSignal} {i : Nat}

/-- Nothing but the gates holds the traversal of a signal back. -/
structure Unimpeded (pq : EntryQueue) (topo : Topology) (policy : PropagationPolicy)
    (ledger : PropagationLedger) (fences : Option FenceTable) (pins : List (Option Generation))
    (request : PropagationRequest) (s : PressureSignal) : Prop where
  ungranted :
    (traversalContext topo policy ledger fences pins request s).amplificationGranted = false
  ran : (traversalOf pq topo policy ledger fences pins request s).1.ok = true
  unhindered : (traversalOf pq topo policy ledger fences pins request s).2.Unhindered

theorem Unimpeded.strongest (h : Unimpeded pq topo policy ledger fences pins request s) :
    ∃ i origin, Strongest (traversalContext topo policy ledger fences pins request s) i origin
      (reach pq topo policy ledger fences pins request s) := by
  have hrun := strongest_run startTraversal_fresh h.ungranted h.ran h.unhindered
  rwa [settlements_startTraversal] at hrun

theorem weightedMagnitude_mono {m m' : Magnitude} (hm : m.raw ≤ m'.raw)
    (hweight : s.weightQ16.toNat ≤ s'.weightQ16.toNat) :
    (weightedMagnitude s m).raw ≤ (weightedMagnitude s' m').raw := by
  have hscaled := @Nat.div_le_div_right _ _ 65536 (Nat.mul_le_mul hm hweight)
  unfold weightedMagnitude Q16.fromRawSaturating
  dsimp only
  omega

theorem arrivalOf_below {ctx ctx' : TraversalContext} {e e' : QueueEntry} (hwider : Wider ctx ctx')
    (hle : e.potential.raw ≤ e'.potential.raw) :
    (arrivalOf ctx e).contribution.Below (arrivalOf ctx' e').contribution where
  magnitude := Potential.toMagnitude_mono hle
  weighted := weightedMagnitude_mono (Potential.toMagnitude_mono hle) hwider.weight

/-- The wider signal contributes no less. -/
theorem arrivalsOf_wider (hfree : Unimpeded pq topo policy ledger fences pins request s)
    (hfree' : Unimpeded pq' topo policy ledger' fences' pins' request' s')
    (hwider : Wider (traversalContext topo policy ledger fences pins request s)
      (traversalContext topo policy ledger' fences' pins' request' s')) :
    SublistForall₂ (fun x y : Arrival => x.contribution.Below y.contribution)
      (arrivalsOf pq topo policy ledger fences pins request i s)
      (arrivalsOf pq' topo policy ledger' fences' pins' request' i s') := by
  have hlength := @length_arrivalsOf pq topo policy ledger fences pins request s i
  cases harrivals : arrivalsOf pq topo policy ledger fences pins request i s with
  | nil => exact .nil
  | cons x rest =>
    rw [harrivals, List.length_cons] at hlength
    obtain rfl : rest = [] := List.length_eq_zero_iff.mp (by omega)
    have hx : x ∈ arrivalsOf pq topo policy ledger fences pins request i s := by
      rw [harrivals]
      exact List.mem_cons_self
    obtain ⟨e, he, rfl⟩ := List.mem_map.mp hx
    obtain ⟨he, hnode⟩ := List.mem_filter.mp he
    obtain ⟨_, _, hstrongest⟩ := hfree.strongest
    obtain ⟨_, _, hstrongest'⟩ := hfree'.strongest
    obtain ⟨e', he', hsame, hle⟩ := hstrongest.wider hstrongest' hwider he
    have hmem : arrivalOf (traversalContext topo policy ledger' fences' pins' request' s') e' ∈
        arrivalsOf pq' topo policy ledger' fences' pins' request' i s' := by
      refine List.mem_map_of_mem (List.mem_filter.mpr ⟨he', ?_⟩)
      rw [hsame]
      exact hnode
    exact List.sublistForall₂_iff.mpr
      ⟨[_], .cons (arrivalOf_below hwider hle) .nil, List.singleton_sublist.mpr hmem⟩

theorem length_arrivalsAt : (arrivalsAt pq topo policy ledger fences pins request i).length ≤
    (liveSignals policy ledger request).length := by
  rw [arrivalsAt_eq]
  generalize liveSignals policy ledger request = live
  induction live with
  | nil => exact Nat.le_refl 0
  | cons s rest ih =>
    have hone := @length_arrivalsOf pq topo policy ledger fences pins request s i
    rw [List.flatMap_cons, List.length_append, List.length_cons]
    omega

/-- Signals that are wider one by one, and any others beside them, apply no less at any resource, as
long as the outcome lists every contribution. -/
theorem wider_applies (pq pq' : EntryQueue) (topo : Topology) (policy : PropagationPolicy)
    (ledger ledger' : PropagationLedger) (fences fences' : Option FenceTable) (liveEpoch : Epoch)
    (pins pins' : List (Option Generation)) (request request' : PropagationRequest)
    (hready : Ready topo policy liveEpoch pins request)
    (hready' : Ready topo policy liveEpoch pins' request')
    (hrule : policy.aggregation ≠ .priorityFirst)
    (hfew : (liveSignals policy ledger' request').length ≤ kMaxContributionsPerNode)
    (hfree : ∀ s ∈ liveSignals policy ledger request,
      Unimpeded pq topo policy ledger fences pins request s)
    (hfree' : ∀ s ∈ liveSignals policy ledger' request',
      Unimpeded pq' topo policy ledger' fences' pins' request' s)
    (hwider : SublistForall₂ (fun s s' =>
      Wider (traversalContext topo policy ledger fences pins request s)
        (traversalContext topo policy ledger' fences' pins' request' s'))
      (liveSignals policy ledger request) (liveSignals policy ledger' request')) :
    let outcome := (propagate pq (.of topo policy ledger fences liveEpoch) request).1
    let outcome' := (propagate pq' (.of topo policy ledger' fences' liveEpoch) request').1
    ∀ n ∈ outcome.nodes, n.received = true →
      ∃ n' ∈ outcome'.nodes, n'.resource = n.resource ∧ n'.received = true ∧
        n.applied.raw ≤ n'.applied.raw := by
  intro outcome outcome' n hn hreceived
  have hrep := report_of_ready pq ledger fences hready
  have hrep' := report_of_ready pq' ledger' fences' hready'
  rw [hrep.nodes] at hn
  obtain ⟨i, r, x, rest, hr, harrivals, houtcome⟩ := outcome_received hn hreceived
  have hbelow : SublistForall₂ (fun x y : Arrival => x.contribution.Below y.contribution)
      (arrivalsAt pq topo policy ledger fences pins request i)
      (arrivalsAt pq' topo policy ledger' fences' pins' request' i) := by
    rw [arrivalsAt_eq, arrivalsAt_eq]
    exact Dominated.flatMap hwider fun s hs s' hs' hone =>
      arrivalsOf_wider (hfree s hs) (hfree' s' hs') hone
  have hshort := @length_arrivalsAt pq' topo policy ledger' fences' pins' request' i
  rw [harrivals] at hbelow
  cases harrivals' : arrivalsAt pq' topo policy ledger' fences' pins' request' i with
  | nil =>
    rw [harrivals'] at hbelow
    cases hbelow
  | cons y rest' =>
    rw [harrivals'] at hbelow hshort
    obtain ⟨n', hn', houtcome'⟩ := exists_outcome hr harrivals'
    rw [← hrep'.nodes] at hn'
    refine ⟨n', hn', houtcome'.resource.trans houtcome.resource.symm, houtcome'.received, ?_⟩
    have hlength := Dominated.length_le hbelow
    rw [houtcome.applied, houtcome'.applied]
    refine clamped_mono hrule ?_
    dsimp only
    rw [List.take_of_length_le (by rw [List.length_map]; omega),
      List.take_of_length_le (by rw [List.length_map]; omega),
      List.sublistForall₂_map_left_iff, List.sublistForall₂_map_right_iff]
    exact hbelow

/-! ## Signals -/

/-- The second signal is at least as strong as the first, and its authority at least as broad. -/
structure Stronger (s s' : PressureSignal) : Prop where
  origin : s'.origin = s.origin
  magnitude : s.observation.magnitude.raw ≤ s'.observation.magnitude.raw
  weight : s.weightQ16.toNat ≤ s'.weightQ16.toNat
  covered : ∀ id, s.authority.covers id = true → s'.authority.covers id = true

theorem Stronger.wider (h : Stronger s s') (hnow : request'.now = request.now) :
    Wider (traversalContext topo policy ledger fences pins request s)
      (traversalContext topo policy ledger fences pins request' s') where
  topo := rfl
  origin := h.origin
  magnitude := h.magnitude
  weight := h.weight
  floor := Nat.le_refl _
  pins _ _ hpin := hpin
  covered := h.covered
  ingress id hopen := by
    unfold TraversalContext.ingressFence traversalContext at hopen ⊢
    rwa [hnow]
  egress id hopen := by
    unfold TraversalContext.egressFence traversalContext at hopen ⊢
    rwa [hnow]

/-- Stronger signals, and more of them, never make less pressure apply anywhere, as long as budgets,
hops and damping hold nothing back. -/
theorem stronger_applies (pq : EntryQueue) (topo : Topology) (policy : PropagationPolicy)
    (ledger : PropagationLedger) (fences : Option FenceTable) (liveEpoch : Epoch)
    (pins : List (Option Generation)) (request request' : PropagationRequest)
    (hready : Ready topo policy liveEpoch pins request)
    (hready' : Ready topo policy liveEpoch pins request') (hnow : request'.now = request.now)
    (hrule : policy.aggregation ≠ .priorityFirst)
    (hfew : (liveSignals policy ledger request').length ≤ kMaxContributionsPerNode)
    (hfree : ∀ s ∈ liveSignals policy ledger request,
      Unimpeded pq topo policy ledger fences pins request s)
    (hfree' : ∀ s ∈ liveSignals policy ledger request',
      Unimpeded pq topo policy ledger fences pins request' s)
    (hstronger : SublistForall₂ Stronger (liveSignals policy ledger request)
      (liveSignals policy ledger request')) :
    let outcome := (propagate pq (.of topo policy ledger fences liveEpoch) request).1
    let outcome' := (propagate pq (.of topo policy ledger fences liveEpoch) request').1
    ∀ n ∈ outcome.nodes, n.received = true →
      ∃ n' ∈ outcome'.nodes, n'.resource = n.resource ∧ n'.received = true ∧
        n.applied.raw ≤ n'.applied.raw := by
  refine wider_applies pq pq topo policy ledger ledger fences fences liveEpoch pins pins request
    request' hready hready' hrule hfew hfree hfree' ?_
  exact Dominated.mono hstronger fun s s' h => h.wider hnow

/-- A signal of half the strength. -/
def faintSignal : PressureSignal :=
  { detourSignal with
    observation := .observed (.fromRawSaturating 32768) probePolicy.thresholds }

def faintRequest : PropagationRequest := { detourRequest with signals := [faintSignal] }

/-- Nothing is lost at resource 8 when the signal gets stronger. -/
theorem stronger_applies_detour :
    ∃ n ∈ (propagate .scan (.of detourTopology probePolicy (.make 4 4 4) none probeEpoch)
        faintRequest).1.nodes, n.resource = ⟨8⟩ ∧
      ∃ n' ∈ (propagate .scan (.of detourTopology probePolicy (.make 4 4 4) none probeEpoch)
          detourRequest).1.nodes,
        n'.resource = n.resource ∧ n'.received = true ∧ n.applied.raw ≤ n'.applied.raw := by
  obtain ⟨n, hn, hid, hreceived⟩ : ∃ n ∈ (propagate .scan (.of detourTopology probePolicy
      (.make 4 4 4) none probeEpoch) faintRequest).1.nodes,
      n.resource = ⟨8⟩ ∧ n.received = true := by decide +kernel
  have hfaint : liveSignals probePolicy (.make 4 4 4) faintRequest = [faintSignal] := by
    decide +kernel
  have hfull : liveSignals probePolicy (.make 4 4 4) detourRequest = [detourSignal] := by
    decide +kernel
  have hready : Ready detourTopology probePolicy probeEpoch [none, none, none, none, none]
      faintRequest :=
    ⟨by decide +kernel, by decide, by decide, by decide +kernel, by decide +kernel⟩
  have hready' : Ready detourTopology probePolicy probeEpoch [none, none, none, none, none]
      detourRequest :=
    ⟨by decide +kernel, by decide, by decide, by decide +kernel, by decide +kernel⟩
  have hfree : ∀ s ∈ liveSignals probePolicy (.make 4 4 4) faintRequest,
      Unimpeded .scan detourTopology probePolicy (.make 4 4 4) none
        [none, none, none, none, none] faintRequest s := by
    rw [hfaint]
    intro s hs
    rw [List.mem_singleton.mp hs]
    exact ⟨rfl, by decide +kernel, by decide +kernel, by decide +kernel, by decide +kernel⟩
  have hfree' : ∀ s ∈ liveSignals probePolicy (.make 4 4 4) detourRequest,
      Unimpeded .scan detourTopology probePolicy (.make 4 4 4) none
        [none, none, none, none, none] detourRequest s := by
    rw [hfull]
    intro s hs
    rw [List.mem_singleton.mp hs]
    exact ⟨rfl, by decide +kernel, by decide +kernel, by decide +kernel, by decide +kernel⟩
  have hstronger : SublistForall₂ Stronger (liveSignals probePolicy (.make 4 4 4) faintRequest)
      (liveSignals probePolicy (.make 4 4 4) detourRequest) := by
    rw [hfaint, hfull]
    exact .cons ⟨rfl, by decide +kernel, Nat.le_refl _, fun _ h => h⟩ .nil
  have hfew : (liveSignals probePolicy (.make 4 4 4) detourRequest).length ≤
      kMaxContributionsPerNode := by
    rw [hfull]
    decide
  have hall := stronger_applies .scan detourTopology probePolicy (.make 4 4 4) none probeEpoch
    [none, none, none, none, none] faintRequest detourRequest hready hready' rfl (by decide) hfew
    hfree hfree' hstronger
  exact ⟨n, hn, hid, hall n hn hreceived⟩

/-! ## Fences -/

section Fences

variable {t : FenceTable} {f : Fence} {resource : ResourceId} {now : Tick}

theorem add_new (hadd : (t.add f).1.ok = true) (hnew : ∀ g ∈ t.fences, g.id ≠ f.id) :
    (t.add f).2.fences = t.fences ++ [f] := by
  have hnone : ¬(t.fences.any fun g => g.id == f.id) = true := by
    rw [List.any_eq_true]
    rintro ⟨g, hg, hid⟩
    exact hnew g hg (eq_of_beq hid)
  unfold FenceTable.add at hadd ⊢
  split
  case isFalse hvalid =>
    rw [dif_neg hvalid] at hadd
    exact absurd hadd hvalid
  case isTrue hvalid =>
    rw [dif_pos hvalid, if_neg hnone] at hadd
    split
    case isTrue hfull =>
      rw [dif_pos hfull] at hadd
      cases hadd
    case isFalse => rfl

theorem governing_add (hadd : (t.add f).1.ok = true) (hnew : ∀ g ∈ t.fences, g.id ≠ f.id) :
    (t.add f).2.governing resource now =
      FenceTable.better resource now (t.governing resource now) f := by
  unfold FenceTable.governing
  rw [add_new hadd hnew, List.foldl_append]
  rfl

/-- A new fence takes no refusal away: it governs only where none did, or as a barrier. -/
theorem open_of_add {refuses : Fence → Bool} (hadd : (t.add f).1.ok = true)
    (hnew : ∀ g ∈ t.fences, g.id ≠ f.id)
    (hbarrier : ∀ g : Fence, g.kind = .barrier → refuses g = true)
    (hopen : ((t.add f).2.governing resource now).filter refuses = none) :
    (t.governing resource now).filter refuses = none := by
  rw [governing_add hadd hnew] at hopen
  unfold FenceTable.better at hopen
  split at hopen
  case isFalse => exact hopen
  case isTrue =>
    cases hgoverning : t.governing resource now with
    | none => rfl
    | some g =>
      rw [hgoverning] at hopen
      dsimp only at hopen
      split at hopen
      case isFalse => exact hopen
      case isTrue hstronger =>
        have hkind : f.kind = .barrier := by
          by_contra hweak
          unfold Fence.strength at hstronger
          rw [if_neg hweak] at hstronger
          split at hstronger <;> omega
        rw [Option.filter_some, if_pos (hbarrier f hkind)] at hopen
        cases hopen

theorem wider_add (hadd : (t.add f).1.ok = true) (hnew : ∀ g ∈ t.fences, g.id ≠ f.id) :
    Wider (traversalContext topo policy ledger (some (t.add f).2) pins request s)
      (traversalContext topo policy ledger (some t) pins request s) where
  topo := rfl
  origin := rfl
  magnitude := Nat.le_refl _
  weight := Nat.le_refl _
  floor := Nat.le_refl _
  pins _ _ h := h
  covered _ h := h
  ingress _ := open_of_add hadd hnew fun g hg => by rw [Fence.refusesIngress, hg]; rfl
  egress _ := open_of_add hadd hnew fun g hg => by rw [Fence.refusesEgress, hg]; rfl

/-- A new fence never makes more pressure apply anywhere, as long as budgets, hops and damping hold
nothing back with it or without it. -/
theorem fence_applies_less (pq : EntryQueue) (topo : Topology) (policy : PropagationPolicy)
    (ledger : PropagationLedger) (t : FenceTable) (f : Fence) (liveEpoch : Epoch)
    (pins : List (Option Generation)) (request : PropagationRequest)
    (hready : Ready topo policy liveEpoch pins request)
    (hrule : policy.aggregation ≠ .priorityFirst)
    (hfew : (liveSignals policy ledger request).length ≤ kMaxContributionsPerNode)
    (hadd : (t.add f).1.ok = true) (hnew : ∀ g ∈ t.fences, g.id ≠ f.id)
    (hfree : ∀ s ∈ liveSignals policy ledger request,
      Unimpeded pq topo policy ledger (some t) pins request s)
    (hfenced : ∀ s ∈ liveSignals policy ledger request,
      Unimpeded pq topo policy ledger (some (t.add f).2) pins request s) :
    let outcome := (propagate pq (.of topo policy ledger (some t) liveEpoch) request).1
    let fenced := (propagate pq (.of topo policy ledger (some (t.add f).2) liveEpoch) request).1
    ∀ n ∈ fenced.nodes, n.received = true →
      ∃ n' ∈ outcome.nodes, n'.resource = n.resource ∧ n'.received = true ∧
        n.applied.raw ≤ n'.applied.raw := by
  refine wider_applies pq pq topo policy ledger ledger (some (t.add f).2) (some t) liveEpoch pins
    pins request request hready hready hrule hfew hfenced hfree ?_
  induction liveSignals policy ledger request with
  | nil => exact .nil
  | cons s rest ih => exact .cons (wider_add hadd hnew) ih

/-- Nothing goes the longer way to resource 8 any more. -/
def detourFence : Fence := { id := ⟨1⟩, resource := ⟨9⟩, epoch := probeEpoch }

theorem fence_applies_less_detour :
    let fenced := EngineContext.of detourTopology probePolicy (.make 4 4 4)
      (some (FenceTable.add {} detourFence).2) probeEpoch
    let ctx := EngineContext.of detourTopology probePolicy (.make 4 4 4) (some {}) probeEpoch
    ∃ n ∈ (propagate .scan fenced detourRequest).1.nodes, n.resource = ⟨8⟩ ∧
      ∃ n' ∈ (propagate .scan ctx detourRequest).1.nodes,
        n'.resource = n.resource ∧ n'.received = true ∧ n.applied.raw ≤ n'.applied.raw := by
  intro fenced ctx
  obtain ⟨n, hn, hid, hreceived⟩ : ∃ n ∈ (propagate .scan fenced detourRequest).1.nodes,
      n.resource = ⟨8⟩ ∧ n.received = true := by decide +kernel
  have hfull : liveSignals probePolicy (.make 4 4 4) detourRequest = [detourSignal] := by
    decide +kernel
  have hready : Ready detourTopology probePolicy probeEpoch [none, none, none, none, none]
      detourRequest :=
    ⟨by decide +kernel, by decide, by decide, by decide +kernel, by decide +kernel⟩
  refine ⟨n, hn, hid, fence_applies_less .scan detourTopology probePolicy (.make 4 4 4) {}
    detourFence probeEpoch _ detourRequest hready (by decide) (hfull ▸ by decide)
    (by decide +kernel) (fun g hg => absurd hg List.not_mem_nil) ?_ ?_ n hn hreceived⟩
  · rw [hfull]
    intro s hs
    rw [List.mem_singleton.mp hs]
    exact ⟨rfl, by decide +kernel, by decide +kernel, by decide +kernel, by decide +kernel⟩
  · rw [hfull]
    intro s hs
    rw [List.mem_singleton.mp hs]
    exact ⟨rfl, by decide +kernel, by decide +kernel, by decide +kernel, by decide +kernel⟩

end Fences

end PropagationEngine

end Backpressure
