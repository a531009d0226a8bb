import Backpressure.Engine.Amplification
import Backpressure.Engine.Bounds

/-!
# Explanations can be checked

Every accepted hop of an explanation passes the gates as they are read again from the topology, the
policy, the ledger, the fences and the signal, and its potential, depth and gain are those of the
path on which the traversal settled its source.
-/

namespace Backpressure

namespace Traversal

variable {pq : EntryQueue} {ctx : TraversalContext} {t t' : Traversal pq} {i : Nat}
  {xs : List Visit} {x : Visit}

/-- The cumulative gain behind an edge; only an amplifying edge adds to it. -/
def runningGain (edge : DependencyEdge) (gain : Nat) : Nat :=
  if edge.isAmplifying then gain * edge.amplification.raw / 65536 else gain

/-- The potential behind an edge: attenuated, then amplified on an amplifying edge. -/
def PassedOn (edge : DependencyEdge) (before after : Potential) : Prop :=
  if edge.isAmplifying then (before.attenuated edge.attenuation).amplified edge.amplification = .ok after
  else after = before.attenuated edge.attenuation

/-- The gates between a source and a target, read from the inputs alone. -/
structure Passes (ctx : TraversalContext) (h : HopRecord) (edge : DependencyEdge)
    (src dst : Resource) : Prop where
  known : edge ∈ ctx.topo.edges
  recorded : h.edge = edge.id ∧ h.src = edge.src ∧ h.dst = edge.dst ∧
    h.attenuation = edge.attenuation ∧ h.gain = edge.amplification
  attenuation : edge.attenuation.isZero = false
  pressure : edge.flags.has .recoveryOnly = false
  source : src ∈ ctx.topo.resources ∧ src.id = edge.src
  forwards : src.canForward = true
  egress : ∀ f, ctx.governing edge.src = some f → f.refusesEgress = false
  target : dst ∈ ctx.topo.resources ∧ dst.id = edge.dst
  receives : dst.canReceive = true
  covered : ctx.signal.authority.covers edge.dst = true
  ingress : ∀ f, ctx.governing edge.dst = some f → f.refusesIngress = false
  policyHops : h.depth + 1 ≤ ctx.policy.maxHops.toNat
  edgeHops : edge.maxHops ≠ 0 → h.depth + 1 ≤ edge.maxHops.toNat
  grantedHops : ctx.signal.authority.maxHopsGranted ≠ 0 →
    h.depth + 1 ≤ ctx.signal.authority.maxHopsGranted.toNat
  potential : PassedOn edge h.potentialBefore h.potentialAfter
  floor : ctx.floorPotential.raw ≤ h.potentialAfter.raw
  gain : h.cumulativeGainQ16 ≤ ctx.grantedGain

/-- The recorded hops lead from the origin to a resource, which they reach with this potential,
depth and cumulative gain. -/
inductive SettlingPath (ctx : TraversalContext) (hops : List HopRecord) :
    ResourceId → Potential → Nat → Nat → Prop
  | origin : SettlingPath ctx hops ctx.signal.origin ctx.seed 0 kUnityGainQ16
  | hop {h : HopRecord} {edge : DependencyEdge} {gain : Nat} :
      SettlingPath ctx hops h.src h.potentialBefore h.depth gain → h ∈ hops →
      edge ∈ ctx.topo.edges → edge.id = h.edge → h.cumulativeGainQ16 = runningGain edge gain →
      SettlingPath ctx hops h.dst h.potentialAfter (h.depth + 1) h.cumulativeGainQ16

theorem filter_eq_none {o : Option Fence} {p : Fence → Bool} (h : o.filter p = none) :
    ∀ f, o = some f → p f = false := by
  rintro f rfl
  simpa [Option.filter_eq_none_iff] using h

/-- What an edge carries on is what the potential and the gain become behind it. -/
theorem passedOn_of_carries {entry : QueueEntry} {edge : DependencyEdge}
    {carried : TraversalContext.Carried} (h : ctx.carries entry edge = .ok carried) :
    PassedOn edge entry.potential carried.next ∧
      carried.gain = runningGain edge entry.cumulativeGainQ16 := by
  have hcases := carries_cases h
  unfold PassedOn runningGain
  by_cases hamp : edge.isAmplifying = true
  · rw [if_pos hamp, if_pos hamp]
    rcases hcases with ⟨-, -⟩ | ⟨-, -, hgain, -, hnext⟩
    · unfold TraversalContext.carries at h
      dsimp only at h
      rw [if_pos hamp] at h
      split at h
      · cases h
      · split at h
        · cases h
        · split at h
          · cases h
          case h_2 amplified hok =>
            cases h
            exact ⟨hok, rfl⟩
    · exact ⟨hnext, hgain⟩
  · rw [if_neg hamp, if_neg hamp]
    rcases hcases with ⟨hnext, hgain⟩ | ⟨habs, -⟩
    · exact ⟨hnext, hgain⟩
    · exact absurd habs hamp

theorem kUnity_le_grantedGain : kUnityGainQ16 ≤ ctx.grantedGain := by
  unfold TraversalContext.grantedGain
  split
  · exact Nat.le_min.mpr ⟨ctx.policy.maxCumulativeGain.ge_unity, ctx.signal.authority.maxGain.ge_unity⟩
  · exact Nat.le_refl _

theorem gain_carries {entry : QueueEntry} {edge : DependencyEdge}
    {carried : TraversalContext.Carried} (hgranted : entry.cumulativeGainQ16 ≤ ctx.grantedGain)
    (h : ctx.carries entry edge = .ok carried) : carried.gain ≤ ctx.grantedGain := by
  rcases carries_cases h with ⟨-, hgain⟩ | ⟨-, -, -, hle, -⟩
  · exact hgain.trans_le hgranted
  · exact hle

theorem hops_within {depth : Nat} {edge : DependencyEdge} (h : depth ≤ ctx.hopBound edge) :
    depth ≤ ctx.policy.maxHops.toNat ∧ (edge.maxHops ≠ 0 → depth ≤ edge.maxHops.toNat) ∧
      (ctx.signal.authority.maxHopsGranted ≠ 0 →
        depth ≤ ctx.signal.authority.maxHopsGranted.toNat) := by
  unfold TraversalContext.hopBound PropagationPolicy.effectiveMaxHops
    TraversalContext.authorityHops at h
  dsimp only at h
  refine ⟨?_, fun hedge => ?_, fun hgranted => ?_⟩
  · split at h <;> split at h <;> omega
  · rw [if_neg hedge] at h
    split at h <;> omega
  · rw [if_neg hgranted] at h
    omega

theorem floor_of_undamped {edge : DependencyEdge} {next : Potential}
    (h : ctx.damps edge next = none) : ctx.floorPotential.raw ≤ next.raw := by
  unfold TraversalContext.damps at h
  split at h
  · cases h
  case isFalse hle => exact Nat.le_of_not_lt hle

/-- The cumulative gain of whatever is queued or settled is granted. -/
theorem Tour.granted (h : Tour ctx i xs t) {e : QueueEntry} (he : Comes ctx i xs e) :
    e.cumulativeGainQ16 ≤ ctx.grantedGain :=
  h.induction (P := fun e => e.cumulativeGainQ16 ≤ ctx.grantedGain) kUnity_le_grantedGain
    (fun _ _ _ _ _ hpassed hx => gain_carries hx hpassed.carries) he

/-- A crossed edge of a visit passes the gates again. -/
theorem Tour.passes (h : Tour ctx i xs t) (hindexed : ctx.topo.Indexed) (hx : x ∈ xs)
    {c : CrossedEdge} (hc : c ∈ x.crossed) :
    ∃ dst, Passes ctx (c.hop x.entry x.res) c.edge x.res dst := by
  have hlawful := h.lawful x hx
  obtain ⟨settled, -, hpassed⟩ := hlawful.passed c hc
  obtain ⟨hedge, -, hsrc⟩ := hlawful.leaves hindexed hc
  obtain ⟨expansions, fanout, hadm⟩ := hpassed.admitted
  obtain ⟨dst, hadmitted⟩ := of_admits hadm
  have hexpandable := hlawful.expandable (List.ne_nil_of_mem hc)
  obtain ⟨hpolicy, hover, hgranted⟩ := hops_within hadmitted.hops
  refine ⟨dst, ?_⟩
  constructor
  · exact List.mem_of_getElem? hedge
  · exact ⟨rfl, hsrc.symm, rfl, rfl, rfl⟩
  · exact hadmitted.attenuation
  · exact hadmitted.pressure
  · exact ⟨List.mem_of_getElem? hlawful.resourceAt, hsrc.symm⟩
  · exact hexpandable.forwards
  · rw [hsrc]
    exact filter_eq_none hexpandable.egress
  · exact ⟨List.mem_of_getElem? hadmitted.resourceAt, hadmitted.target⟩
  · exact hadmitted.receives
  · exact hadmitted.covered
  · exact filter_eq_none hadmitted.ingress
  · exact hpolicy
  · exact hover
  · exact hgranted
  · exact (passedOn_of_carries hpassed.carries).1
  · exact floor_of_undamped hpassed.undamped
  · exact gain_carries (h.granted (h.entries x hx)) hpassed.carries

theorem Tour.mem_hops (h : Tour ctx i xs t) (hx : x ∈ xs) {c : CrossedEdge} (hc : c ∈ x.crossed) :
    c.hop x.entry x.res ∈ t.expl.hops := by
  rw [h.hops]
  exact List.mem_flatMap.mpr ⟨x, hx, List.mem_map_of_mem hc⟩

/-- Every queued or settled entry was reached along recorded hops. -/
theorem Tour.path (h : Tour ctx i xs t) (hindexed : ctx.topo.Indexed) {origin : Resource}
    (horigin : Origin ctx i origin) {e : QueueEntry} (he : Comes ctx i xs e) :
    ∀ r, ctx.topo.resourceAt e.node = some r →
      SettlingPath ctx t.expl.hops r.id e.potential e.depth e.cumulativeGainQ16 := by
  refine h.induction (P := fun e => ∀ r, ctx.topo.resourceAt e.node = some r →
    SettlingPath ctx t.expl.hops r.id e.potential e.depth e.cumulativeGainQ16) ?_ ?_ he
  · intro r hr
    obtain rfl : origin = r := Option.some.inj (horigin.resourceAt.symm.trans hr)
    rw [horigin.id]
    exact .origin
  · intro x hx c hc settled hpassed ih r hr
    have hsource := ih _ (h.lawful x hx).resourceAt
    obtain ⟨dst, hpasses⟩ := h.passes hindexed hx hc
    obtain ⟨expansions, fanout, hadm⟩ := hpassed.admitted
    obtain ⟨toRes, hadmitted⟩ := of_admits hadm
    obtain rfl : toRes = r := Option.some.inj (hadmitted.resourceAt.symm.trans hr)
    rw [hadmitted.target]
    exact SettlingPath.hop (h := c.hop x.entry x.res) hsource (h.mem_hops hx hc) hpasses.known rfl
      (passedOn_of_carries hpassed.carries).2

/-- The hop passes the gates again, and continues the path on which the traversal settled its
source. -/
structure Checked (ctx : TraversalContext) (start : Traversal pq) (hops : List HopRecord)
    (h : HopRecord) (edge : DependencyEdge) (src dst : Resource) (entry : QueueEntry) : Prop where
  passes : Passes ctx h edge src dst
  settled : entry ∈ settlements ctx start
  resourceAt : ctx.topo.resourceAt entry.node = some src
  once : ∀ e ∈ settlements ctx start, e.node = entry.node → e = entry
  potential : h.potentialBefore = entry.potential
  depth : h.depth = entry.depth
  gain : h.cumulativeGainQ16 = runningGain edge entry.cumulativeGainQ16
  path : SettlingPath ctx hops src.id entry.potential entry.depth entry.cumulativeGainQ16

theorem checked_run (fresh : t.Fresh) (hindexed : ctx.topo.Indexed)
    (hrun : t.run ctx = (.success, t')) :
    ∀ h ∈ t'.expl.hops, ∃ edge src dst entry, Checked ctx t t'.expl.hops h edge src dst entry := by
  obtain ⟨i, origin, xs, horigin, hsettlements, htoured⟩ := toured_run fresh hrun
  have htour := htoured.toTour
  intro h hh
  have hmem := hh
  rw [htour.hops] at hmem
  obtain ⟨x, hx, hhx⟩ := List.mem_flatMap.mp hmem
  obtain ⟨c, hc, rfl⟩ := List.mem_map.mp hhx
  obtain ⟨dst, hpasses⟩ := htour.passes hindexed hx hc
  obtain ⟨settled, -, hpassed⟩ := (htour.lawful x hx).passed c hc
  refine ⟨c.edge, x.res, dst, x.entry, hpasses, ?_, (htour.lawful x hx).resourceAt, ?_, rfl, rfl,
    (passedOn_of_carries hpassed.carries).2, ?_⟩
  · rw [hsettlements]
    exact List.mem_map_of_mem hx
  · intro e he hnode
    rw [hsettlements] at he
    obtain ⟨y, hy, rfl⟩ := List.mem_map.mp he
    rw [List.inj_on_of_nodup_map htour.nodup hy hx hnode]
  · exact htour.path hindexed horigin (htour.entries x hx) _ (htour.lawful x hx).resourceAt

end Traversal

namespace PropagationEngine

open Traversal

/-- Every accepted hop of every explanation passes all gates as they are evaluated again from the
inputs, and continues the path on which its traversal settled the source of the hop. -/
theorem explanations_checkable (pq : EntryQueue) (topo : Topology) (policy : PropagationPolicy)
    (ledger : PropagationLedger) (fences : Option FenceTable) (liveEpoch : Epoch)
    (request : PropagationRequest) (hbuilt : topo.Built) :
    ∀ e ∈ (propagate pq (.of topo policy ledger fences liveEpoch) request).1.explanations,
      ∀ h ∈ e.hops, h.accepted = true →
        ∃ pins, resolvePins topo request.pins = .ok pins ∧
          ∃ s ∈ liveSignals policy ledger request, e.source = s.source ∧
            ∃ edge src dst entry,
              Checked (traversalContext topo policy ledger fences pins request s)
                (startTraversal pq topo policy request
                  (progressBefore pq topo policy ledger fences pins request s) s)
                e.hops h edge src dst entry := by
  intro e he h hh _
  rcases propagate_report pq topo policy ledger fences liveEpoch request with
    ⟨hsilent, -⟩ | ⟨pins, hreport⟩
  · rw [hsilent.explanations] at he
    cases he
  · rw [hreport.explanations] at he
    refine ⟨pins, hreport.ready.pins, ?_⟩
    rcases explanation_from e he with hnone | ⟨s, hs, hsource, hsuccess, hhops, -⟩
    · rw [hnone] at hh
      cases hh
    · refine ⟨s, hs, hsource, ?_⟩
      rw [hhops] at hh ⊢
      exact checked_run startTraversal_fresh (Topology.indexed_of_built hbuilt)
        (Prod.ext hsuccess rfl) h hh

/-- One hop between two resources, which halves the pressure. -/
theorem explanations_checkable_pair :
    let topo := probeTopology [probeResource ⟨7⟩, probeResource ⟨8⟩]
      [{ probeEdge ⟨1⟩ ⟨7⟩ ⟨8⟩ with attenuation := .fromRawSaturating 32768 }]
    let request := probeRequest probePolicy topo ⟨7⟩ 5
    let explanations := (propagate .scan (.of topo probePolicy (.make 4 4 4) none probeEpoch)
      request).1.explanations
    (explanations.map fun e => e.hops.map fun h =>
        (h.src, h.dst, h.accepted, h.potentialBefore.raw, h.potentialAfter.raw)) =
      [[(⟨7⟩, ⟨8⟩, true, 4294967296, 2147483648)]] ∧
    ∀ e ∈ explanations, ∀ h ∈ e.hops, ∃ s ∈ liveSignals probePolicy (.make 4 4 4) request,
      ∃ edge src dst entry,
        Checked (traversalContext topo probePolicy (.make 4 4 4) none [none] request s)
          (startTraversal .scan topo probePolicy request
            (progressBefore .scan topo probePolicy (.make 4 4 4) none [none] request s) s)
          e.hops h edge src dst entry := by
  intro topo request explanations
  have hbuilt : topo.Built := built_probeTopology (by decide +kernel)
  have haccepted : ∀ e ∈ explanations, ∀ h ∈ e.hops, h.accepted = true := by decide +kernel
  have hpins : resolvePins topo request.pins = .ok [none] := by decide +kernel
  refine ⟨by decide +kernel, fun e he h hh => ?_⟩
  obtain ⟨pins, hresolved, s, hs, -, hchecked⟩ := explanations_checkable .scan topo probePolicy
    (.make 4 4 4) none probeEpoch request hbuilt e he h hh (haccepted e he h hh)
  obtain rfl : [none] = pins := Except.ok.inj (hpins.symm.trans hresolved)
  exact ⟨s, hs, hchecked⟩

end PropagationEngine

end Backpressure
