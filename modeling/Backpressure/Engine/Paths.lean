import Backpressure.Engine.Checkable
import Backpressure.Engine.Ramp

/-!
# What the paths of a signal amplify

A traversal carries its signal from the origin over paths of crossed edges. The gains of the
amplifying edges of a path have an exact product, of which the engine compares a truncated one with
the grant. While the exact products of the longer paths are granted, the grant bounds every
potential.
-/

namespace Backpressure

namespace Traversal

variable {pq : EntryQueue} {ctx : TraversalContext} {t t' : Traversal pq} {i : Nat}
  {xs : List Visit} {a e : QueueEntry} {es : List DependencyEdge}

/-- The visits convey the signal from one entry over these edges to another. -/
inductive Conveys (xs : List Visit) (a : QueueEntry) : List DependencyEdge → QueueEntry → Prop
  | here : Conveys xs a [] a
  | across {es : List DependencyEdge} {x : Visit} {c : CrossedEdge} :
      Conveys xs a es x.entry → x ∈ xs → c ∈ x.crossed →
        Conveys xs a (es ++ [c.edge]) (c.arrival x.entry)

/-- Whatever comes from the origin comes over a path. -/
theorem Tour.conveyed (h : Tour ctx i xs t) (he : Comes ctx i xs e) :
    ∃ es, Conveys xs (originEntry ctx i) es e := by
  refine h.induction (P := fun e => ∃ es, Conveys xs (originEntry ctx i) es e) ⟨[], .here⟩ ?_ he
  rintro x hx c hc settled - ⟨es, hes⟩
  exact ⟨_, hes.across hx hc⟩

/-- A set of paths that holds the empty one and is closed under crossings holds every path. -/
theorem Conveys.mem {known : List (List DependencyEdge × QueueEntry)} (h : Conveys xs a es e)
    (hhere : ([], a) ∈ known)
    (hover : ∀ p ∈ known, ∀ x ∈ xs, x.entry = p.2 → ∀ c ∈ x.crossed,
      (p.1 ++ [c.edge], c.arrival x.entry) ∈ known) : (es, e) ∈ known := by
  induction h with
  | here => exact hhere
  | across _ hx hc ih => exact hover _ ih _ hx rfl _ hc

/-- The gains of the amplifying edges of a path. -/
def gains (es : List DependencyEdge) : List Nat :=
  (es.filter DependencyEdge.isAmplifying).map fun edge => edge.amplification.raw

theorem gains_append_plain {edge : DependencyEdge} (h : edge.isAmplifying = false) :
    gains (es ++ [edge]) = gains es := by
  simp [gains, h]

theorem gains_append_amplifying {edge : DependencyEdge} (h : edge.isAmplifying = true) :
    gains (es ++ [edge]) = gains es ++ [edge.amplification.raw] := by
  simp [gains, h]

/-- The exact product of the gains of a path is granted. -/
def Affords (grant : Nat) (es : List DependencyEdge) : Prop :=
  (gains es).prod * 65536 ≤ grant * 65536 ^ (gains es).length

instance (grant : Nat) (es : List DependencyEdge) : Decidable (Affords grant es) :=
  inferInstanceAs (Decidable (_ ≤ _))

/-- The potential at the end of a path is at most the seed under the exact product of its gains.
Before a second amplification the running gain is exact. -/
structure Amplifies (seed : Potential) (es : List DependencyEdge) (e : QueueEntry) : Prop where
  potential : e.potential.raw * 65536 ^ (gains es).length ≤ seed.raw * (gains es).prod
  gain : (gains es).length < 2 → e.cumulativeGainQ16 * 65536 ^ (gains es).length =
    65536 * (gains es).prod

theorem Amplifies.across {seed : Potential} {c : CrossedEdge} (h : Amplifies seed es e)
    (hcarries : ctx.carries e c.edge = .ok c.carried) :
    Amplifies seed (es ++ [c.edge]) (c.arrival e) := by
  have hatt := Potential.attenuated_raw_le e.potential c.edge.attenuation
  obtain ⟨hnext, hgain⟩ := passedOn_of_carries hcarries
  unfold PassedOn at hnext
  unfold runningGain at hgain
  by_cases hamp : c.edge.isAmplifying = true
  · rw [if_pos hamp] at hnext hgain
    have hstep : c.carried.next.raw * 65536 ≤ e.potential.raw * c.edge.amplification.raw :=
      calc c.carried.next.raw * 65536
        _ ≤ (e.potential.attenuated c.edge.attenuation).raw * c.edge.amplification.raw :=
          (Nat.le_div_iff_mul_le (by decide)).mp (amplified_le hnext)
        _ ≤ e.potential.raw * c.edge.amplification.raw := Nat.mul_le_mul_right _ hatt
    constructor
    · rw [gains_append_amplifying hamp, List.length_append, List.length_singleton,
        List.prod_append, List.prod_singleton]
      calc c.carried.next.raw * 65536 ^ ((gains es).length + 1)
        _ = c.carried.next.raw * 65536 * 65536 ^ (gains es).length := by rw [pow_succ']; ring
        _ ≤ e.potential.raw * c.edge.amplification.raw * 65536 ^ (gains es).length :=
          Nat.mul_le_mul_right _ hstep
        _ = e.potential.raw * 65536 ^ (gains es).length * c.edge.amplification.raw :=
          Nat.mul_right_comm _ _ _
        _ ≤ seed.raw * (gains es).prod * c.edge.amplification.raw :=
          Nat.mul_le_mul_right _ h.potential
        _ = seed.raw * ((gains es).prod * c.edge.amplification.raw) := Nat.mul_assoc _ _ _
    · rw [gains_append_amplifying hamp, List.length_append, List.length_singleton]
      intro hfew
      -- it is the first amplification of the path, and nothing is truncated
      have hnone : gains es = [] := List.length_eq_zero_iff.mp (by omega)
      have hunity := h.gain (by rw [hnone]; decide)
      rw [hnone] at hunity ⊢
      change e.cumulativeGainQ16 * 1 = 65536 * 1 at hunity
      change c.carried.gain * 65536 ^ 1 = 65536 * (c.edge.amplification.raw * 1)
      rw [Nat.mul_one] at hunity
      rw [hgain, hunity, Nat.mul_div_cancel_left _ (by decide)]
      omega
  · rw [if_neg hamp] at hnext hgain
    rw [Bool.not_eq_true] at hamp
    constructor
    · rw [gains_append_plain hamp]
      refine le_trans (Nat.mul_le_mul_right _ ?_) h.potential
      exact (congrArg Potential.raw hnext).trans_le hatt
    · rw [gains_append_plain hamp]
      intro hfew
      exact (congrArg (· * _) hgain).trans (h.gain hfew)

theorem Tour.amplifies (h : Tour ctx i xs t) (hes : Conveys xs (originEntry ctx i) es e) :
    Amplifies ctx.seed es e := by
  induction hes with
  | here => exact ⟨Nat.le_refl _, fun _ => rfl⟩
  | across _ hx hc ih =>
    obtain ⟨settled, -, hpassed⟩ := (h.lawful _ hx).passed _ hc
    exact ih.across hpassed.carries

/-- On a path with one amplification at most the grant is compared with the exact gain. -/
theorem Amplifies.affords {seed : Potential} (h : Amplifies seed es e)
    (hfew : (gains es).length < 2) (hgranted : e.cumulativeGainQ16 ≤ ctx.grantedGain) :
    Affords ctx.grantedGain es := by
  have hgain := h.gain hfew
  have hle : e.cumulativeGainQ16 * 65536 ^ (gains es).length ≤
      ctx.grantedGain * 65536 ^ (gains es).length := Nat.mul_le_mul_right _ hgranted
  unfold Affords
  omega

theorem Amplifies.within {seed : Potential} (h : Amplifies seed es e)
    (hafford : Affords ctx.grantedGain es) : Within16 ctx.grantedGain seed e.potential := by
  refine ⟨?_, e.potential.le_one⟩
  have hpos : 0 < 65536 ^ (gains es).length := Nat.pow_pos (by decide)
  refine Nat.le_of_mul_le_mul_right ?_ hpos
  calc e.potential.raw * 65536 * 65536 ^ (gains es).length
    _ = e.potential.raw * 65536 ^ (gains es).length * 65536 := Nat.mul_right_comm _ _ _
    _ ≤ seed.raw * (gains es).prod * 65536 := Nat.mul_le_mul_right _ h.potential
    _ = seed.raw * ((gains es).prod * 65536) := Nat.mul_assoc _ _ _
    _ ≤ seed.raw * (ctx.grantedGain * 65536 ^ (gains es).length) := Nat.mul_le_mul_left _ hafford
    _ = seed.raw * ctx.grantedGain * 65536 ^ (gains es).length := (Nat.mul_assoc _ _ _).symm

/-- On every path that amplifies more than once the exact product of the gains is granted. -/
def Afforded (ctx : TraversalContext) (t : Traversal pq) : Prop :=
  ∀ i, ctx.topo.indexOf ctx.signal.origin = some i →
    ∀ es e, Conveys (visits ctx t) (originEntry ctx i) es e → 2 ≤ (gains es).length →
      Affords ctx.grantedGain es

/-- While the longer paths are afforded, the grant bounds every settled and every passed
potential. -/
theorem within_of_afforded (fresh : t.Fresh) (hafforded : Afforded ctx t)
    (hrun : t.run ctx = (.success, t')) :
    (∀ e ∈ settlements ctx t, Within16 ctx.grantedGain ctx.seed e.potential) ∧
      ∀ h ∈ t'.expl.hops, Within16 ctx.grantedGain ctx.seed h.potentialAfter := by
  obtain ⟨i, origin, horigin, htoured⟩ := visits_run fresh hrun
  have htour := htoured.toTour
  have hwithin : ∀ e, Comes ctx i (visits ctx t) e →
      Within16 ctx.grantedGain ctx.seed e.potential := by
    intro e he
    obtain ⟨es, hes⟩ := htour.conveyed he
    have hamplifies := htour.amplifies hes
    refine hamplifies.within ?_
    rcases Nat.lt_or_ge (gains es).length 2 with hfew | hmany
    · exact hamplifies.affords hfew (htour.granted he)
    · exact hafforded i horigin.indexOf es e hes hmany
  constructor
  · intro e he
    rw [← entries_visits] at he
    obtain ⟨x, hx, rfl⟩ := List.mem_map.mp he
    exact hwithin _ (htour.entries x hx)
  · intro h hh
    rw [htour.hops] at hh
    obtain ⟨x, hx, hhx⟩ := List.mem_flatMap.mp hh
    obtain ⟨c, hc, rfl⟩ := List.mem_map.mp hhx
    exact hwithin (c.arrival x.entry) (.inr ⟨x, hx, c, hc, rfl⟩)

end Traversal

namespace PropagationEngine

open Traversal

/-- The granted gain bounds every potential of a traversal whose paths it affords. A grant of at most
two of the smallest amplifications bounds every potential anyway. -/
theorem grant_bounds (pq : EntryQueue) (topo : Topology) (policy : PropagationPolicy)
    (ledger : PropagationLedger) (fences : Option FenceTable) (pins : List (Option Generation))
    (request : PropagationRequest) (p : Progress) (s : PressureSignal) :
    let ctx := traversalContext topo policy ledger fences pins request s
    let start := startTraversal pq topo policy request p s
    Afforded ctx start ∨ ctx.grantedGain ≤ 65538 → GrantBounds ctx start := by
  intro ctx start hgrant
  have fresh : start.Fresh := startTraversal_fresh
  rcases run_settles ctx fresh with ⟨-, hsame, hnone⟩ | ⟨t', hrun⟩
  · unfold GrantBounds
    rw [hsame, hnone, fresh.hops]
    exact ⟨nofun, nofun⟩
  · unfold GrantBounds
    rw [hrun]
    rcases hgrant with hafforded | hsmall
    · exact within_of_afforded fresh hafforded hrun
    · exact within_of_small_grant fresh hsmall kUnity_le_grantedGain hrun

def quarterGrant : Gain := ⟨147456, by decide, by decide⟩

/-- A gain of three halves. -/
def threeHalves : Gain := ⟨98304, by decide, by decide⟩

/-- Two amplifications whose product is the grant. -/
def quarterTopology : Topology :=
  probeTopology rampResources (rampEdges threeHalves threeHalves)

def quarterContext : TraversalContext :=
  rampContext quarterGrant ⟨4096, by decide⟩ quarterTopology

def quarterStart : Traversal .scan :=
  startTraversal .scan quarterTopology (rampPolicy quarterGrant)
    (rampRequest quarterGrant ⟨4096, by decide⟩ quarterTopology)
    (unstarted (rampPolicy quarterGrant) (.make 4 4 4) quarterTopology
      (rampRequest quarterGrant ⟨4096, by decide⟩ quarterTopology))
    (rampSignal quarterGrant ⟨4096, by decide⟩ quarterTopology)

/-- The second amplification uses the grant up, and the grant bounds what it passes on. -/
theorem grant_bounds_quarter :
    quarterContext.grantedGain = 147456 ∧
      (quarterStart.run quarterContext).2.expl.hops.map (fun h => h.potentialAfter.raw) =
        [4096 * 98304, 4096 * 147456] ∧ GrantBounds quarterContext quarterStart := by
  refine ⟨by decide +kernel, by decide +kernel, grant_bounds .scan quarterTopology
    (rampPolicy quarterGrant) (.make 4 4 4) none []
    (rampRequest quarterGrant ⟨4096, by decide⟩ quarterTopology)
    (unstarted (rampPolicy quarterGrant) (.make 4 4 4) quarterTopology
      (rampRequest quarterGrant ⟨4096, by decide⟩ quarterTopology))
    (rampSignal quarterGrant ⟨4096, by decide⟩ quarterTopology) (.inl ?_)⟩
  intro i hindex es e hes
  have hzero : quarterTopology.indexOf ⟨7⟩ = some 0 := by decide +kernel
  obtain rfl : i = 0 := Option.some.inj (hindex.symm.trans hzero)
  have hknown : (es, e) ∈ (rampEdges threeHalves threeHalves).inits.zip
      (settlements quarterContext quarterStart) := hes.mem (by decide +kernel) (by decide +kernel)
  have hafford : ∀ p ∈ (rampEdges threeHalves threeHalves).inits.zip
      (settlements quarterContext quarterStart), Affords quarterContext.grantedGain p.1 := by
    decide +kernel
  exact fun _ => hafford (es, e) hknown

/-- Under a grant of two, an edge of gain 65537 and one of gain 131071 pass more than two. -/
theorem ramp_passes_grant :
    let grant : Gain := ⟨131072, by decide, by decide⟩
    let m : Magnitude := ⟨4096, by decide⟩
    let topo := probeTopology rampResources
      (rampEdges ⟨65537, by decide, by decide⟩ ⟨131071, by decide, by decide⟩)
    let outcome := (propagate .scan (.of topo (rampPolicy grant) (.make 4 4 4) none probeEpoch)
      (rampRequest grant m topo)).1
    outcome.status.ok = true ∧ ∃ e ∈ outcome.explanations, e.grantedGainQ16 = grant.raw ∧
      ∃ h ∈ e.hops, ¬h.potentialAfter.raw * 65536 ≤
        (Potential.fromMagnitude m).raw * grant.raw := by
  decide +kernel

end PropagationEngine

end Backpressure
