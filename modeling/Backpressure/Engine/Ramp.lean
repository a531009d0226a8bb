import Backpressure.Engine.Amplification
import Backpressure.Engine.Probe

/-!
# Two amplifications in a row

A ramp is a line of three resources whose two edges amplify. Their gains can be chosen so that
the truncated product stays within the grant while the potential passes it, for every grant but
the three smallest.
-/

namespace Backpressure

/-- An edge that carries more than everything. -/
def rampEdge (id : EdgeId) (src dst : ResourceId) (gain : Gain) : DependencyEdge :=
  { probeEdge id src dst with amplification := gain, flags := { bits := 2 } }

def rampResources : List Resource := [probeResource ⟨7⟩, probeResource ⟨8⟩, probeResource ⟨9⟩]

def rampEdges (a b : Gain) : List DependencyEdge :=
  [rampEdge ⟨1⟩ ⟨7⟩ ⟨8⟩ a, rampEdge ⟨2⟩ ⟨8⟩ ⟨9⟩ b]

def rampPolicy (grant : Gain) : PropagationPolicy :=
  { probePolicy with allowAmplification := true, maxCumulativeGain := grant }

def rampSignal (grant : Gain) (m : Magnitude) (topo : Topology) : PressureSignal :=
  { probeSignal (rampPolicy grant) topo ⟨7⟩ 5 with
    observation := .observed m (rampPolicy grant).thresholds
    authority :=
      { level := .globalLevel, epoch := ⟨1⟩, policyGeneration := (rampPolicy grant).generation
        amplificationAuthorized := true, maxGain := grant } }

def rampRequest (grant : Gain) (m : Magnitude) (topo : Topology) : PropagationRequest :=
  { probeRequest (rampPolicy grant) topo ⟨7⟩ 5 with signals := [rampSignal grant m topo] }

variable {grant a b : Gain} {m : Magnitude} {topo : Topology}

theorem isAmplifying_rampEdge {id : EdgeId} {src dst : ResourceId} (h : a.raw ≠ 65536) :
    (rampEdge id src dst a).isAmplifying = true := by
  have hflag : EdgeFlags.has ⟨2⟩ .amplifying = true := by decide
  simp only [DependencyEdge.isAmplifying, Bool.and_eq_true, Bool.not_eq_true', Gain.isUnity,
    beq_eq_false_iff_ne]
  exact ⟨hflag, h⟩

theorem validate_rampEdge {id : EdgeId} {src dst : ResourceId} (hid : id.valid = true)
    (hsrc : src.valid = true) (hdst : dst.valid = true) :
    (rampEdge id src dst a).validate.ok = true := by
  have hflag : EdgeFlags.has ⟨2⟩ .barrier = false := by decide
  have hbarrier : (rampEdge id src dst a).isBarrier = false := hflag
  simp only [DependencyEdge.validate, hbarrier, Bool.and_false]
  simp [rampEdge, probeEdge, hid, hsrc, hdst, Generation.known, kMaxEdgeHops]

theorem build_ramp (a b : Gain) : ∃ topo : Topology, topo.Built ∧
    topo.Laid rampResources (rampEdges a b) ∧ topo.digest.isZero = false := by
  have hbuild : ∃ topo, Topology.build rampResources (rampEdges a b) {} true = .ok topo ∧
      topo.Laid rampResources (rampEdges a b) ∧ topo.digest.isZero = false := by
    have hresources : Topology.validateAll Resource.validate rampResources = .ok () := by decide
    have hedges : Topology.validateAll DependencyEdge.validate (rampEdges a b) = .ok () := by
      simp only [rampEdges, Topology.validateAll]
      rw [if_pos (validate_rampEdge rfl rfl rfl), if_pos (validate_rampEdge rfl rfl rfl)]
    have hsorted : (rampEdges a b).insertionSort (fun a b => b.precedes a = false) =
      rampEdges a b := rfl
    have hunique : Topology.firstDuplicate DependencyEdge.id (rampEdges a b) = none := rfl
    have hends : Topology.checkEndpoints (Topology.sortById rampResources) (rampEdges a b) =
      .ok () := rfl
    unfold Topology.build
    rw [if_neg (by decide), if_neg (by decide), if_neg (by simp [rampEdges]), hresources]
    dsimp only
    split
    case h_1 hdup => cases hdup
    case h_2 =>
      rw [hedges]
      dsimp only
      rw [hsorted, hunique, hends]
      exact ⟨_, rfl, ⟨rfl, rfl, rfl, rfl⟩, DigestBuilder.finish_isZero _⟩
  obtain ⟨topo, hok, hlaid, hdigest⟩ := hbuild
  exact ⟨topo, ⟨_, _, _, _, hok⟩, hlaid, hdigest⟩

theorem validate_rampPolicy (grant : Gain) : (rampPolicy grant).validate.ok = true := by
  have hsame : (rampPolicy grant).validate = (rampPolicy .unity).validate := rfl
  rw [hsame]
  decide

/-- The signal of a ramp is accepted. -/
theorem admission_ramp (hgrant : grant.raw ≠ 65536) (hm : 0 < m.raw)
    (hdigest : topo.digest.isZero = false) :
    (PropagationEngine.admission (rampPolicy grant) (rampRequest grant m topo)).accepted =
      [rampSignal grant m topo] := by
  have hobserved : (PressureObservation.observed m
      (rampPolicy grant).thresholds).canAuthorizePropagation = true := by
    rw [PressureObservation.canAuthorize_observed, Bool.not_eq_true', Q16.isZero,
      beq_eq_false_iff_ne]
    omega
  refine PropagationEngine.admission_single ⟨7⟩ ?_ rfl rfl
  refine PropagationEngine.validate_probe_with (validate_rampPolicy grant) hdigest rfl hobserved
    ?_ rfl rfl rfl
  simp [AuthorityVector.validate, Epoch.known, Gain.isUnity, Gain.kUnityRaw, hgrant]

/-- The numbers of a ramp that passes its grant: neither the gains nor their truncated product are
refused, and the potential behind the second edge is too large. -/
structure Steep (grant a b : Gain) (m : Magnitude) : Prop where
  first : 65536 < a.raw ∧ a.raw ≤ grant.raw
  second : 65536 < b.raw
  product : a.raw * b.raw / 65536 ≤ grant.raw
  entering : m.raw * 65536 ≤ 4294967296 * 65536 / a.raw
  between : m.raw * a.raw ≤ 4294967296 * 65536 / b.raw
  leaving : m.raw * a.raw * b.raw / 65536 ≤ 4294967296
  passes : m.raw * grant.raw < m.raw * a.raw * b.raw / 65536
  magnitude : 0 < m.raw

/-- What a traversal of a ramp reads. -/
def rampContext (grant : Gain) (m : Magnitude) (topo : Topology) : TraversalContext :=
  PropagationEngine.traversalContext topo (rampPolicy grant) (.make 4 4 4) none []
    (rampRequest grant m topo) (rampSignal grant m topo)

theorem grantedGain_ramp : (rampContext grant m topo).grantedGain = grant.raw := by
  have hgranted : (rampContext grant m topo).amplificationGranted = true := rfl
  rw [TraversalContext.grantedGain, if_pos hgranted]
  exact Nat.min_self grant.raw

theorem amplified_of_room {p : Potential} {gain : Gain} (hgain : 65536 < gain.raw)
    (hp : 0 < p.raw) (hroom : p.raw ≤ 4294967296 * 65536 / gain.raw)
    (hone : p.raw * gain.raw / 65536 ≤ 4294967296) :
    p.amplified gain = .ok ⟨p.raw * gain.raw / 65536, hone⟩ := by
  have hsame : ¬(gain.isUnity || p.isZero) = true := by
    simp only [Gain.isUnity, Gain.kUnityRaw, Potential.isZero, Bool.or_eq_true, beq_iff_eq]
    omega
  unfold Potential.amplified
  rw [if_neg hsame, if_neg (Nat.not_lt_of_le hroom)]
  simp only [Nat.min_eq_left hone]

theorem attenuated_one (p : Potential) : p.attenuated .one = p := by
  have hraw : p.raw * 65536 / 65536 = p.raw := Nat.mul_div_cancel _ (by decide)
  cases p
  simp only [Potential.attenuated, Q16.one, hraw]

/-- A ramp edge carries its gain on while the grant has room. -/
theorem carries_ramp {entry : QueueEntry} {id : EdgeId} {src dst : ResourceId}
    (hgain : 65536 < a.raw) (hp : 0 < entry.potential.raw)
    (hgrant : entry.cumulativeGainQ16 * a.raw / 65536 ≤ grant.raw)
    (hroom : entry.potential.raw ≤ 4294967296 * 65536 / a.raw)
    (hone : entry.potential.raw * a.raw / 65536 ≤ 4294967296) :
    (rampContext grant m topo).carries entry (rampEdge id src dst a) =
      .ok ⟨⟨entry.potential.raw * a.raw / 65536, hone⟩,
        entry.cumulativeGainQ16 * a.raw / 65536, true⟩ := by
  have hallowed : ¬(!(rampContext grant m topo).policy.allowAmplification ||
      !(rampContext grant m topo).signal.authority.amplificationAuthorized) = true := by
    simp [rampContext, PropagationEngine.traversalContext, rampPolicy, rampSignal]
  unfold TraversalContext.carries
  dsimp only
  rw [if_pos (isAmplifying_rampEdge (by omega)), if_neg hallowed, grantedGain_ramp]
  have hroom' : ¬grant.raw < entry.cumulativeGainQ16 * (rampEdge id src dst a).amplification.raw /
      65536 := Nat.not_lt_of_le hgrant
  have hamplified : (entry.potential.attenuated (rampEdge id src dst a).attenuation).amplified
      (rampEdge id src dst a).amplification = .ok ⟨entry.potential.raw * a.raw / 65536, hone⟩ := by
    have hone' : (rampEdge id src dst a).attenuation = .one := rfl
    rw [hone', attenuated_one]
    exact amplified_of_room hgain hp hroom hone
  rw [if_neg hroom', hamplified]
  rfl

/-- A ramp edge to an unsettled resource is admitted. -/
theorem admits_ramp {entry : QueueEntry} {id : EdgeId} {src dst : ResourceId} {i j expansions : Nat}
    {settled : List Nat} (hindex : topo.indexOf dst = some j)
    (hres : topo.resourceAt j = some (probeResource dst)) (hset : j ∉ settled)
    (hexpansions : expansions < 4096) (hdepth : entry.depth < 8) :
    (rampContext grant m topo).admits settled expansions 0 entry i (rampEdge id src dst a) =
      .ok j := by
  have hfanout : ¬(rampContext grant m topo).policy.maxFanout.toNat ≤ 0 :=
    Nat.not_le_of_lt (by decide : 0 < (32 : UInt32).toNat)
  have hroom : ¬(rampContext grant m topo).policy.maxExpansions.toNat ≤ expansions :=
    Nat.not_le_of_lt hexpansions
  have hpin : (rampContext grant m topo).pinRefuses i (rampEdge id src dst a) = false := rfl
  have hrecovery : (rampEdge id src dst a).flags.has .recoveryOnly = false := by
    change EdgeFlags.has ⟨2⟩ .recoveryOnly = false
    decide
  have hhops : ¬(rampContext grant m topo).hopBound (rampEdge id src dst a) < entry.depth + 1 := by
    have hbound : (rampContext grant m topo).hopBound (rampEdge id src dst a) = 8 := rfl
    omega
  unfold TraversalContext.admits
  rw [if_neg hfanout, if_neg hroom, hpin, if_neg Bool.false_ne_true, if_neg (by exact nofun),
    hrecovery, if_neg Bool.false_ne_true]
  have hindex' : (rampContext grant m topo).topo.indexOf (rampEdge id src dst a).dst = some j :=
    hindex
  have hres' : (rampContext grant m topo).topo.resourceAt j = some (probeResource dst) := hres
  rw [hindex']
  dsimp only
  rw [hres']
  dsimp only
  rw [if_neg (by exact nofun), if_neg hset, if_neg (by exact nofun), if_neg (by exact nofun),
    if_neg hhops]

/-- Nothing damps a ramp: the floor is zero and the ledger remembers no arrival. -/
theorem damps_ramp {edge : DependencyEdge} {p : Potential} :
    (rampContext grant m topo).damps edge p = none := by
  have hmin : (rampContext grant m topo).policy.minPropagatable.raw = 0 := rfl
  have hzero : (rampContext grant m topo).floorPotential.raw = 0 := by
    rw [TraversalContext.floorPotential, Potential.raw_fromMagnitude, hmin]
  have hfloor : ¬p.raw < (rampContext grant m topo).floorPotential.raw := by omega
  have hpresent : ((rampContext grant m topo).ledger.damping edge.dst
      edge.id).present = false := by
    simp [rampContext, PropagationEngine.traversalContext, PropagationLedger.damping,
      PropagationLedger.make]
  have hcooling : (rampContext grant m topo).coolingDown edge p = false := by
    simp only [TraversalContext.coolingDown, hpresent, Bool.and_false, Bool.false_and]
  unfold TraversalContext.damps
  rw [if_neg hfloor, hcooling, if_neg Bool.false_ne_true]

/-- The origin of a ramp is seeded. -/
theorem enter_ramp (pq : EntryQueue) (grant : Gain) (hlaid : topo.Laid rampResources (rampEdges a b))
    (hm : 0 < m.raw) (p : PropagationEngine.Progress) :
    ∃ s, Traversal.enter (rampContext grant m topo) (PropagationEngine.startTraversal pq topo
      (rampPolicy grant) (rampRequest grant m topo) p (rampSignal grant m topo)) = .ok s ∧
      Traversal.Line 8192 (Traversal.originEntry (rampContext grant m topo) 0) [] s := by
  have hindex : topo.indexOf ⟨7⟩ = some 0 := by
    unfold Topology.indexOf
    rw [hlaid.resources]
    rfl
  have hres : topo.resourceAt 0 = some (probeResource ⟨7⟩) := by
    unfold Topology.resourceAt
    rw [hlaid.resources]
    rfl
  have horigin : Traversal.Origin (rampContext grant m topo) 0 (probeResource ⟨7⟩) :=
    ⟨hindex, hres, rfl⟩
  exact Traversal.enter_line PropagationEngine.startTraversal_fresh horigin rfl rfl
    (Potential.isZero_fromMagnitude hm)

/-- A settled resource of a ramp sends its pressure up the edge that leaves it. -/
theorem turn_ramp {pq : EntryQueue} {t : Traversal pq} {entry : QueueEntry} {before : List Nat}
    (grant : Gain) (m : Magnitude) (id : EdgeId) (src dst : ResourceId) (gain : Gain) (j : Nat)
    (hlaid : topo.Laid rampResources (rampEdges a b)) (hline : t.Line 8192 entry before)
    (hset : entry.node ∉ before) (hbefore : before.length < 3) (hdepth : entry.depth < 8)
    (hnode : rampResources[entry.node]? = some (probeResource src))
    (houts : Lib.Buckets.members (Topology.sourced rampResources (rampEdges a b)) entry.node =
      [entry.node])
    (hedge : (rampEdges a b)[entry.node]? = some (rampEdge id src dst gain))
    (hdst : (rampResources.findIdx? fun r => r.id == dst) = some j)
    (hres : rampResources[j]? = some (probeResource dst)) (hnew : j ∉ entry.node :: before)
    (hgain : 65536 < gain.raw) (hp : 0 < entry.potential.raw)
    (hgrant : entry.cumulativeGainQ16 * gain.raw / 65536 ≤ grant.raw)
    (hroom : entry.potential.raw ≤ 4294967296 * 65536 / gain.raw)
    (hone : entry.potential.raw * gain.raw / 65536 ≤ 4294967296) :
    ∃ u next, Traversal.turn (rampContext grant m topo) t = .again u ∧
      u.Line 8192 next (entry.node :: before) ∧ next.node = j ∧ next.depth = entry.depth + 1 ∧
      next.potential.raw = entry.potential.raw * gain.raw / 65536 ∧
      next.cumulativeGainQ16 = entry.cumulativeGainQ16 * gain.raw / 65536 := by
  have hresources : ∀ i, topo.resourceAt i = rampResources[i]? := by
    intro i
    unfold Topology.resourceAt
    rw [hlaid.resources]
  have hindex : topo.indexOf dst = some j := by
    unfold Topology.indexOf
    rw [hlaid.resources]
    exact hdst
  have hexp : Traversal.Expandable (rampContext grant m topo) entry (probeResource src) :=
    ⟨(hresources entry.node).trans hnode, hdepth, rfl, rfl⟩
  have hlt : entry.node < rampResources.length := (List.getElem?_eq_some_iff.mp hnode).1
  have hvisited : before.length < (rampContext grant m topo).policy.maxVisited.toNat :=
    hbefore.trans (by decide : 3 < (1024 : UInt32).toNat)
  have hlist : (rampContext grant m topo).topo.outEdgeIndicesAt entry.node = [entry.node] :=
    (Topology.outEdgeIndicesAt_eq hlaid rfl hlt).trans houts
  have hat : (rampContext grant m topo).topo.edgeAt entry.node =
      some (rampEdge id src dst gain) := by
    change topo.edges[entry.node]? = _
    rw [hlaid.edges]
    exact hedge
  obtain ⟨u, hturn, hnext⟩ := hline.turn (c := ⟨entry.node, rampEdge id src dst gain, j, _⟩)
    hvisited hset (by omega) hexp hlist hat
    (admits_ramp hindex ((hresources j).trans hres) hnew (by omega) hdepth)
    (carries_ramp hgain hp hgrant hroom hone) damps_ramp
  exact ⟨u, _, hturn, hnext, rfl, rfl, rfl, rfl⟩

/-- A steep ramp settles its last resource with more than the grant. -/
theorem settles_steep (pq : EntryQueue) (hsteep : Steep grant a b m)
    (hlaid : topo.Laid rampResources (rampEdges a b)) (p : PropagationEngine.Progress) :
    ∃ e ∈ Traversal.settlements (rampContext grant m topo) (PropagationEngine.startTraversal pq topo
      (rampPolicy grant) (rampRequest grant m topo) p (rampSignal grant m topo)),
      e.potential.raw = m.raw * a.raw * b.raw / 65536 := by
  obtain ⟨s, henter, hline⟩ := enter_ramp pq grant hlaid hsteep.magnitude p
  have hseed : (Traversal.originEntry (rampContext grant m topo) 0).potential.raw =
    m.raw * 65536 := rfl
  have hfirst : m.raw * 65536 * a.raw / 65536 = m.raw * a.raw := by
    rw [Nat.mul_right_comm]
    exact Nat.mul_div_cancel _ (by decide)
  have hgain : 65536 * a.raw / 65536 = a.raw := Nat.mul_div_cancel_left _ (by decide)
  have hm := hsteep.magnitude
  have hpos : 0 < m.raw * a.raw := Nat.mul_pos hm (by have := hsteep.first; omega)
  have hbetween : m.raw * a.raw ≤ 4294967296 := by
    refine hsteep.between.trans (Nat.div_le_of_le_mul ?_)
    rw [Nat.mul_comm]
    exact Nat.mul_le_mul_right _ hsteep.second.le
  have hnode₀ : (Traversal.originEntry (rampContext grant m topo) 0).node = 0 := rfl
  have hdepth₀ : (Traversal.originEntry (rampContext grant m topo) 0).depth = 0 := rfl
  obtain ⟨t₁, e₁, hturn₁, hline₁, hnode₁, hdepth₁, hp₁, hg₁⟩ := turn_ramp grant m ⟨1⟩ ⟨7⟩ ⟨8⟩
    a 1 hlaid hline List.not_mem_nil (by simp) (by rw [hdepth₀]; decide) rfl rfl rfl rfl rfl
    (by rw [hnode₀]; decide) hsteep.first.1 (by rw [hseed]; omega) (hgain.trans_le hsteep.first.2)
    (hseed.trans_le hsteep.entering) (by rw [hseed, hfirst]; exact hbetween)
  rw [hseed, hfirst] at hp₁
  change e₁.cumulativeGainQ16 = 65536 * a.raw / 65536 at hg₁
  rw [hgain] at hg₁
  obtain ⟨t₂, e₂, hturn₂, hline₂, hnode₂, -, hp₂, -⟩ := turn_ramp grant m ⟨2⟩ ⟨8⟩ ⟨9⟩ b 2
    hlaid hline₁ (by rw [hnode₁, hnode₀]; decide) (by simp) (by rw [hdepth₁, hdepth₀]; decide)
    (by rw [hnode₁]; rfl) (by rw [hnode₁]; rfl) (by rw [hnode₁]; rfl) rfl rfl
    (by rw [hnode₁, hnode₀]; decide) hsteep.second (by rw [hp₁]; exact hpos)
    (by rw [hg₁]; exact hsteep.product) (by rw [hp₁]; exact hsteep.between)
    (by rw [hp₁]; exact hsteep.leaving)
  have hs₂ : Traversal.settling (rampContext grant m topo) t₂ = some e₂ := by
    refine hline₂.settling (by decide : 2 < (1024 : UInt32).toNat) ?_
      (by rw [hnode₁, hnode₀, hnode₂]; decide)
    change e₂.node < topo.resources.length
    rw [hlaid.resources, hnode₂]
    decide
  refine ⟨e₂, ?_, by rw [hp₂, hp₁]⟩
  obtain ⟨k, hk⟩ : ∃ k, Traversal.fuel (rampContext grant m topo) = k + 3 := ⟨4095, rfl⟩
  unfold Traversal.settlements
  rw [henter, hk]
  dsimp only
  rw [Lib.Turns.log, hturn₁]
  dsimp only
  rw [Lib.Turns.log, hturn₂]
  dsimp only
  rw [Lib.Turns.log, hs₂]
  simp

/-- Enough for a ramp to be steep: the product of its gains exceeds the grant by a unit of the
magnitude, and less than one unit of the truncation. -/
theorem steep_of_product (k : Nat) (hunit : m.raw * k = 65536) (hfirst : 65536 < a.raw)
    (hle : a.raw ≤ grant.raw) (hsecond : 65536 < b.raw)
    (hover : 65536 * grant.raw + k ≤ a.raw * b.raw)
    (hunder : a.raw * b.raw ≤ 65536 * grant.raw + 65535)
    (hentering : m.raw * 65536 * a.raw ≤ 281474976710656)
    (hleaving : m.raw * (a.raw * b.raw) ≤ 281474976710656) : Steep grant a b m := by
  have hm : 0 < m.raw := by
    rcases Nat.eq_zero_or_pos m.raw with hzero | hpos
    · rw [hzero, Nat.zero_mul] at hunit
      cases hunit
    · exact hpos
  have hassoc : m.raw * a.raw * b.raw = m.raw * (a.raw * b.raw) := Nat.mul_assoc _ _ _
  refine ⟨⟨hfirst, hle⟩, hsecond, by omega, ?_, ?_, by omega, ?_, hm⟩
  · exact (Nat.le_div_iff_mul_le (by omega)).mpr hentering
  · refine (Nat.le_div_iff_mul_le (by omega)).mpr ?_
    rw [hassoc]
    exact hleaving
  · have hscaled : m.raw * (65536 * grant.raw + k) ≤ m.raw * (a.raw * b.raw) :=
      Nat.mul_le_mul_left _ hover
    rw [Nat.mul_add, hunit, Nat.mul_left_comm] at hscaled
    omega

/-- Every grant but the three smallest has a steep ramp. -/
theorem exists_steep (h : 65539 ≤ grant.raw) : ∃ a b m, Steep grant a b m := by
  have hmax := grant.le_max
  by_cases hsmall : grant.raw ≤ 65552
  · refine ⟨⟨65537, by decide, by decide⟩, ⟨grant.raw - 1, by omega, by omega⟩,
      ⟨32768, by decide⟩, steep_of_product 2 rfl ?_ ?_ ?_ ?_ ?_ ?_ ?_⟩ <;> dsimp only <;>
      omega
  · by_cases hrest : (65536 * grant.raw + 65535) % 65537 ≤ 65519
    · refine ⟨⟨65537, by decide, by decide⟩,
        ⟨(65536 * grant.raw + 65535) / 65537, by omega, by omega⟩,
        ⟨4096, by decide⟩, steep_of_product 16 rfl ?_ ?_ ?_ ?_ ?_ ?_ ?_⟩ <;> dsimp only <;>
        omega
    · -- the second smallest gain leaves no remainder to exceed the grant with; 65792 does
      obtain ⟨n, hn, hn', hlow, hhigh⟩ : ∃ n, 2 ≤ n ∧ n ≤ 7 ∧ 65537 * n ≤ grant.raw + 1 ∧
          grant.raw ≤ 65537 * n + 15 :=
        ⟨grant.raw - (65536 * grant.raw + 65535) / 65537, by omega⟩
      have hother : (65536 * grant.raw + 65535) % 65792 ≤ 65519 := by
        by_contra hrest'
        obtain ⟨e, he⟩ : ∃ e, grant.raw = 257 * e ∨ grant.raw + 1 = 257 * e :=
          ⟨grant.raw - (65536 * grant.raw + 65535) / 65792, by omega⟩
        clear hrest hrest'
        interval_cases n <;> omega
      have hlarge : 131073 ≤ grant.raw := by omega
      clear hrest hlow hhigh
      refine ⟨⟨65792, by decide, by decide⟩,
        ⟨(65536 * grant.raw + 65535) / 65792, by omega, by omega⟩,
        ⟨4096, by decide⟩, steep_of_product 16 rfl ?_ ?_ ?_ ?_ ?_ ?_ ?_⟩ <;> dsimp only <;>
        omega

namespace PropagationEngine

open Traversal

/-- The grant bounds every potential with which a traversal settles a resource or crosses an
edge. -/
def GrantBounds {pq : EntryQueue} (ctx : TraversalContext) (t : Traversal pq) : Prop :=
  (∀ e ∈ settlements ctx t, Within16 ctx.grantedGain ctx.seed e.potential) ∧
    ∀ h ∈ (t.run ctx).2.expl.hops, Within16 ctx.grantedGain ctx.seed h.potentialAfter

/-- A granted gain bounds the potential of every accepted signal exactly when it leaves room for
two of the smallest amplifications at most. -/
theorem grant_bounds_iff (grant : Gain) :
    (∀ (pq : EntryQueue) (topo : Topology) (policy : PropagationPolicy)
      (ledger : PropagationLedger) (fences : Option FenceTable) (pins : List (Option Generation))
      (request : PropagationRequest) (p : Progress) (s : PressureSignal), topo.Built →
      policy.validate.ok = true → s ∈ (admission policy request).accepted →
      (traversalContext topo policy ledger fences pins request s).grantedGain = grant.raw →
      GrantBounds (traversalContext topo policy ledger fences pins request s)
        (startTraversal pq topo policy request p s)) ↔ grant.raw ≤ 65538 := by
  constructor
  · intro h
    by_contra hlarge
    obtain ⟨a, b, m, hsteep⟩ := exists_steep (by omega : 65539 ≤ grant.raw)
    obtain ⟨topo, hbuilt, hlaid, hdigest⟩ := build_ramp a b
    have haccepted : rampSignal grant m topo ∈
        (admission (rampPolicy grant) (rampRequest grant m topo)).accepted := by
      rw [admission_ramp (by omega) hsteep.magnitude hdigest]
      exact List.mem_cons_self
    have hbounds := h .scan topo (rampPolicy grant) (.make 4 4 4) none []
      (rampRequest grant m topo) (unstarted (rampPolicy grant) (.make 4 4 4) topo
        (rampRequest grant m topo)) (rampSignal grant m topo) hbuilt (validate_rampPolicy grant)
      haccepted grantedGain_ramp
    obtain ⟨e, he, hp⟩ := settles_steep .scan hsteep hlaid _
    have hwithin : e.potential.raw * 65536 ≤ m.raw * 65536 * grant.raw := by
      have hle := (hbounds.1 e he).1
      change _ ≤ m.raw * 65536 * (rampContext grant m topo).grantedGain at hle
      rw [grantedGain_ramp] at hle
      exact hle
    have hpasses := hsteep.passes
    rw [hp, Nat.mul_right_comm m.raw 65536] at hwithin
    omega
  · rintro hsmall pq topo policy ledger fences pins request p s - - - hgrant
    have fresh : (startTraversal pq topo policy request p s).Fresh := startTraversal_fresh
    rcases run_settles (traversalContext topo policy ledger fences pins request s) fresh with
      ⟨-, hsame, hnone⟩ | ⟨t', hrun⟩
    · unfold GrantBounds
      rw [hsame, hnone, fresh.hops]
      exact ⟨nofun, nofun⟩
    · have hwithin := within_of_small_grant fresh (hgrant.trans_le hsmall)
        (hgrant ▸ grant.ge_unity) hrun
      unfold GrantBounds
      rw [hrun]
      exact hwithin

end PropagationEngine

end Backpressure
