import Backpressure.Engine.Outcome
import Backpressure.Model.TopologyBuild

/-!
# Probes

The plainest request that every check lets through: one full observation at a resource, under
a global grant. A probe shows that something can happen; its parameters are those that the
results vary.
-/

namespace Backpressure

/-- The defaults of the source under an identity. -/
def probePolicy : PropagationPolicy := { id := ⟨1⟩, generation := ⟨1⟩ }

def probeResource (id : ResourceId) : Resource := { id, definitionGeneration := ⟨1⟩ }

/-- An edge that carries everything. -/
def probeEdge (id : EdgeId) (src dst : ResourceId) : DependencyEdge :=
  { id, src, dst, attenuation := .one, dependencyGeneration := ⟨1⟩ }

/-- The topology of the declarations; empty when they do not build. -/
def probeTopology (resources : List Resource) (edges : List DependencyEdge) : Topology :=
  (Topology.build resources edges {} true).toOption.getD {}

theorem built_probeTopology {resources : List Resource} {edges : List DependencyEdge}
    (h : (Topology.build resources edges {} true).toOption.isSome = true) :
    (probeTopology resources edges).Built := by
  unfold probeTopology
  cases hbuild : Topology.build resources edges {} true with
  | error st =>
    rw [hbuild] at h
    cases h
  | ok topo => exact ⟨resources, edges, {}, true, hbuild⟩

/-- A full observation at the origin, good for any resource. -/
def probeSignal (policy : PropagationPolicy) (topo : Topology) (origin : ResourceId)
    (now : Tick) : PressureSignal :=
  { id := ⟨1⟩
    source := ⟨1⟩
    origin
    observation := .observed .one policy.thresholds
    originGeneration := ⟨1⟩
    topologyDigest := topo.digest
    epoch := ⟨1⟩
    publisher := { boot := { lo := 1 }, seq := 1 }
    issuedAt := now
    validUntil := now
    authority := { level := .globalLevel, epoch := ⟨1⟩, policyGeneration := policy.generation }
    provenance := { hops := [{}] }
    lineage := { lo := 1 } }

def probeRequest (policy : PropagationPolicy) (topo : Topology) (origin : ResourceId)
    (now : Tick) : PropagationRequest :=
  { id := ⟨1⟩
    policyId := policy.id
    policyGeneration := policy.generation
    topologyDigest := topo.digest
    epoch := ⟨1⟩
    now
    signals := [probeSignal policy topo origin now] }

/-- The epoch that probes are bound to. -/
def probeEpoch : Epoch := ⟨1⟩

namespace PropagationEngine

variable {policy : PropagationPolicy} {topo : Topology} {origin : ResourceId} {now : Tick}

/-- A probe with another observation under another grant is still valid. -/
theorem validate_probe_with {observation : PressureObservation} {authority : AuthorityVector}
    (hpolicy : policy.validate.ok = true) (hdigest : topo.digest.isZero = false)
    (horigin : origin.valid = true) (hobserved : observation.canAuthorizePropagation = true)
    (hauthority : authority.validate.ok = true) (hepoch : authority.epoch = ⟨1⟩)
    (hgeneration : authority.policyGeneration = policy.generation)
    (hpermits : authority.permitsPropagation = true) :
    (PressureSignal.validate { probeSignal policy topo origin now with observation, authority }
      policy now).ok = true := by
  have hexpired : PressureSignal.isExpired
      { probeSignal policy topo origin now with observation, authority } now policy = false := by
    refine decide_eq_false fun hlt => ?_
    by_cases hnow : now = kNoTick
    · exact absurd (UInt64.lt_iff_toNat_lt.mp hlt) (by simp [hnow, kNoTick])
    · have hdeadline : PressureSignal.deadline
          { probeSignal policy topo origin now with observation, authority } policy = now :=
        if_pos hnow
      rw [hdeadline] at hlt
      exact UInt64.lt_irrefl now hlt
  simp only [PressureSignal.validate, Status.ok_andThen, Status.ok_guard, ne_eq, reduceCtorEq,
    not_false_eq_true, hpolicy, hexpired, hauthority, hobserved, hpermits, hepoch, hgeneration,
    Bool.and_eq_true, true_and]
  simp only [probeSignal, hdigest, horigin]
  simp [StrongId.valid, StrongId.kInvalid, Generation.known, Epoch.known, Incarnation.valid,
    BootId.valid, Provenance.empty, Digest128.isZero]

theorem probeSignal_validate (hpolicy : policy.validate.ok = true)
    (hdigest : topo.digest.isZero = false) (horigin : origin.valid = true) :
    ((probeSignal policy topo origin now).validate policy now).ok = true :=
  validate_probe_with hpolicy hdigest horigin PressureObservation.canAuthorize_observed
    (by simp [AuthorityVector.validate, Epoch.known]) rfl rfl rfl

/-- A probe request with one valid signal admits it. -/
theorem admission_single (origin : ResourceId) {s : PressureSignal}
    (hvalid : (s.validate policy now).ok = true)
    (hdigest : s.topologyDigest = topo.digest) (hepoch : s.epoch = ⟨1⟩) :
    (admission policy { probeRequest policy topo origin now with signals := [s] }).accepted =
      [s] := by
  have hadmit : (admitSignal policy { probeRequest policy topo origin now with signals := [s] } []
      s).ok = true := admitSignal_ok.mpr ⟨hvalid, hdigest, hepoch, by simp⟩
  simp [admission, probeRequest, admitNext] at hadmit ⊢
  rw [if_pos hadmit]

theorem admission_probe (hpolicy : policy.validate.ok = true)
    (hdigest : topo.digest.isZero = false) (horigin : origin.valid = true) :
    (admission policy (probeRequest policy topo origin now)).accepted =
      [probeSignal policy topo origin now] :=
  admission_single origin (probeSignal_validate hpolicy hdigest horigin) rfl rfl

/-- A probe passes every check. -/
theorem ready_probe (hpolicy : policy.validate.ok = true)
    (hdigest : topo.digest.isZero = false) (horigin : origin.valid = true) :
    Ready topo policy probeEpoch (List.replicate topo.edges.length none)
      (probeRequest policy topo origin now) where
  checked := by
    simp [checkRequest, hpolicy, probeRequest, probeEpoch, StrongId.valid, StrongId.kInvalid]
  sources := (PropagationPolicy.valid_of_validate hpolicy).sources
  pinCount := Nat.zero_le _
  pins := rfl
  accepted := by simp [admission_probe hpolicy hdigest horigin]

theorem liveSignals_probe (hpolicy : policy.validate.ok = true)
    (hdigest : topo.digest.isZero = false) (horigin : origin.valid = true)
    {lineages applications dampings : Nat} :
    liveSignals policy (.make lineages applications dampings) (probeRequest policy topo origin now) =
      [probeSignal policy topo origin now] := by
  rw [liveSignals, admission_probe hpolicy hdigest horigin]
  simp [isLive, PropagationLedger.hasLineage, PropagationLedger.make, Lib.Window.has,
    Lib.Window.ofCapacity]

end PropagationEngine

end Backpressure
