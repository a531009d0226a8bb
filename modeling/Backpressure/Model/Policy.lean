import Backpressure.Core.Fixed
import Backpressure.Model.Generation

/-!
# Observations and the propagation policy

`observation.hpp` and `policy.hpp`: severity bands, observations, and the complete bounded
description of how far pressure may travel and how simultaneous sources are combined.
-/

namespace Backpressure

inductive Severity
  | unknown | nominal | elevated | high | critical | exhausted
  deriving DecidableEq, Repr

def Severity.toNat : Severity → Nat := Severity.ctorIdx

/-- Magnitude bands in parts per 100000. -/
structure SeverityThresholds where
  elevatedMilli : UInt32 := 40000
  highMilli : UInt32 := 65000
  criticalMilli : UInt32 := 85000
  exhaustedMilli : UInt32 := 98000
  deriving DecidableEq, Repr

def SeverityThresholds.validate (t : SeverityThresholds) : Status :=
  if t.elevatedMilli = 0 ∨ t.highMilli ≤ t.elevatedMilli ∨ t.criticalMilli ≤ t.highMilli ∨
      t.exhaustedMilli ≤ t.criticalMilli ∨ 100000 < t.exhaustedMilli then
    .error .invalidArgument "severity thresholds" t.exhaustedMilli.toNat
  else .success

def severityFromMagnitude (m : Magnitude) (t : SeverityThresholds) : Severity :=
  let milli := m.asPercentMilli
  if t.exhaustedMilli.toNat ≤ milli then .exhausted
  else if t.criticalMilli.toNat ≤ milli then .critical
  else if t.highMilli.toNat ≤ milli then .high
  else if t.elevatedMilli.toNat ≤ milli then .elevated
  else .nominal

/-- Either unknown, or a measured magnitude with a severity. -/
structure PressureObservation where
  measured : Magnitude := .zero
  declared : Severity := .unknown
  present : Bool := false
  downgraded : Bool := false
  deriving DecidableEq, Repr

namespace PressureObservation

def observed (m : Magnitude) (t : SeverityThresholds) : PressureObservation :=
  { measured := m, declared := severityFromMagnitude m t, present := true }

def severity (o : PressureObservation) : Severity := if o.present then o.declared else .unknown

def magnitude (o : PressureObservation) : Magnitude := if o.present then o.measured else .zero

/-- The gate that decides whether the observation may start anything. -/
def canAuthorizePropagation (o : PressureObservation) : Bool :=
  o.present && !o.measured.isZero && o.declared != .unknown

theorem magnitude_pos {o : PressureObservation} (h : o.canAuthorizePropagation = true) :
    0 < o.magnitude.raw := by
  simp only [canAuthorizePropagation, Q16.isZero, Bool.and_eq_true, Bool.not_eq_true',
    beq_eq_false_iff_ne] at h
  rw [magnitude, if_pos h.1.1]
  omega

theorem severityFromMagnitude_ne {m : Magnitude} {t : SeverityThresholds} :
    severityFromMagnitude m t ≠ .unknown := by
  unfold severityFromMagnitude
  dsimp only
  split_ifs <;> nofun

/-- A measurement may start something exactly when it is not zero. -/
theorem canAuthorize_observed {m : Magnitude} {t : SeverityThresholds} :
    (observed m t).canAuthorizePropagation = !m.isZero := by
  have hseverity : (severityFromMagnitude m t != .unknown) = true :=
    bne_iff_ne.mpr severityFromMagnitude_ne
  rw [canAuthorizePropagation, observed, hseverity, Bool.true_and, Bool.and_true]

end PressureObservation

inductive AggregationRule
  | max | saturatingSum | weightedMax | priorityFirst | count
  deriving DecidableEq, Repr

def AggregationRule.toNat : AggregationRule → Nat := AggregationRule.ctorIdx

/-- Recovery decay applied when the source pressure falls. -/
structure DecaySchedule where
  perStep : Q16 := .one
  stepTicks : Tick := 1
  floor : Magnitude := .zero
  maxSteps : UInt32 := 64
  deriving DecidableEq, Repr

def DecaySchedule.validate (d : DecaySchedule) : Status :=
  if d.stepTicks = 0 then .error .invalidArgument "decay step ticks" 0
  else if d.maxSteps = 0 ∨ 4096 < d.maxSteps then
    .error .outOfRange "decay max steps" d.maxSteps.toNat
  else .success

/-- The raw magnitude after some steps; at zero nothing is left to decay. -/
def decaySteps (perStep : Q16) : Nat → Nat → Nat
  | 0, raw => raw
  | steps + 1, raw => if raw = 0 then raw else decaySteps perStep steps (raw * perStep.raw / 65536)

/-- The magnitude after some steps, never below the floor and never above the start. -/
def DecaySchedule.decay (d : DecaySchedule) (start : Magnitude) (steps : Nat) : Magnitude :=
  let raw := decaySteps d.perStep (min steps d.maxSteps.toNat) start.raw
  let raw := if start.raw < raw then start.raw else raw
  let raw := if raw < d.floor.raw then d.floor.raw else raw
  let raw := if start.raw < raw then start.raw else raw
  Q16.fromRawSaturating raw

theorem DecaySchedule.decay_le (d : DecaySchedule) (start : Magnitude) (steps : Nat) :
    (d.decay start steps).raw ≤ start.raw := by
  have hcap : ∀ raw : Nat, (if start.raw < raw then start.raw else raw) ≤ start.raw := by
    intro raw
    split
    · exact Nat.le_refl _
    case isFalse hle => exact Nat.le_of_not_lt hle
  unfold decay Q16.fromRawSaturating
  exact (Nat.min_le_left _ _).trans (hcap _)

structure PropagationPolicy where
  id : PolicyId := {}
  generation : Generation := {}
  maxHops : UInt32 := 8
  maxFanout : UInt32 := 32
  maxExpansions : UInt32 := 4096
  maxVisited : UInt32 := 1024
  maxSources : UInt32 := 8
  maxRecords : UInt32 := 8192
  maxPathRecords : UInt32 := 256
  minPropagatable : Magnitude := .zero
  lifetimeTicks : Tick := 1000
  aggregation : AggregationRule := .max
  aggregationCeiling : Magnitude := .one
  allowAmplification : Bool := false
  maxCumulativeGain : Gain := .unity
  defaultCooldownTicks : Tick := 0
  hysteresisDelta : Magnitude := .zero
  recoveryDecay : DecaySchedule := {}
  thresholds : SeverityThresholds := {}
  requireKnownPressure : Bool := true
  deriving DecidableEq, Repr

namespace PropagationPolicy

def validate (p : PropagationPolicy) : Status :=
  if !p.id.valid then .error .invalidArgument "policy id" 0
  else if !p.generation.known then .error .staleGeneration "policy generation unbound" 0
  else if p.maxHops = 0 ∨ 64 < p.maxHops then
    .error .outOfRange "policy max hops" p.maxHops.toNat
  else if p.maxFanout = 0 ∨ 65536 < p.maxFanout then
    .error .outOfRange "policy max fanout" p.maxFanout.toNat
  else if p.maxExpansions = 0 ∨ 16777216 < p.maxExpansions then
    .error .outOfRange "policy max expansions" p.maxExpansions.toNat
  else if p.maxVisited = 0 ∨ 4194304 < p.maxVisited then
    .error .outOfRange "policy max visited" p.maxVisited.toNat
  else if p.maxSources = 0 ∨ 4096 < p.maxSources then
    .error .outOfRange "policy max sources" p.maxSources.toNat
  else if p.maxRecords = 0 ∨ 1048576 < p.maxRecords then
    .error .outOfRange "policy max records" p.maxRecords.toNat
  else if p.maxPathRecords = 0 ∨ p.maxRecords < p.maxPathRecords then
    .error .outOfRange "policy max path records" p.maxPathRecords.toNat
  -- one hop record per expansion plus one suppression record per settled resource
  else if p.maxRecords.toNat < p.maxExpansions.toNat + p.maxVisited.toNat then
    .error .invalidArgument "policy record budget" (p.maxExpansions.toNat + p.maxVisited.toNat)
  else if p.lifetimeTicks = 0 then .error .outOfRange "policy lifetime" 0
  else if p.aggregation = .count then
    .error .invalidArgument "policy aggregation rule" p.aggregation.toNat
  else if p.aggregationCeiling.isZero then .error .invalidArgument "policy aggregation ceiling" 0
  else if !p.allowAmplification && !p.maxCumulativeGain.isUnity then
    .error .conflict "gain bound without amplification" 0
  else if !p.requireKnownPressure then
    .error .invalidArgument "unknown pressure can never be authorized" 0
  else p.thresholds.validate.andThen <| p.recoveryDecay.validate.andThen <|
    if 1099511627776 < p.defaultCooldownTicks then
      .error .outOfRange "policy cooldown" p.defaultCooldownTicks.toNat
    else .success

/-- The tighter of the edge override and the policy bound; zero means no override. -/
def effectiveMaxHops (p : PropagationPolicy) (edgeOverride : UInt32) : Nat :=
  let base := if edgeOverride = 0 then p.maxHops.toNat else edgeOverride.toNat
  if base < p.maxHops.toNat then base else p.maxHops.toNat

def effectiveCooldown (p : PropagationPolicy) (edgeOverride : Tick) : Tick :=
  if edgeOverride = 0 then p.defaultCooldownTicks else edgeOverride

def digest (p : PropagationPolicy) : Digest128 :=
  let b := (DigestBuilder.domain {} 0x50).updateU64 p.id.value.toNat
  let b := digestGeneration b p.generation
  let b := [p.maxHops, p.maxFanout, p.maxExpansions, p.maxVisited, p.maxSources, p.maxRecords,
    p.maxPathRecords].foldl (fun b v => b.updateU32 v.toNat) b
  let b := (b.updateU32 p.minPropagatable.raw).updateU64 p.lifetimeTicks.toNat
  let b := (b.updateU8 p.aggregation.toNat).updateU32 p.aggregationCeiling.raw
  let b := (b.updateBool p.allowAmplification).updateU32 p.maxCumulativeGain.raw
  let b := (b.updateU64 p.defaultCooldownTicks.toNat).updateU32 p.hysteresisDelta.raw
  let b := (b.updateU32 p.recoveryDecay.perStep.raw).updateU64 p.recoveryDecay.stepTicks.toNat
  let b := (b.updateU32 p.recoveryDecay.floor.raw).updateU32 p.recoveryDecay.maxSteps.toNat
  let b := (b.updateU32 p.thresholds.elevatedMilli.toNat).updateU32 p.thresholds.highMilli.toNat
  let b := (b.updateU32 p.thresholds.criticalMilli.toNat).updateU32 p.thresholds.exhaustedMilli.toNat
  (b.updateBool p.requireKnownPressure).finish

/-- What an accepted policy guarantees about its budgets and bounds. -/
structure Valid (p : PropagationPolicy) : Prop where
  id : p.id.valid = true
  generation : p.generation.known = true
  hops : 0 < p.maxHops.toNat ∧ p.maxHops.toNat ≤ 64
  expansions : 0 < p.maxExpansions.toNat
  visited : 0 < p.maxVisited.toNat
  sources : 0 < p.maxSources.toNat
  records : p.maxExpansions.toNat + p.maxVisited.toNat ≤ p.maxRecords.toNat
  ceiling : 0 < p.aggregationCeiling.raw

theorem u32_pos {n : UInt32} (h : n ≠ 0) : 0 < n.toNat :=
  Nat.pos_of_ne_zero fun h0 => h (UInt32.toNat_inj.mp h0)

theorem valid_of_validate {p : PropagationPolicy} (h : p.validate.ok = true) : p.Valid := by
  simp only [validate, Status.ok_guard, ne_eq, reduceCtorEq, not_false_eq_true, not_or,
    Bool.not_eq_true', Bool.not_eq_false, Bool.not_eq_true, not_lt] at h
  obtain ⟨id, generation, hops, -, expansions, visited, sources, -, -, records, -, -, ceiling, -⟩ := h
  refine ⟨id, generation, ⟨u32_pos hops.1, ?_⟩, u32_pos expansions.1, u32_pos visited.1,
    u32_pos sources.1, records, ?_⟩
  · simpa using UInt32.le_iff_toNat_le.mp (UInt32.not_lt.mp hops.2)
  · simpa [Q16.isZero, Nat.pos_iff_ne_zero] using ceiling

end PropagationPolicy

end Backpressure
