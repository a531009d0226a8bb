import Backpressure.Engine.Probe
import Backpressure.Engine.Recover
import Backpressure.Model.Decay

/-!
# What a recovery does to a ledger

A recovery lowers the records of one source, each to at least its floor, and leaves everything else
as it is. Two recoveries take off at least the steps that one recovery at the later tick takes off,
unless the ticks that are left over before each of them make one more step.
-/

namespace Backpressure

namespace PropagationEngine

variable {policy : PropagationPolicy} {request : RecoveryRequest} {ledger ledger' : PropagationLedger}
  {key : SourceResourceKey} {record : ApplicationRecord}

/-- The whole decay steps between two ticks. -/
def stepsBetween (d : DecaySchedule) (t t' : Tick) : Nat :=
  (t'.toNat - t.toNat) / d.stepTicks.toNat

theorem raw_decayed : (decayed policy request key record).raw =
    min request.residual.raw (min record.magnitude.raw (max policy.recoveryDecay.floor.raw
      (decaySteps policy.recoveryDecay.perStep
        (min (stepsBetween policy.recoveryDecay record.tick request.now)
          policy.recoveryDecay.maxSteps.toNat) record.magnitude.raw))) := by
  have hsteps : (if record.tick < request.now
      then ((request.now - record.tick) / policy.recoveryDecay.stepTicks).toNat else 0) =
      stepsBetween policy.recoveryDecay record.tick request.now := by
    unfold stepsBetween
    split
    case isTrue hlt =>
      rw [UInt64.toNat_div, UInt64.toNat_sub_of_le _ _ (UInt64.le_of_lt hlt)]
    case isFalse hle =>
      have hle := UInt64.le_iff_toNat_le.mp (UInt64.not_lt.mp hle)
      rw [Nat.sub_eq_zero_of_le hle, Nat.zero_div]
  unfold decayed
  dsimp only
  rw [hsteps]
  have hdecay := policy.recoveryDecay.raw_decay record.magnitude
    (min (stepsBetween policy.recoveryDecay record.tick request.now)
      policy.recoveryDecay.maxSteps.toNat)
  rw [min_assoc, min_self] at hdecay
  split_ifs <;> omega

/-- A record is lowered to the floor at the furthest, and to the residual at least. -/
theorem decayed_bounds :
    min (min record.magnitude.raw request.residual.raw) policy.recoveryDecay.floor.raw ≤
        (decayed policy request key record).raw ∧
      (decayed policy request key record).raw ≤ min record.magnitude.raw request.residual.raw := by
  rw [raw_decayed]
  omega

/-! ## The frame -/

theorem application_of_lookup (h : ledger.applications.lookup key = some record) :
    ledger.application key.source key.resource = record := by
  unfold PropagationLedger.application
  rw [h]
  rfl

theorem mem_of_lookup (h : ledger.applications.lookup key = some record) :
    key ∈ ledger.applications :=
  AList.lookup_isSome.mp (Option.isSome_iff_exists.mpr ⟨record, h⟩)

theorem recoverTargets_frame {l : List SourceResourceKey} (hkeys : ∀ k ∈ l, k ∈ ledger.applications) :
    (recoverTargets policy request l ledger).1 = .success ∧
      (recoverTargets policy request l ledger).2.2.lineages = ledger.lineages ∧
      (recoverTargets policy request l ledger).2.2.dampings = ledger.dampings ∧
      ∀ k, k ∈ (recoverTargets policy request l ledger).2.2.applications ↔ k ∈ ledger.applications := by
  induction l generalizing ledger with
  | nil => exact ⟨rfl, rfl, rfl, fun _ => .rfl⟩
  | cons k rest ih =>
    have hk := hkeys k List.mem_cons_self
    have hkeys' : ∀ k' ∈ rest, k' ∈ ledger.applications :=
      fun k' hk' => hkeys k' (List.mem_cons_of_mem k hk')
    rcases @recoverTargets_step policy request _ _ rest hk with hskip | ⟨record, -, hlower⟩
    · rw [hskip]
      exact ih hkeys'
    · obtain ⟨hst, hlineages, hdampings, hmem⟩ := @ih (loweredLedger policy request ledger k record)
        fun k' hk' => mem_loweredLedger (hkeys' k' hk')
      rw [hlower]
      refine ⟨hst, hlineages.trans ?_, hdampings.trans ?_, fun k' => (hmem k').trans ⟨fun h => ?_,
        mem_loweredLedger⟩⟩
      · unfold loweredLedger
        split <;> rfl
      · unfold loweredLedger
        split <;> rfl
      · unfold loweredLedger at h
        split at h
        · exact h
        · rcases (AList.mem_insert _).mp h with rfl | hold
          · exact hk
          · exact hold

/-- What a recovery reports of a key. -/
def noted (policy : PropagationPolicy) (request : RecoveryRequest) (ledger : PropagationLedger)
    (key : SourceResourceKey) : Option NodeOutcome :=
  let record := ledger.application key.source key.resource
  if record.present then some (recoveryNode policy request key record) else none

theorem noted_eq (h : ledger.applications.lookup key = some record) :
    noted policy request ledger key =
      if record.present then some (recoveryNode policy request key record) else none := by
  unfold noted
  rw [application_of_lookup h]

theorem recoverTargets_nodes {l : List SourceResourceKey} (hkeys : ∀ k ∈ l, k ∈ ledger.applications)
    (hnodup : l.Nodup) :
    (recoverTargets policy request l ledger).2.1 = l.filterMap (noted policy request ledger) := by
  induction l generalizing ledger with
  | nil => rfl
  | cons k rest ih =>
    obtain ⟨hnew, hrest⟩ := List.nodup_cons.mp hnodup
    have hk := hkeys k List.mem_cons_self
    have hkeys' : ∀ k' ∈ rest, k' ∈ ledger.applications :=
      fun k' hk' => hkeys k' (List.mem_cons_of_mem k hk')
    obtain ⟨record, hlookup⟩ := Option.isSome_iff_exists.mp (AList.lookup_isSome.mpr hk)
    cases hpresent : record.present with
    | false =>
      have hnone : noted policy request ledger k = none := by
        rw [noted_eq hlookup, hpresent]
        rfl
      rw [recoverTargets_absent (application_of_lookup hlookup ▸ hpresent), ih hkeys' hrest, List.filterMap_cons_none hnone]
    | true =>
      have hsome : noted policy request ledger k = some (recoveryNode policy request k record) := by
        rw [noted_eq hlookup, hpresent]
        rfl
      rw [recoverTargets_cons hk hlookup hpresent, List.filterMap_cons_some hsome]
      dsimp only
      rw [ih (fun k' hk' => mem_loweredLedger (hkeys' k' hk')) hrest]
      congr 1
      refine List.filterMap_congr fun k' hk' => ?_
      have hne : k' ≠ k := fun heq => hnew (heq ▸ hk')
      unfold noted PropagationLedger.application
      rw [lookup_loweredLedger hne]

/-- What a recovery that is not a dry run leaves of a ledger, and what it reports. -/
structure LowersOne (policy : PropagationPolicy) (request : RecoveryRequest)
    (ledger ledger' : PropagationLedger) (nodes : List NodeOutcome) : Prop where
  keys : ∀ key, key ∈ ledger'.applications ↔ key ∈ ledger.applications
  others : ∀ key : SourceResourceKey, key.source ≠ request.source →
    ledger'.applications.lookup key = ledger.applications.lookup key
  lineages : ledger'.lineages = ledger.lineages
  dampings : ledger'.dampings = ledger.dampings
  lowered : ∀ resource record, ledger.applications.lookup ⟨request.source, resource⟩ = some record →
    record.present = true →
    ∃ record', ledger'.applications.lookup ⟨request.source, resource⟩ = some record' ∧
      min (min record.magnitude.raw request.residual.raw) policy.recoveryDecay.floor.raw ≤
        record'.magnitude.raw ∧
      record'.magnitude.raw ≤ min record.magnitude.raw request.residual.raw
  /-- In the order of the resources, each once. -/
  sorted : (nodes.map NodeOutcome.resource).Pairwise (· < ·)
  listed : ∀ resource, resource ∈ nodes.map NodeOutcome.resource ↔
    ∃ record, ledger.applications.lookup ⟨request.source, resource⟩ = some record ∧
      record.present = true
  magnitudes : ∀ n ∈ nodes, ∃ record', ledger'.applications.lookup ⟨request.source, n.resource⟩ =
    some record' ∧ record'.magnitude = n.applied

/-- A recovery past its checks. -/
theorem recover_of_checked {topo : Topology} {fences : Option FenceTable} {liveEpoch : Epoch}
    (h : (checkRecovery topo policy liveEpoch request).ok = true) :
    ∃ outcome : PropagationOutcome, recover (.of topo policy ledger fences liveEpoch) request =
        (outcome, some (recoverTargets policy request (recoveryTargets ledger request.source) ledger).2.2) ∧
      outcome.status = .success ∧ outcome.recoveryNodes =
        (recoveryTargets ledger request.source).filterMap (noted policy request ledger) := by
  have hkeys : ∀ k ∈ recoveryTargets ledger request.source, k ∈ ledger.applications := fun k hk =>
    (mem_recoveryTargets.mp hk).1
  have hnodes := @recoverTargets_nodes policy request _ _ hkeys nodup_recoveryTargets
  obtain ⟨hst, -⟩ := @recoverTargets_frame policy request _ _ hkeys
  unfold recover EngineContext.of
  dsimp only
  rw [h, Bool.not_true, if_neg (by decide)]
  exact ⟨_, rfl, hst, hnodes⟩

theorem sorted_noted {source : SourceId} :
    (((recoveryTargets ledger source).filterMap (noted policy request ledger)).map
      NodeOutcome.resource).Pairwise (· < ·) := by
  have hle : (recoveryTargets ledger source).Pairwise fun a b => a.resource ≤ b.resource := by
    have htotal : Std.Total fun a b : SourceResourceKey => a.resource ≤ b.resource :=
      ⟨fun a b => UInt64.le_total _ _⟩
    have htrans : IsTrans SourceResourceKey fun a b => a.resource ≤ b.resource :=
      ⟨fun a b c hab hbc => UInt64.le_trans hab hbc⟩
    unfold recoveryTargets
    exact List.pairwise_insertionSort _ _
  have hlt : (recoveryTargets ledger source).Pairwise fun a b => a.resource < b.resource := by
    refine (hle.and nodup_recoveryTargets).imp_of_mem fun {a b} ha hb hab => ?_
    have hsource : a.source = b.source :=
      (mem_recoveryTargets.mp ha).2.trans (mem_recoveryTargets.mp hb).2.symm
    refine UInt64.lt_of_le_of_ne hab.1 fun hsame => hab.2 ?_
    cases a
    cases b
    cases hsource
    exact congrArg _ (congrArg StrongId.mk hsame)
  rw [List.pairwise_map]
  refine hlt.filterMap _ fun a b hab n hn m hm => ?_
  unfold noted at hn hm
  dsimp only at hn hm
  split at hn
  · split at hm
    · cases hn
      cases hm
      exact hab
    · cases hm
  · cases hn

/-- Where a recovery can end. -/
theorem recover_cases (ctx : EngineContext) (request : RecoveryRequest) :
    ((recover ctx request).1.status.ok = false ∧ (recover ctx request).2 = ctx.ledger) ∨
      ∃ topo policy ledger, ctx = .of topo policy ledger ctx.fences ctx.liveEpoch ∧
        (checkRecovery topo policy ctx.liveEpoch request).ok = true := by
  obtain ⟨topology, policy, ledger, fences, liveEpoch⟩ := ctx
  cases topology with
  | none => exact .inl ⟨rfl, rfl⟩
  | some topo =>
    cases policy with
    | none => exact .inl ⟨rfl, rfl⟩
    | some policy =>
      cases ledger with
      | none => exact .inl ⟨rfl, rfl⟩
      | some ledger =>
        cases hchecked : (checkRecovery topo policy liveEpoch request).ok with
        | true => exact .inr ⟨topo, policy, ledger, rfl, hchecked⟩
        | false =>
          refine .inl ?_
          unfold recover
          dsimp only
          rw [hchecked, Bool.not_false, if_pos rfl]
          exact ⟨hchecked, rfl⟩

/-- The record of the source at a resource, after a recovery that is not a dry run. -/
theorem lookup_recovered (hdry : request.dryRun = false)
    (hkey : key.source = request.source) (hlookup : ledger.applications.lookup key = some record)
    (hpresent : record.present = true) :
    (recoverTargets policy request (recoveryTargets ledger request.source) ledger).2.2.applications.lookup
      key = some ⟨decayed policy request key record, request.now, true⟩ :=
  (recoverTargets_lowers (fun _ hk => (mem_recoveryTargets.mp hk).1) nodup_recoveryTargets
    (mem_recoveryTargets.mpr ⟨mem_of_lookup hlookup, hkey⟩) hlookup hpresent).2 hdry

/-- A recovery that fails leaves the ledger, and one that succeeds lowers one source. -/
theorem recovery_lowers_one (ctx : EngineContext) (request : RecoveryRequest) :
    ((recover ctx request).1.status.ok = false → (recover ctx request).2 = ctx.ledger) ∧
      ((recover ctx request).1.status.ok = true → request.dryRun = false →
        ∃ policy ledger ledger', ctx.policy = some policy ∧ ctx.ledger = some ledger ∧
          (recover ctx request).2 = some ledger' ∧
          LowersOne policy request ledger ledger' (recover ctx request).1.recoveryNodes) := by
  rcases recover_cases ctx request with ⟨hno, hsame⟩ | ⟨topo, policy, ledger, hctx, hchecked⟩
  · refine ⟨fun _ => hsame, fun hyes => ?_⟩
    rw [hno] at hyes
    cases hyes
  · obtain ⟨outcome, hrecover, hst, hnodes⟩ := @recover_of_checked policy request ledger topo ctx.fences _ hchecked
    rw [hctx] at hrecover ⊢
    have hkeys : ∀ k ∈ recoveryTargets ledger request.source, k ∈ ledger.applications := fun k hk =>
      (mem_recoveryTargets.mp hk).1
    obtain ⟨-, hlineages, hdampings, hmem⟩ := @recoverTargets_frame policy request _ _ hkeys
    have hlisted : ∀ n, n ∈ outcome.recoveryNodes ↔ ∃ resource record,
        ledger.applications.lookup ⟨request.source, resource⟩ = some record ∧ record.present = true ∧
          n = recoveryNode policy request ⟨request.source, resource⟩ record := by
      intro n
      rw [hnodes, List.mem_filterMap]
      constructor
      · rintro ⟨⟨source, resource⟩, hkey, hnoted⟩
        obtain ⟨hin, rfl⟩ := mem_recoveryTargets.mp hkey
        obtain ⟨record, hlookup⟩ := Option.isSome_iff_exists.mp (AList.lookup_isSome.mpr hin)
        rw [noted_eq hlookup] at hnoted
        split at hnoted
        case isTrue hpresent =>
          cases hnoted
          exact ⟨resource, record, hlookup, hpresent, rfl⟩
        case isFalse => cases hnoted
      · rintro ⟨resource, record, hlookup, hpresent, rfl⟩
        refine ⟨_, mem_recoveryTargets.mpr ⟨mem_of_lookup hlookup, rfl⟩, ?_⟩
        rw [noted_eq hlookup, if_pos hpresent]
    rw [show recover (.of topo policy ledger ctx.fences ctx.liveEpoch) request = _ from hrecover]
    refine ⟨fun hno => ?_, fun _ hdry => ⟨policy, ledger, _, rfl, rfl, rfl, hmem, ?_, hlineages,
      hdampings, ?_, ?_, ?_, ?_⟩⟩
    · rw [hst] at hno
      cases hno
    · exact fun key hother => recoverTargets_keeps hkeys fun hin => hother (mem_recoveryTargets.mp hin).2
    · intro resource record hlookup hpresent
      exact ⟨_, lookup_recovered hdry rfl hlookup hpresent, decayed_bounds⟩
    · rw [hnodes]
      exact sorted_noted
    · intro resource
      rw [List.mem_map]
      constructor
      · rintro ⟨n, hn, hresource⟩
        obtain ⟨resource', record, hlookup, hpresent, rfl⟩ := (hlisted n).mp hn
        obtain rfl : resource' = resource := hresource
        exact ⟨record, hlookup, hpresent⟩
      · rintro ⟨record, hlookup, hpresent⟩
        exact ⟨_, (hlisted _).mpr ⟨resource, record, hlookup, hpresent, rfl⟩, rfl⟩
    · intro n hn
      obtain ⟨resource, record, hlookup, hpresent, rfl⟩ := (hlisted n).mp hn
      exact ⟨_, @lookup_recovered policy request ledger ⟨request.source, resource⟩ record hdry rfl
        hlookup hpresent, rfl⟩

/-! ## Cadence -/

section Cadence

variable {topo : Topology} {fences : Option FenceTable} {liveEpoch : Epoch}
  {first second : RecoveryRequest} {t₀ t₁ t₂ : Tick} {d : DecaySchedule}

/-- The ticks left over before two calls make one more step. -/
def StepLost (d : DecaySchedule) (t₀ t₁ t₂ : Tick) : Prop :=
  d.stepTicks.toNat ≤ (t₁.toNat - t₀.toNat) % d.stepTicks.toNat +
    (t₂.toNat - t₁.toNat) % d.stepTicks.toNat

/-- The step that is lost takes nothing off a magnitude, or the residual decays as far without it. -/
def Unfelt (d : DecaySchedule) (residual m : Nat) (t₀ t₁ t₂ : Tick) : Prop :=
  let left := max d.floor.raw (decaySteps d.perStep (stepsBetween d t₀ t₂) m)
  decaySteps d.perStep (stepsBetween d t₁ t₂) residual ≤ left ∨
    decaySteps d.perStep (stepsBetween d t₀ t₁ + stepsBetween d t₁ t₂) m ≤ left

/-- Two recoveries leave no more than the second alone, at every resource of the source. -/
def NoSlower (topo : Topology) (policy : PropagationPolicy) (fences : Option FenceTable)
    (liveEpoch : Epoch) (ledger : PropagationLedger) (first second : RecoveryRequest) : Prop :=
  ∀ ledger₁ ledger₂ ledger', (recover (.of topo policy ledger fences liveEpoch) first).2 = some ledger₁ →
    (recover (.of topo policy ledger₁ fences liveEpoch) second).2 = some ledger₂ →
    (recover (.of topo policy ledger fences liveEpoch) second).2 = some ledger' →
    ∀ resource, (ledger₂.application second.source resource).magnitude.raw ≤
      (ledger'.application second.source resource).magnitude.raw

theorem stepsBetween_add (h₀₁ : t₀ ≤ t₁) (h₁₂ : t₁ ≤ t₂) (hlost : ¬StepLost d t₀ t₁ t₂)
    (hpos : 0 < d.stepTicks.toNat) :
    stepsBetween d t₀ t₁ + stepsBetween d t₁ t₂ = stepsBetween d t₀ t₂ := by
  have h₀₁ := UInt64.le_iff_toNat_le.mp h₀₁
  have h₁₂ := UInt64.le_iff_toNat_le.mp h₁₂
  have hsum : t₂.toNat - t₀.toNat = (t₁.toNat - t₀.toNat) + (t₂.toNat - t₁.toNat) := by omega
  unfold StepLost at hlost
  unfold stepsBetween
  rw [hsum, Nat.add_div hpos, if_neg hlost, Nat.add_zero]

/-- What a recovery leaves of a magnitude. -/
def recoveredRaw (d : DecaySchedule) (residual steps m : Nat) : Nat :=
  min residual (min m (max d.floor.raw (decaySteps d.perStep steps m)))

theorem recoveredRaw_twice_le_iff {residual m n₁ n₂ n : Nat} :
    recoveredRaw d residual n₂ (recoveredRaw d residual n₁ m) ≤ recoveredRaw d residual n m ↔
      decaySteps d.perStep n₂ residual ≤ max d.floor.raw (decaySteps d.perStep n m) ∨
        decaySteps d.perStep (n₁ + n₂) m ≤ max d.floor.raw (decaySteps d.perStep n m) := by
  have hmono := @monotone_decaySteps d.perStep n₂
  have hfloor := @decaySteps_le d.perStep n₂ d.floor.raw
  have hcommute : decaySteps d.perStep (n₁ + n₂) m ≤ decaySteps d.perStep n₂ m := by
    rw [Nat.add_comm, decaySteps_add]
    exact decaySteps_le
  have hself := @decaySteps_le d.perStep n₂ (recoveredRaw d residual n₁ m)
  have hparts : decaySteps d.perStep n₂ (recoveredRaw d residual n₁ m) =
      min (decaySteps d.perStep n₂ residual) (min (decaySteps d.perStep n₂ m)
        (max (decaySteps d.perStep n₂ d.floor.raw) (decaySteps d.perStep (n₁ + n₂) m))) := by
    rw [recoveredRaw, hmono.map_min, hmono.map_min, hmono.map_max, decaySteps_add]
  have hresidual : recoveredRaw d residual n₁ m ≤ residual := Nat.min_le_left _ _
  have hmagnitude : recoveredRaw d residual n₁ m ≤ m :=
    (Nat.min_le_right _ _).trans (Nat.min_le_left _ _)
  change min residual (min (recoveredRaw d residual n₁ m) (max d.floor.raw
    (decaySteps d.perStep n₂ (recoveredRaw d residual n₁ m)))) ≤
      min residual (min m (max d.floor.raw (decaySteps d.perStep n m))) ↔ _
  rw [hparts]
  rw [hparts] at hself
  generalize recoveredRaw d residual n₁ m = once at *
  generalize decaySteps d.perStep n₂ residual = a at *
  have hbound : min (decaySteps d.perStep n₂ m) (max (decaySteps d.perStep n₂ d.floor.raw)
      (decaySteps d.perStep (n₁ + n₂) m)) ≤ max d.floor.raw (decaySteps d.perStep n m) ↔
        decaySteps d.perStep (n₁ + n₂) m ≤ max d.floor.raw (decaySteps d.perStep n m) := by omega
  rw [← hbound, ← min_le_iff]
  generalize min a (min _ _) = left at hself ⊢
  constructor <;> omega

/-- A record that is not there stays so. -/
theorem recoverTargets_spares {l : List SourceResourceKey} (hkeys : ∀ k ∈ l, k ∈ ledger.applications)
    (h : (ledger.application key.source key.resource).present = false) :
    (recoverTargets policy request l ledger).2.2.applications.lookup key =
      ledger.applications.lookup key := by
  induction l generalizing ledger with
  | nil => rfl
  | cons k rest ih =>
    have hkeys' : ∀ k' ∈ rest, k' ∈ ledger.applications :=
      fun k' hk' => hkeys k' (List.mem_cons_of_mem k hk')
    by_cases hk : key = k
    · subst hk
      rw [recoverTargets_absent h]
      exact ih hkeys' h
    · rcases @recoverTargets_step policy request _ _ rest (hkeys k List.mem_cons_self) with
        hskip | ⟨record, -, hlower⟩
      · rw [hskip]
        exact ih hkeys' h
      · have hsame := @lookup_loweredLedger policy request ledger k record key hk
        rw [hlower]
        dsimp only
        rw [ih (fun k' hk' => mem_loweredLedger (hkeys' k' hk')), hsame]
        unfold PropagationLedger.application at h ⊢
        rwa [hsame]

theorem recover_absent {ledger' : PropagationLedger} {source : SourceId} {resource : ResourceId}
    (hchecked : (checkRecovery topo policy liveEpoch request).ok = true)
    (h : (recover (.of topo policy ledger fences liveEpoch) request).2 = some ledger')
    (habsent : (ledger.application source resource).present = false) :
    ledger'.application source resource = ledger.application source resource := by
  obtain ⟨outcome, hrecover, -, -⟩ := @recover_of_checked policy request ledger topo fences _ hchecked
  rw [hrecover] at h
  cases h
  have hkeys : ∀ k ∈ recoveryTargets ledger request.source, k ∈ ledger.applications := fun k hk =>
    (mem_recoveryTargets.mp hk).1
  have hsame := @recoverTargets_spares policy request ledger ⟨source, resource⟩ _ hkeys habsent
  unfold PropagationLedger.application
  rw [hsame]

theorem recover_present {ledger' : PropagationLedger} {resource : ResourceId}
    (hchecked : (checkRecovery topo policy liveEpoch request).ok = true) (hdry : request.dryRun = false)
    (h : (recover (.of topo policy ledger fences liveEpoch) request).2 = some ledger')
    (hpresent : (ledger.application request.source resource).present = true) :
    ∃ m : Magnitude, ledger'.application request.source resource = ⟨m, request.now, true⟩ ∧
      m.raw = recoveredRaw policy.recoveryDecay request.residual.raw
        (min (stepsBetween policy.recoveryDecay (ledger.application request.source resource).tick
          request.now) policy.recoveryDecay.maxSteps.toNat)
        (ledger.application request.source resource).magnitude.raw := by
  obtain ⟨outcome, hrecover, -, -⟩ := @recover_of_checked policy request ledger topo fences _ hchecked
  rw [hrecover] at h
  cases h
  obtain ⟨record, hlookup⟩ : ∃ record, ledger.applications.lookup ⟨request.source, resource⟩ =
      some record := by
    unfold PropagationLedger.application at hpresent
    cases hlookup : ledger.applications.lookup ⟨request.source, resource⟩ with
    | none =>
      rw [hlookup] at hpresent
      cases hpresent
    | some record => exact ⟨record, rfl⟩
  have hrecord := application_of_lookup hlookup
  dsimp only at hrecord
  rw [hrecord] at hpresent ⊢
  have hlowered := @lookup_recovered policy request ledger ⟨request.source, resource⟩ record hdry rfl
    hlookup hpresent
  refine ⟨_, application_of_lookup hlowered, ?_⟩
  rw [raw_decayed]
  rfl

theorem stepsBetween_mono (h₁ : t₀ ≤ t₁) (h₂ : t₁ ≤ t₂) :
    stepsBetween d t₀ t₁ ≤ stepsBetween d t₀ t₂ ∧ stepsBetween d t₁ t₂ ≤ stepsBetween d t₀ t₂ := by
  have h₁ := UInt64.le_iff_toNat_le.mp h₁
  have h₂ := UInt64.le_iff_toNat_le.mp h₂
  exact ⟨Nat.div_le_div_right (by omega), Nat.div_le_div_right (by omega)⟩

theorem steps_of_validate (h : policy.validate.ok = true) :
    0 < policy.recoveryDecay.stepTicks.toNat ∧ 0 < policy.recoveryDecay.maxSteps.toNat := by
  have hdecay : policy.recoveryDecay.validate.ok = true := by
    simp only [PropagationPolicy.validate, Status.ok_guard, Status.ok_andThen, ne_eq, reduceCtorEq,
      not_false_eq_true, Bool.and_eq_true] at h
    exact h.2.2.2.2.2.2.2.2.2.2.2.2.2.2.2.2.1
  unfold DecaySchedule.validate at hdecay
  rw [Status.ok_guard (by decide), Status.ok_guard (by decide), not_or] at hdecay
  exact ⟨Nat.pos_of_ne_zero fun h0 => hdecay.1 (UInt64.toNat_inj.mp h0),
    PropagationPolicy.u32_pos hdecay.2.1.1⟩

theorem validate_of_checked (h : (checkRecovery topo policy liveEpoch request).ok = true) :
    policy.validate.ok = true := by
  unfold checkRecovery at h
  rw [Status.ok_andThen, Bool.and_eq_true] at h
  exact h.1

theorem noSlower_iff (hfirst : (checkRecovery topo policy liveEpoch first).ok = true)
    (hsecond : (checkRecovery topo policy liveEpoch second).ok = true)
    (hdry : first.dryRun = false ∧ second.dryRun = false) (hsource : first.source = second.source)
    (hresidual : first.residual = second.residual) (h₀₁ : t₀ ≤ first.now) (h₁₂ : first.now ≤ second.now)
    (hticks : ∀ resource, (ledger.application second.source resource).present = true →
      (ledger.application second.source resource).tick = t₀)
    (hsteps : stepsBetween policy.recoveryDecay t₀ second.now ≤ policy.recoveryDecay.maxSteps.toNat) :
    NoSlower topo policy fences liveEpoch ledger first second ↔
      ¬StepLost policy.recoveryDecay t₀ first.now second.now ∨
        ∀ resource, (ledger.application second.source resource).present = true →
          Unfelt policy.recoveryDecay second.residual.raw
            (ledger.application second.source resource).magnitude.raw t₀ first.now second.now := by
  obtain ⟨outcome₁, hrecover₁, -, -⟩ := @recover_of_checked policy first ledger topo fences _ hfirst
  generalize hledger₁ : (recoverTargets policy first (recoveryTargets ledger first.source) ledger).2.2 =
    ledger₁ at hrecover₁
  obtain ⟨outcome₂, hrecover₂, -, -⟩ := @recover_of_checked policy second ledger₁ topo fences _ hsecond
  obtain ⟨outcome, hrecover, -, -⟩ := @recover_of_checked policy second ledger topo fences _ hsecond
  have hresult₁ := congrArg Prod.snd hrecover₁
  have hresult₂ := congrArg Prod.snd hrecover₂
  have hresult := congrArg Prod.snd hrecover
  have hmono := @stepsBetween_mono t₀ first.now second.now policy.recoveryDecay h₀₁ h₁₂
  -- resource by resource, both sides are the same comparison of magnitudes
  have hresource : ∀ resource, (ledger.application second.source resource).present = true →
      (((recoverTargets policy second (recoveryTargets ledger₁ second.source) ledger₁).2.2.application
          second.source resource).magnitude.raw ≤
        ((recoverTargets policy second (recoveryTargets ledger second.source) ledger).2.2.application
          second.source resource).magnitude.raw ↔
        Unfelt policy.recoveryDecay second.residual.raw
          (ledger.application second.source resource).magnitude.raw t₀ first.now second.now) := by
    intro resource hpresent
    have htick := hticks resource hpresent
    obtain ⟨m₁, happlied₁, hm₁⟩ := recover_present hfirst hdry.1 hresult₁ (hsource ▸ hpresent)
    rw [hsource] at happlied₁ hm₁
    obtain ⟨m₂, happlied₂, hm₂⟩ := recover_present hsecond hdry.2 hresult₂ (by rw [happlied₁])
    obtain ⟨m, happlied, hm⟩ := recover_present hsecond hdry.2 hresult hpresent
    rw [htick, min_eq_left (hmono.1.trans hsteps)] at hm₁
    rw [happlied₁, hm₁, hresidual] at hm₂
    dsimp only at hm₂
    rw [min_eq_left (hmono.2.trans hsteps)] at hm₂
    rw [htick, min_eq_left hsteps] at hm
    rw [happlied₂, happlied, hm₂, hm, recoveredRaw_twice_le_iff]
    exact Iff.rfl
  have hall : NoSlower topo policy fences liveEpoch ledger first second ↔
      ∀ resource, (ledger.application second.source resource).present = true →
        Unfelt policy.recoveryDecay second.residual.raw
          (ledger.application second.source resource).magnitude.raw t₀ first.now second.now := by
    constructor
    · intro h resource hpresent
      exact (hresource resource hpresent).mp (h _ _ _ hresult₁ hresult₂ hresult resource)
    · intro h l₁ l₂ l hl₁ hl₂ hl resource
      rw [hresult₁] at hl₁
      cases hl₁
      rw [hresult₂] at hl₂
      cases hl₂
      rw [hresult] at hl
      cases hl
      cases hpresent : (ledger.application second.source resource).present with
      | true => exact (hresource resource hpresent).mpr (h resource hpresent)
      | false =>
        have hsame₁ := recover_absent hfirst hresult₁ hpresent
        rw [recover_absent hsecond hresult₂ (hsame₁ ▸ hpresent), recover_absent hsecond hresult hpresent,
          hsame₁]
  rw [hall]
  refine ⟨.inr, fun h => h.elim (fun hkept resource _ => .inr ?_) id⟩
  rw [stepsBetween_add h₀₁ h₁₂ hkept (steps_of_validate (validate_of_checked hsecond)).1]
  exact le_max_right _ _

/-! ## Recovering again and again -/

/-- Recoveries at some ticks, one after the other. -/
def recoverAt (topo : Topology) (policy : PropagationPolicy) (fences : Option FenceTable)
    (liveEpoch : Epoch) (request : RecoveryRequest) : List Tick → PropagationLedger → PropagationLedger
  | [], ledger => ledger
  | now :: rest, ledger => recoverAt topo policy fences liveEpoch request rest
      ((recover (.of topo policy ledger fences liveEpoch) { request with now }).2.getD ledger)

/-- Every tick is a whole step behind the one before. -/
def Spaced (d : DecaySchedule) : Tick → List Tick → Prop
  | _, [] => True
  | t, now :: rest => t.toNat + d.stepTicks.toNat ≤ now.toNat ∧ Spaced d now rest

theorem recoverAt_reaches {ticks : List Tick} {resource : ResourceId}
    (hdecays : policy.recoveryDecay.perStep.raw < 65536) (hdry : request.dryRun = false)
    (hchecked : ∀ now ∈ ticks, (checkRecovery topo policy liveEpoch { request with now }).ok = true)
    (hpresent : (ledger.application request.source resource).present = true)
    (hspaced : Spaced policy.recoveryDecay (ledger.application request.source resource).tick ticks) :
    ((recoverAt topo policy fences liveEpoch request ticks ledger).application
        request.source resource).magnitude.raw ≤
      max policy.recoveryDecay.floor.raw
        ((ledger.application request.source resource).magnitude.raw - ticks.length) := by
  induction ticks generalizing ledger with
  | nil => exact le_max_right _ _
  | cons now rest ih =>
    have hnow := hchecked now List.mem_cons_self
    obtain ⟨hgap, hrest⟩ := hspaced
    obtain ⟨hstep, hmax⟩ := steps_of_validate (validate_of_checked hnow)
    obtain ⟨outcome, hrecover, -, -⟩ :=
      @recover_of_checked policy { request with now } ledger topo fences _ hnow
    have hresult := congrArg Prod.snd hrecover
    rw [recoverAt, hresult, Option.getD_some]
    obtain ⟨m, happlied, hm⟩ := recover_present hnow hdry hresult hpresent
    have happlied : (recoverTargets policy { request with now } (recoveryTargets ledger request.source)
        ledger).2.2.application request.source resource = ⟨m, now, true⟩ := happlied
    have hlater := ih (fun t ht => hchecked t (List.mem_cons_of_mem now ht)) (by rw [happlied])
      (by rw [happlied]; exact hrest)
    rw [happlied] at hlater
    refine hlater.trans ?_
    have hsteps : 0 < stepsBetween policy.recoveryDecay
        (ledger.application request.source resource).tick now := by
      unfold stepsBetween
      exact Nat.div_pos (by omega) hstep
    have hlower := @decaySteps_lt policy.recoveryDecay.perStep
      (min (stepsBetween policy.recoveryDecay (ledger.application request.source resource).tick now)
        policy.recoveryDecay.maxSteps.toNat)
      (ledger.application request.source resource).magnitude.raw hdecays (lt_min hsteps hmax)
    have hraw : m.raw ≤ max policy.recoveryDecay.floor.raw
        ((ledger.application request.source resource).magnitude.raw - 1) := by
      rw [hm]
      unfold recoveredRaw
      dsimp only
      omega
    rw [List.length_cons]
    dsimp only
    omega

/-- Recovering twice is no slower than recovering once exactly when no step is lost, or none that is
felt; and recovering again and again, a step at the least behind the last time, reaches the floor. -/
theorem no_slower_iff (topo : Topology) (policy : PropagationPolicy) (fences : Option FenceTable)
    (liveEpoch : Epoch) (ledger : PropagationLedger) (first second : RecoveryRequest) (t₀ : Tick)
    (hfirst : (checkRecovery topo policy liveEpoch first).ok = true)
    (hsecond : (checkRecovery topo policy liveEpoch second).ok = true)
    (hdry : first.dryRun = false ∧ second.dryRun = false) (hsource : first.source = second.source)
    (hresidual : first.residual = second.residual) (h₀₁ : t₀ ≤ first.now) (h₁₂ : first.now ≤ second.now)
    (hticks : ∀ resource, (ledger.application second.source resource).present = true →
      (ledger.application second.source resource).tick = t₀)
    (hsteps : stepsBetween policy.recoveryDecay t₀ second.now ≤ policy.recoveryDecay.maxSteps.toNat) :
    (NoSlower topo policy fences liveEpoch ledger first second ↔
      ¬StepLost policy.recoveryDecay t₀ first.now second.now ∨
        ∀ resource, (ledger.application second.source resource).present = true →
          Unfelt policy.recoveryDecay second.residual.raw
            (ledger.application second.source resource).magnitude.raw t₀ first.now second.now) ∧
      ∀ (ticks : List Tick) (resource : ResourceId), policy.recoveryDecay.perStep.raw < 65536 →
        (∀ now ∈ ticks, (checkRecovery topo policy liveEpoch { second with now }).ok = true) →
        (ledger.application second.source resource).present = true →
        Spaced policy.recoveryDecay t₀ ticks → 65536 ≤ ticks.length →
        ((recoverAt topo policy fences liveEpoch second ticks ledger).application
          second.source resource).magnitude.raw ≤ policy.recoveryDecay.floor.raw := by
  refine ⟨noSlower_iff hfirst hsecond hdry hsource hresidual h₀₁ h₁₂ hticks hsteps, ?_⟩
  intro ticks resource hdecays hchecked hpresent hspaced hlong
  rw [← hticks resource hpresent] at hspaced
  have hreach := @recoverAt_reaches policy second ledger topo fences liveEpoch ticks resource hdecays
    hdry.2 hchecked hpresent hspaced
  have hone := (ledger.application second.source resource).magnitude.le_one
  omega

end Cadence

/-! ## One record at full pressure -/

def recoveryTopology : Topology := probeTopology [probeResource ⟨7⟩] []

/-- Half of the pressure is left every ten ticks. -/
def halvingPolicy : PropagationPolicy :=
  { probePolicy with recoveryDecay := { perStep := ⟨32768, by decide⟩, stepTicks := 10, maxSteps := 8 } }

def fullLedger : PropagationLedger :=
  ((PropagationLedger.make 4 4 4).recordApplication ⟨1⟩ ⟨7⟩ .one 0).2

/-- A recovery whose residual takes nothing off. -/
def recoveryAt (now : Tick) : RecoveryRequest :=
  { id := ⟨1⟩, source := ⟨1⟩, origin := ⟨7⟩, originGeneration := ⟨1⟩
    topologyDigest := recoveryTopology.digest, epoch := probeEpoch, now, residual := .one }

theorem checked_recoveryAt : ∀ now ∈ [5, 10, 20],
    (checkRecovery recoveryTopology halvingPolicy probeEpoch (recoveryAt now)).ok = true :=
  List.all_eq_true.mp (by decide +kernel)

/-- One step of decay halves the record. -/
theorem recovery_lowers_full :
    (recover (.of recoveryTopology halvingPolicy fullLedger none probeEpoch) (recoveryAt 10)).1.status.ok =
        true ∧
      ∃ ledger', LowersOne halvingPolicy (recoveryAt 10) fullLedger ledger'
        (recover (.of recoveryTopology halvingPolicy fullLedger none probeEpoch)
          (recoveryAt 10)).1.recoveryNodes := by
  have hok : (recover (.of recoveryTopology halvingPolicy fullLedger none probeEpoch)
      (recoveryAt 10)).1.status.ok = true := by
    decide +kernel
  obtain ⟨policy, ledger, ledger', hpolicy, hledger, -, hlowers⟩ :=
    (recovery_lowers_one (.of recoveryTopology halvingPolicy fullLedger none probeEpoch)
      (recoveryAt 10)).2 hok rfl
  cases hpolicy
  cases hledger
  exact ⟨hok, ledger', hlowers⟩

theorem tick_fullLedger {resource : ResourceId}
    (hpresent : (fullLedger.application ⟨1⟩ resource).present = true) :
    (fullLedger.application ⟨1⟩ resource).tick = 0 := by
  by_cases hresource : resource = ⟨7⟩
  · subst hresource
    rfl
  · have hnone : fullLedger.application ⟨1⟩ resource = {} := by
      unfold fullLedger PropagationLedger.recordApplication PropagationLedger.application
      rw [if_neg (by decide)]
      dsimp only
      rw [AList.lookup_insert_ne (fun heq => hresource (congrArg SourceResourceKey.resource heq))]
      rfl
    rw [hnone] at hpresent
    cases hpresent

/-- Two recoveries a step apart lose none. -/
theorem no_slower_full : NoSlower recoveryTopology halvingPolicy none probeEpoch fullLedger
    (recoveryAt 10) (recoveryAt 20) :=
  (no_slower_iff recoveryTopology halvingPolicy none probeEpoch fullLedger (recoveryAt 10)
    (recoveryAt 20) 0 (checked_recoveryAt 10 (by decide)) (checked_recoveryAt 20 (by decide))
    ⟨rfl, rfl⟩ rfl rfl (by decide) (by decide) (fun _ => tick_fullLedger) (by decide)).1.mpr
    (.inl (by unfold StepLost; decide))

/-- Two recoveries half a step apart lower nothing, where one lowers the record by half. -/
theorem half_steps_lost :
    ¬∀ (topo : Topology) (policy : PropagationPolicy) (fences : Option FenceTable) (liveEpoch : Epoch)
      (ledger : PropagationLedger) (first second : RecoveryRequest) (t₀ : Tick),
      (checkRecovery topo policy liveEpoch first).ok = true →
      (checkRecovery topo policy liveEpoch second).ok = true →
      first.dryRun = false ∧ second.dryRun = false → first.source = second.source →
      first.residual = second.residual → t₀ ≤ first.now → first.now ≤ second.now →
      (∀ resource, (ledger.application second.source resource).present = true →
        (ledger.application second.source resource).tick = t₀) →
      stepsBetween policy.recoveryDecay t₀ second.now ≤ policy.recoveryDecay.maxSteps.toNat →
      NoSlower topo policy fences liveEpoch ledger first second := by
  intro h
  have hslower := h recoveryTopology halvingPolicy none probeEpoch fullLedger (recoveryAt 5)
    (recoveryAt 10) 0 (checked_recoveryAt 5 (by decide)) (checked_recoveryAt 10 (by decide)) ⟨rfl, rfl⟩
    rfl rfl (by decide) (by decide) (fun _ => tick_fullLedger) (by decide)
  have hprobe : ∃ ledger₁ ledger₂ ledger',
      (recover (.of recoveryTopology halvingPolicy fullLedger none probeEpoch) (recoveryAt 5)).2 =
        some ledger₁ ∧
      (recover (.of recoveryTopology halvingPolicy ledger₁ none probeEpoch) (recoveryAt 10)).2 =
        some ledger₂ ∧
      (recover (.of recoveryTopology halvingPolicy fullLedger none probeEpoch) (recoveryAt 10)).2 =
        some ledger' ∧
      (ledger₂.application ⟨1⟩ ⟨7⟩).magnitude.raw = 65536 ∧
      (ledger'.application ⟨1⟩ ⟨7⟩).magnitude.raw = 32768 := by
    obtain ⟨_, h₁, -, -⟩ := @recover_of_checked halvingPolicy (recoveryAt 5) fullLedger recoveryTopology
      none _ (checked_recoveryAt 5 (by decide))
    obtain ⟨_, h₂, -, -⟩ := @recover_of_checked halvingPolicy (recoveryAt 10)
      (recoverTargets halvingPolicy (recoveryAt 5) (recoveryTargets fullLedger ⟨1⟩) fullLedger).2.2
      recoveryTopology none _ (checked_recoveryAt 10 (by decide))
    obtain ⟨_, h₃, -, -⟩ := @recover_of_checked halvingPolicy (recoveryAt 10) fullLedger recoveryTopology
      none _ (checked_recoveryAt 10 (by decide))
    exact ⟨_, _, _, congrArg Prod.snd h₁, congrArg Prod.snd h₂, congrArg Prod.snd h₃,
      by decide +kernel, by decide +kernel⟩
  obtain ⟨ledger₁, ledger₂, ledger', h₁, h₂, h₃, htwice, honce⟩ := hprobe
  have hle := hslower ledger₁ ledger₂ ledger' h₁ h₂ h₃ ⟨7⟩
  have hle : (ledger₂.application ⟨1⟩ ⟨7⟩).magnitude.raw ≤
      (ledger'.application ⟨1⟩ ⟨7⟩).magnitude.raw := hle
  omega

end PropagationEngine

end Backpressure
