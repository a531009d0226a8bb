import Backpressure.Engine.Propagate

/-!
# Recovery decay

`PropagationEngine::recover` of `engine.cpp`: the records of one source are lowered, resource by
resource. A recovery never raises applied pressure and reaches no resource that the source has no
record at.
-/

namespace Backpressure

structure RecoveryRequest where
  id : PropagationId := {}
  source : SourceId := {}
  origin : ResourceId := {}
  originGeneration : Generation := {}
  topologyDigest : Digest128 := {}
  epoch : Epoch := {}
  now : Tick := kNoTick
  /-- What pressure is still observed; zero when the source has recovered. -/
  residual : Magnitude := .zero
  authority : AuthorityVector := {}
  dryRun : Bool := false
  deriving DecidableEq, Repr

namespace PropagationEngine

def checkRecovery (topo : Topology) (policy : PropagationPolicy) (liveEpoch : Epoch)
    (request : RecoveryRequest) : Status :=
  policy.validate.andThen <|
  if !request.id.valid then .error .invalidArgument "recovery id" 0
  else if !request.source.valid then .error .invalidArgument "recovery source" 0
  else if !request.originGeneration.known then
    .error .staleGeneration "recovery origin generation" 0
  else if request.topologyDigest ≠ topo.digest then
    .error .staleGeneration "recovery topology digest" 0
  else if request.epoch ≠ liveEpoch then
    .error .staleEpoch "recovery epoch" request.epoch.value.toNat
  else
    (if request.authority.level ≠ .noAuthority then
      request.authority.check request.now liveEpoch request.origin
    else .success).andThen <|
    if (topo.indexOf request.origin).isNone then
      .error .notFound "recovery origin" request.origin.value.toNat
    else .success

/-- The keys of the source's records, in resource order. -/
def recoveryTargets (ledger : PropagationLedger) (source : SourceId) : List SourceResourceKey :=
  (ledger.applications.keys.filter fun key => key.source = source).insertionSort
    fun a b => a.resource ≤ b.resource

/-- What a record is lowered to. -/
def decayed (policy : PropagationPolicy) (request : RecoveryRequest) (key : SourceResourceKey)
    (record : ApplicationRecord) : Magnitude :=
  let steps := if record.tick < request.now
    then ((request.now - record.tick) / policy.recoveryDecay.stepTicks).toNat else 0
  let m := policy.recoveryDecay.decay record.magnitude (min steps policy.recoveryDecay.maxSteps.toNat)
  let m := if key.resource = request.origin ∧ request.residual.raw < m.raw
    then request.residual else m
  let m := if record.magnitude.raw < m.raw then record.magnitude else m
  if request.residual.raw < m.raw then request.residual else m

def recoveryNode (policy : PropagationPolicy) (request : RecoveryRequest) (key : SourceResourceKey)
    (record : ApplicationRecord) : NodeOutcome :=
  let m := decayed policy request key record
  { resource := key.resource
    applied := m
    received := !m.isZero
    recovery := true
    strongestSingle := record.magnitude
    bestSource := key.source
    bestPropagation := request.id
    severity := if m.isZero then .unknown else severityFromMagnitude m policy.thresholds }

/-- Lower the records one by one; stop at the first that the ledger refuses. -/
def recoverTargets (policy : PropagationPolicy) (request : RecoveryRequest) :
    List SourceResourceKey → PropagationLedger → Status × List NodeOutcome × PropagationLedger
  | [], ledger => (.success, [], ledger)
  | key :: rest, ledger =>
    let record := ledger.application key.source key.resource
    if !record.present then recoverTargets policy request rest ledger
    else
      let node := recoveryNode policy request key record
      let (st, lowered) :=
        if request.dryRun then (.success, ledger)
        else ledger.recordApplication key.source key.resource node.applied request.now
      if !st.ok then (st, [node], lowered)
      else
        let (st, nodes, ledger) := recoverTargets policy request rest lowered
        (st, node :: nodes, ledger)

def blankRecovery (request : RecoveryRequest) : PropagationOutcome :=
  { id := request.id, epoch := request.epoch, topologyDigest := request.topologyDigest
    now := request.now }

def recover (ctx : EngineContext) (request : RecoveryRequest) :
    PropagationOutcome × Option PropagationLedger :=
  match ctx.topology, ctx.policy, ctx.ledger with
  | some topo, some policy, some ledger =>
    let outcome := { blankRecovery request with topologyGeneration := topo.generation }
    let checked := checkRecovery topo policy ctx.liveEpoch request
    if !checked.ok then ({ outcome with status := checked }.finalize, some ledger)
    else
      let (st, nodes, ledger) :=
        recoverTargets policy request (recoveryTargets ledger request.source) ledger
      let counters : EngineCounters :=
        { signalsReceived := 1, signalsAccepted := 1, propagations := nodes.length
          nodesSettled := nodes.length }
      ({ outcome with status := st, complete := st.ok, recoveryNodes := nodes, counters }.finalize,
        some ledger)
  | _, _, _ =>
    ({ blankRecovery request with
      status := .error .invalidArgument "engine context" 0 }.finalize, ctx.ledger)

/-! ## What a recovery comes to -/

variable {policy : PropagationPolicy} {request : RecoveryRequest} {ledger : PropagationLedger}
  {key : SourceResourceKey} {record : ApplicationRecord}

/-- Recovery only lowers. -/
theorem decayed_le : (decayed policy request key record).raw ≤ record.magnitude.raw := by
  have hcap : ∀ m : Magnitude,
      (if record.magnitude.raw < m.raw then record.magnitude else m).raw ≤ record.magnitude.raw := by
    intro m
    split
    · exact Nat.le_refl _
    case isFalse hle => exact Nat.le_of_not_lt hle
  have hresidual : ∀ m : Magnitude,
      (if request.residual.raw < m.raw then request.residual else m).raw ≤ m.raw := by
    intro m
    split
    case isTrue hlt => exact Nat.le_of_lt hlt
    case isFalse => exact Nat.le_refl _
  unfold decayed
  exact (hresidual _).trans (hcap _)

/-- The ledger always has room for a record that it holds already. -/
theorem recordApplication_of_mem {m : Magnitude} {tick : Tick} (h : key ∈ ledger.applications) :
    ledger.recordApplication key.source key.resource m tick =
      (.success, { ledger with applications := ledger.applications.insert key ⟨m, tick, true⟩ }) := by
  unfold PropagationLedger.recordApplication
  exact if_neg fun hnot => hnot.1 h

/-- The ledger after one target. -/
def loweredLedger (policy : PropagationPolicy) (request : RecoveryRequest)
    (ledger : PropagationLedger) (key : SourceResourceKey) (record : ApplicationRecord) :
    PropagationLedger :=
  if request.dryRun then ledger
  else { ledger with
    applications := ledger.applications.insert key
      ⟨decayed policy request key record, request.now, true⟩ }

theorem recoverTargets_cons {rest : List SourceResourceKey} (hkey : key ∈ ledger.applications)
    (hlookup : ledger.applications.lookup key = some record) (hpresent : record.present = true) :
    recoverTargets policy request (key :: rest) ledger =
      let next := recoverTargets policy request rest (loweredLedger policy request ledger key record)
      (next.1, recoveryNode policy request key record :: next.2.1, next.2.2) := by
  have hrecord : ledger.application key.source key.resource = record := by
    unfold PropagationLedger.application
    rw [hlookup]
    rfl
  rw [recoverTargets, hrecord]
  unfold loweredLedger
  dsimp only
  rw [hpresent, recordApplication_of_mem hkey]
  by_cases hdry : request.dryRun = true
  · simp [hdry]
  · simp [hdry, recoveryNode]

theorem recoverTargets_absent {rest : List SourceResourceKey}
    (h : (ledger.application key.source key.resource).present = false) :
    recoverTargets policy request (key :: rest) ledger =
      recoverTargets policy request rest ledger := by
  rw [recoverTargets]
  dsimp only
  rw [h]
  rfl

theorem lookup_loweredLedger {other : SourceResourceKey} (h : other ≠ key) :
    (loweredLedger policy request ledger key record).applications.lookup other =
      ledger.applications.lookup other := by
  unfold loweredLedger
  split
  · rfl
  · exact AList.lookup_insert_ne h

theorem mem_loweredLedger {other : SourceResourceKey} (h : other ∈ ledger.applications) :
    other ∈ (loweredLedger policy request ledger key record).applications := by
  unfold loweredLedger
  split
  · exact h
  · exact (AList.mem_insert _).mpr (.inr h)

/-- A target is the next to be lowered, or it is passed over. -/
theorem recoverTargets_step {rest : List SourceResourceKey} (hkey : key ∈ ledger.applications) :
    recoverTargets policy request (key :: rest) ledger = recoverTargets policy request rest ledger ∨
      ∃ record, ledger.applications.lookup key = some record ∧
        recoverTargets policy request (key :: rest) ledger =
          let next := recoverTargets policy request rest
            (loweredLedger policy request ledger key record)
          (next.1, recoveryNode policy request key record :: next.2.1, next.2.2) := by
  obtain ⟨record, hlookup⟩ := Option.isSome_iff_exists.mp (AList.lookup_isSome.mpr hkey)
  cases hpresent : record.present with
  | false =>
    refine .inl (recoverTargets_absent ?_)
    unfold PropagationLedger.application
    rw [hlookup]
    exact hpresent
  | true => exact .inr ⟨record, hlookup, recoverTargets_cons hkey hlookup hpresent⟩

/-- Records that are not among the targets stay. -/
theorem recoverTargets_keeps {l : List SourceResourceKey} (hkeys : ∀ k ∈ l, k ∈ ledger.applications)
    (h : key ∉ l) : (recoverTargets policy request l ledger).2.2.applications.lookup key =
      ledger.applications.lookup key := by
  induction l generalizing ledger with
  | nil => rfl
  | cons k rest ih =>
    have hne := List.ne_of_not_mem_cons h
    have hrest := List.not_mem_of_not_mem_cons h
    have hkeys' : ∀ k' ∈ rest, k' ∈ ledger.applications :=
      fun k' hk' => hkeys k' (List.mem_cons_of_mem k hk')
    rcases @recoverTargets_step policy request _ _ rest (hkeys k List.mem_cons_self) with hskip | ⟨record, -, hlower⟩
    · rw [hskip]
      exact ih hkeys' hrest
    · rw [hlower]
      dsimp only
      rw [ih (fun k' hk' => mem_loweredLedger (hkeys' k' hk')) hrest, lookup_loweredLedger hne]

/-- Every present record among the targets is listed and lowered. -/
theorem recoverTargets_lowers {l : List SourceResourceKey}
    (hkeys : ∀ k ∈ l, k ∈ ledger.applications) (hnodup : l.Nodup) (hkey : key ∈ l)
    (hlookup : ledger.applications.lookup key = some record) (hpresent : record.present = true) :
    recoveryNode policy request key record ∈ (recoverTargets policy request l ledger).2.1 ∧
      (request.dryRun = false →
        (recoverTargets policy request l ledger).2.2.applications.lookup key =
          some ⟨decayed policy request key record, request.now, true⟩) := by
  induction l generalizing ledger with
  | nil => cases hkey
  | cons k rest ih =>
    obtain ⟨hk, hrest⟩ := List.nodup_cons.mp hnodup
    have hkeys' : ∀ k' ∈ rest, k' ∈ ledger.applications :=
      fun k' hk' => hkeys k' (List.mem_cons_of_mem k hk')
    rcases List.mem_cons.mp hkey with rfl | hlater
    · rw [recoverTargets_cons (hkeys key List.mem_cons_self) hlookup hpresent]
      refine ⟨List.mem_cons_self, fun hdry => ?_⟩
      dsimp only
      rw [recoverTargets_keeps (fun k' hk' => mem_loweredLedger (hkeys' k' hk')) hk]
      unfold loweredLedger
      rw [hdry, if_neg Bool.false_ne_true]
      exact AList.lookup_insert _
    · have hne : key ≠ k := fun heq => hk (heq ▸ hlater)
      rcases @recoverTargets_step policy request _ _ rest (hkeys k List.mem_cons_self) with hskip | ⟨other, -, hlower⟩
      · rw [hskip]
        exact ih hkeys' hrest hlater hlookup
      · obtain ⟨hnode, hlowered⟩ := ih (fun k' hk' => mem_loweredLedger (hkeys' k' hk')) hrest hlater
          ((@lookup_loweredLedger _ _ _ _ other _ hne).trans hlookup)
        rw [hlower]
        exact ⟨List.mem_cons_of_mem _ hnode, hlowered⟩

theorem mem_recoveryTargets {source : SourceId} :
    key ∈ recoveryTargets ledger source ↔ key ∈ ledger.applications ∧ key.source = source := by
  unfold recoveryTargets
  rw [(List.perm_insertionSort _ _).mem_iff, List.mem_filter, decide_eq_true_iff, AList.mem_keys]

theorem nodup_recoveryTargets {source : SourceId} : (recoveryTargets ledger source).Nodup := by
  unfold recoveryTargets
  rw [(List.perm_insertionSort _ _).nodup_iff]
  exact ledger.applications.keys_nodup.filter _

/-- Every recovery of the source that passes its checks lists the resource and lowers the record
that the source has there. -/
def Recovers (ledger : PropagationLedger) (source : SourceId) (resource : ResourceId) : Prop :=
  ∀ (topo : Topology) (policy : PropagationPolicy) (fences : Option FenceTable) (liveEpoch : Epoch)
    (request : RecoveryRequest), request.source = source →
    (checkRecovery topo policy liveEpoch request).ok = true →
    ∃ n ∈ (recover (.of topo policy ledger fences liveEpoch) request).1.recoveryNodes,
      n.resource = resource ∧
        n.applied.raw ≤ (ledger.application source resource).magnitude.raw ∧
        (request.dryRun = false →
          ∃ ledger', (recover (.of topo policy ledger fences liveEpoch) request).2 = some ledger' ∧
            (ledger'.application source resource).magnitude = n.applied)

theorem recovers_of_record {source : SourceId} {resource : ResourceId}
    (hlookup : ledger.applications.lookup ⟨source, resource⟩ = some record)
    (hpresent : record.present = true) : Recovers ledger source resource := by
  rintro topo policy fences liveEpoch request rfl hchecked
  have hmem : (⟨request.source, resource⟩ : SourceResourceKey) ∈ ledger.applications :=
    AList.lookup_isSome.mp (Option.isSome_iff_exists.mpr ⟨record, hlookup⟩)
  obtain ⟨hnode, hlowered⟩ := @recoverTargets_lowers policy request _ _ _ _
    (fun k hk => (mem_recoveryTargets.mp hk).1) nodup_recoveryTargets
    (mem_recoveryTargets.mpr ⟨hmem, rfl⟩) hlookup hpresent
  have hrecord : ledger.application request.source resource = record := by
    unfold PropagationLedger.application
    rw [hlookup]
    rfl
  unfold recover EngineContext.of
  dsimp only
  rw [hchecked, if_neg (by simp)]
  refine ⟨_, hnode, rfl, ?_, fun hdry => ⟨_, rfl, ?_⟩⟩
  · rw [hrecord]
    exact decayed_le
  · unfold PropagationLedger.application
    rw [hlowered hdry]
    rfl

end PropagationEngine

end Backpressure
