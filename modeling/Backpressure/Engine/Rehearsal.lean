import Backpressure.Engine.Atomicity

/-!
# Plan and commit

A dry run and the run that follows it decide the same: the flag of a dry run is read only when
everything that the ledger is asked for has been decided, and nothing that a commit writes is
reported, except for the count of evicted lineages, which the fingerprint does not cover.
-/

namespace Backpressure.PropagationEngine

variable {pq : EntryQueue} {topo : Topology} {policy : PropagationPolicy}
  {ledger : PropagationLedger} {fences : Option FenceTable} {liveEpoch : Epoch}
  {pins : List (Option Generation)} {request : PropagationRequest} {dryRun : Bool}

/-! ## The plan does not look at the flag -/

theorem traverse_withDryRun :
    traverse pq topo policy ledger fences pins { request with dryRun } =
      traverse pq topo policy ledger fences pins request := rfl

theorem admission_withDryRun :
    admission policy { request with dryRun } = admission policy request := rfl

theorem traverseAll_withDryRun (a : Admission) :
    traverseAll pq topo policy ledger fences pins { request with dryRun } a =
      traverseAll pq topo policy ledger fences pins request a := by
  unfold traverseAll
  rw [traverse_withDryRun]
  rfl

theorem planSignals_withDryRun :
    planSignals pq topo policy ledger fences pins { request with dryRun } =
      planSignals pq topo policy ledger fences pins request := by
  unfold planSignals
  rw [admission_withDryRun]
  simp only [traverseAll_withDryRun]
  rfl

theorem plan_withDryRun :
    plan pq topo policy ledger fences liveEpoch { request with dryRun } =
      plan pq topo policy ledger fences liveEpoch request := by
  unfold plan
  simp only [planSignals_withDryRun]
  rfl

/-! ## The two runs -/

/-- Two outcomes report the same decision. -/
structure Agrees (o o' : PropagationOutcome) : Prop where
  status : o.status = o'.status
  complete : o.complete = o'.complete
  nodes : o.nodes = o'.nodes
  explanations : o.explanations = o'.explanations
  rejections : o.rejections = o'.rejections
  fingerprint : o.fingerprint = o'.fingerprint

theorem Agrees.refl (o : PropagationOutcome) : Agrees o o := ⟨rfl, rfl, rfl, rfl, rfl, rfl⟩

/-- The count of evicted lineages is not part of the fingerprint. -/
theorem agrees_withEvictions (o : PropagationOutcome) (n m : Nat) :
    Agrees { o with counters := { o.counters with lineageEvictions := n } }.finalize
      { o with counters := { o.counters with lineageEvictions := m } }.finalize where
  status := rfl
  complete := rfl
  nodes := rfl
  explanations := rfl
  rejections := rfl
  fingerprint := by
    simp only [PropagationOutcome.finalize, PropagationOutcome.seal,
      PropagationOutcome.fingerprintOf]

/-- A commit whose status is a success reports what was planned. -/
theorem outcome_of_commit {now : Tick} {p : Plan}
    (h : (commit now p ledger).1.status.ok = true) : (commit now p ledger).1 = p.outcome := by
  unfold commit at h ⊢
  dsimp only at h ⊢
  split
  · rfl
  case isFalse hst =>
    rw [if_neg hst] at h
    exact absurd h hst

/-- A dry run leaves the ledger as it is. -/
theorem dryRun_keeps (pq : EntryQueue) (ctx : EngineContext) (request : PropagationRequest) :
    (propagate pq ctx { request with dryRun := true }).2 = ctx.ledger := by
  unfold propagate
  split
  case h_1 topo policy ledger htopo hpolicy hledger =>
    rw [hledger, plan_withDryRun]
    split <;> rfl
  · rfl

/-- A run whose status is a success reports what the dry run has reported. -/
theorem run_agrees (pq : EntryQueue) (ctx : EngineContext) (request : PropagationRequest)
    (h : (propagate pq ctx { request with dryRun := false }).1.status.ok = true) :
    Agrees (propagate pq ctx { request with dryRun := false }).1
      (propagate pq ctx { request with dryRun := true }).1 := by
  unfold propagate at h ⊢
  split
  case h_1 topo policy ledger htopo hpolicy hledger =>
    rw [htopo, hpolicy, hledger] at h
    dsimp only at h
    rw [plan_withDryRun] at h
    simp only [plan_withDryRun]
    cases hplan : plan pq topo policy ledger ctx.fences ctx.liveEpoch request with
    | error o => exact .refl _
    | ok p =>
      rw [hplan] at h
      dsimp only at h ⊢
      by_cases htruncated : p.truncated = true
      · rw [htruncated]
        exact .refl _
      · have hcommits : (!false && !p.truncated) = true := by simpa using htruncated
        rw [if_pos hcommits] at h ⊢
        rw [outcome_of_commit h]
        exact agrees_withEvictions p.outcome _ _
  · exact .refl _

/-- The order in which the accumulators are visited is not reported. -/
theorem nodes_of_perm {acc : Accumulators} (keyed : acc.Keyed topo)
    {visits : List (Sigma fun _ : Nat => NodeAccumulator)} (hperm : visits.Perm acc.entries) :
    (visits.map fun e => nodeOutcome policy e.2).insertionSort (fun a b => a.resource ≤ b.resource) =
      aggregateNodes policy acc := by
  have : Std.Total fun a b : NodeOutcome => a.resource ≤ b.resource :=
    ⟨fun a b => by rw [StrongId.le_iff, StrongId.le_iff]; omega⟩
  have : IsTrans NodeOutcome fun a b => a.resource ≤ b.resource :=
    ⟨fun a b c hab hbc => by rw [StrongId.le_iff] at hab hbc ⊢; omega⟩
  have hvisited : ((visits.map fun e => nodeOutcome policy e.2).insertionSort
      fun a b => a.resource ≤ b.resource).Perm (aggregateNodes policy acc) :=
    ((List.perm_insertionSort _ _).trans (hperm.map _)).trans (List.perm_insertionSort _ _).symm
  refine hvisited.eq_of_pairwise (fun a b ha hb hab hba => ?_) (List.pairwise_insertionSort _ _)
    (List.pairwise_insertionSort _ _)
  rw [StrongId.le_iff] at hab hba
  have hresource : a.resource = b.resource := StrongId.ext_toNat (by omega)
  have : Std.Symm fun a b : NodeOutcome => a.resource ≠ b.resource := ⟨fun _ _ h => h.symm⟩
  by_contra hne
  exact (resources_distinct keyed).forall (hvisited.mem_iff.mp ha) hb hne hresource

end Backpressure.PropagationEngine
