import Backpressure.Engine.Probe
import Backpressure.Engine.Records

/-!
# The record budget of a request

The traversal of a signal asks for a fixed number of records. A request reports everything
exactly when the budget covers what each of its traversals asks for and the ledger takes its
applications; a valid policy promises the budget for less than that.
-/

namespace Backpressure

open Lib (Meter)
open Lib.Meter (Writes)

namespace Traversal

variable {pq : EntryQueue} {ctx : TraversalContext} {t t' : Traversal pq} {c c' : Control}

theorem expansions_step (h : t.expansions ≤ ctx.policy.maxExpansions.toNat)
    (hstep : Step ctx c t c' t') : t'.expansions ≤ ctx.policy.maxExpansions.toNat := by
  cases hstep with
  | tidy htidy => exact htidy.expansions ▸ h
  | abandon _ _ htidy =>
    rw [htidy.expansions]
    exact h
  | accept _ hcross =>
    obtain ⟨fanout, hadm⟩ := hcross.admitted
    obtain ⟨_, hadmitted⟩ := of_admits hadm
    exact hadmitted.expansions
  | _ => exact h

/-- A traversal does not expand more than its policy allows. -/
theorem expansions_run {st : Status} (fresh : t.Fresh) (h : RunCase ctx t (st, t')) :
    t'.expansions ≤ ctx.policy.maxExpansions.toNat := by
  have hstart : t.expansions ≤ ctx.policy.maxExpansions.toNat := by
    rw [fresh.expansions]
    exact Nat.zero_le _
  cases h with
  | refused => exact hstart
  | blocked _ _ htidy =>
    rw [htidy.expansions]
    exact hstart
  | @traversed i _ _ _ _ _ _ _ htidy _ _ hstops =>
    have hseeded : { t with queue := pq.push t.queue (originEntry ctx i) }.expansions ≤
        ctx.policy.maxExpansions.toNat := hstart
    refine (final_steps htidy hstops).invariant
      (P := fun _ u => u.expansions ≤ ctx.policy.maxExpansions.toNat) hseeded ?_
    intro c u c' u' hu hstep
    exact expansions_step hu hstep

/-- More records than any traversal of the context writes. -/
def ampleRecords (ctx : TraversalContext) : Nat :=
  ctx.policy.maxExpansions.toNat + (52 * fuel ctx + 52)

/-- The records that a traversal writes when it may write them all. -/
def recordDemand (ctx : TraversalContext) (t : Traversal pq) : Nat :=
  ((t.grant (ampleRecords ctx)).run ctx).2.records

/-- On any budget that covers its demand a traversal writes it, and on any other it gives up. -/
theorem recordDemand_writes (fresh : t.Fresh) (hrecords : t.records = 0) :
    ∃ st u, Writes meter runMeter (run ctx) t (recordDemand ctx t) (st, u) ∧
      u.truncated = t.truncated ∧ recordDemand ctx t ≤ ampleRecords ctx := by
  obtain ⟨k, ⟨st, u⟩, hwrites, hwrote⟩ := run_writes ctx t
  have hample : k ≤ ampleRecords ctx := by
    have hbound := hwrote.expansions
    have hfresh : (t.grant k).Fresh :=
      ⟨fresh.queue, fresh.settled, fresh.visited, fresh.expansions, fresh.hops, fresh.pending⟩
    have hrun := run_cases ctx hfresh
    have hend : (t.grant k).run ctx = (st, u.grant (k - k)) := hwrites.enough k (Nat.le_refl k)
    rw [hend] at hrun
    have hexpansions : (u.grant (k - k)).expansions ≤ ctx.policy.maxExpansions.toNat :=
      expansions_run hfresh hrun
    change u.expansions ≤ ctx.policy.maxExpansions.toNat at hexpansions
    unfold ampleRecords
    dsimp only at hbound
    omega
  have hdemand : recordDemand ctx t = k := by
    have hend : (t.grant (ampleRecords ctx)).run ctx = (st, u.grant (ampleRecords ctx - k)) :=
      hwrites.enough _ hample
    have hwritten : (u.grant (ampleRecords ctx - k)).records = t.records + k := hwrote.records
    rw [recordDemand, hend, hwritten, hrecords, Nat.zero_add]
  exact ⟨st, u, hdemand ▸ hwrites, hwrote.truncated, hdemand ▸ hample⟩

/-- A traversal is cut short exactly when its budget does not cover its demand. -/
theorem truncated_run_iff (fresh : t.Fresh) (hrecords : t.records = 0) :
    (t.run ctx).2.truncated = true ↔ t.truncated = true ∨ t.recordBudget < recordDemand ctx t := by
  obtain ⟨st, u, hwrites, hkept, -⟩ := @recordDemand_writes pq ctx t fresh hrecords
  have hgrant : t.grant t.recordBudget = t := rfl
  constructor
  · intro htrunc
    by_cases hk : recordDemand ctx t ≤ t.recordBudget
    · have hend : (t.grant t.recordBudget).run ctx =
          (st, u.grant (t.recordBudget - recordDemand ctx t)) := hwrites.enough _ hk
      rw [hgrant] at hend
      rw [hend] at htrunc
      exact .inl (hkept ▸ htrunc)
    · exact .inr (Nat.lt_of_not_le hk)
  · rintro (htrunc | hshort)
    · exact runCase_truncated (run_cases ctx fresh) htrunc
    · have hend : runMeter.exhausted ((t.grant t.recordBudget).run ctx) := hwrites.short _ hshort
      rw [hgrant] at hend
      exact hend

/-- Under the ample budget a traversal is not cut short. -/
theorem truncated_ample (fresh : t.Fresh) (hrecords : t.records = 0) (h : t.truncated = false) :
    ((t.grant (ampleRecords ctx)).run ctx).2.truncated = false := by
  obtain ⟨st, u, hwrites, hkept, hample⟩ := @recordDemand_writes pq ctx t fresh hrecords
  have hend : (t.grant (ampleRecords ctx)).run ctx =
      (st, u.grant (ampleRecords ctx - recordDemand ctx t)) := hwrites.enough _ hample
  rw [hend]
  exact hkept.trans h

end Traversal

namespace PropagationEngine

open Traversal

variable {pq : EntryQueue} {topo : Topology} {policy : PropagationPolicy}
  {ledger : PropagationLedger} {fences : Option FenceTable} {liveEpoch : Epoch}
  {pins : List (Option Generation)} {request : PropagationRequest}

/-- The records that the traversal of a live signal asks for. -/
def demandOf (pq : EntryQueue) (topo : Topology) (policy : PropagationPolicy)
    (ledger : PropagationLedger) (fences : Option FenceTable) (pins : List (Option Generation))
    (request : PropagationRequest) (s : PressureSignal) : Nat :=
  recordDemand (traversalContext topo policy ledger fences pins request s)
    (startTraversal pq topo policy request
      (progressBefore pq topo policy ledger fences pins request s) s)

/-- The record budget covers every traversal of the request. -/
def Affordable (pq : EntryQueue) (topo : Topology) (policy : PropagationPolicy)
    (ledger : PropagationLedger) (fences : Option FenceTable) (pins : List (Option Generation))
    (request : PropagationRequest) : Prop :=
  ∀ s ∈ liveSignals policy ledger request,
    demandOf pq topo policy ledger fences pins request s ≤ recordBudget policy request

theorem progress_truncated_iff :
    (progress pq topo policy ledger fences pins request).truncated = false ↔
      Affordable pq topo policy ledger fences pins request := by
  constructor
  · intro htrunc s hs
    have hrun := truncated_traversalOf hs htrunc
    by_contra hlt
    have hshort : (traversalOf pq topo policy ledger fences pins request s).2.truncated = true :=
      (truncated_run_iff startTraversal_fresh rfl).mpr (.inr (Nat.lt_of_not_le hlt))
    rw [hrun] at hshort
    cases hshort
  · intro hafford
    refine progress_induction (P := fun l p => (∀ s ∈ l, s ∈ liveSignals policy ledger request) →
      p.truncated = false) (fun _ => unstarted_spec.truncated) ?_ fun s hs => hs
    intro before s after hsplit hp hmem
    have hbefore := hp fun s' hs' => hmem s' (List.mem_append_left _ hs')
    have hs := hafford s (hmem s (List.mem_append_right _ List.mem_cons_self))
    rw [traverse_truncated, ← Bool.not_eq_true, truncated_run_iff startTraversal_fresh rfl]
    rintro (htrunc | hlt)
    · change (progressBefore pq topo policy ledger fences pins request s).truncated = true at htrunc
      rw [hbefore] at htrunc
      cases htrunc
    · exact absurd hs (Nat.not_le_of_lt hlt)

/-- Without a truncation no explanation is truncated. -/
theorem explanations_untruncated
    (h : (progress pq topo policy ledger fences pins request).truncated = false) :
    ∀ e ∈ (progress pq topo policy ledger fences pins request).explanations,
      e.truncated = false := by
  refine progress_invariant (P := fun p => p.truncated = false →
    ∀ e ∈ p.explanations, e.truncated = false) (fun p hp _ e he => (hp.replays e he).2.1) ?_ h
  intro p s _ hp htrunc e he
  have hold := hp (truncated_traverse htrunc)
  cases traverse_cases pq topo policy ledger fences pins request p s with
  | refused _ _ _ hexpl => exact hold e (hexpl ▸ he)
  | ran _ _ hexpl _ _ hcut hflag =>
    rw [hexpl] at he
    rcases List.mem_append.mp he with he | he
    · exact hold e he
    · rw [List.mem_singleton.mp he, hcut, ← hflag]
      exact htrunc

theorem overflows_of_plan {p : Plan}
    (h : plan pq topo policy ledger fences liveEpoch request = .ok p) :
    Overflows pq (.of topo policy ledger fences liveEpoch) request ↔
      request.dryRun = false ∧ p.truncated = false ∧ ¬Fits ledger p.outcome.nodes := by
  constructor
  · rintro ⟨topo', policy', ledger', p', ht, hp, hl, hplan, hrest⟩
    cases ht
    cases hp
    cases hl
    change plan pq topo policy ledger fences liveEpoch request = .ok p' at hplan
    rw [h] at hplan
    cases hplan
    exact hrest
  · intro hrest
    exact ⟨topo, policy, ledger, p, rfl, rfl, rfl, h, hrest⟩

theorem not_overflows_of_refused {o : PropagationOutcome}
    (h : plan pq topo policy ledger fences liveEpoch request = .error o) :
    ¬Overflows pq (.of topo policy ledger fences liveEpoch) request := by
  rintro ⟨topo', policy', ledger', p, ht, hp, hl, hplan, -⟩
  cases ht
  cases hp
  cases hl
  change plan pq topo policy ledger fences liveEpoch request = .ok p at hplan
  rw [h] at hplan
  cases hplan

theorem complete_iff : (propagate pq (.of topo policy ledger fences liveEpoch) request).1.complete =
      true ↔
    (∀ pins, Ready topo policy liveEpoch pins request →
      (progress pq topo policy ledger fences pins request).truncated = false) ∧
    ¬Overflows pq (.of topo policy ledger fences liveEpoch) request := by
  have hplan : PlanCase pq topo policy ledger fences liveEpoch request
    (plan pq topo policy ledger fences liveEpoch request) := plan_cases
  have hsame : ∀ {pins : List (Option Generation)}, Ready topo policy liveEpoch pins request →
      ((∀ pins', Ready topo policy liveEpoch pins' request →
        (progress pq topo policy ledger fences pins' request).truncated = false) ↔
          (progress pq topo policy ledger fences pins request).truncated = false) := by
    intro pins hready
    refine ⟨fun h => h pins hready, fun h pins' hready' => ?_⟩
    cases hready.pins.symm.trans hready'.pins
    exact h
  have hwritten := @overflows_of_plan pq topo policy ledger fences liveEpoch request
  have hrefused := @not_overflows_of_refused pq topo policy ledger fences liveEpoch request
  revert hplan hwritten hrefused
  generalize Overflows pq (.of topo policy ledger fences liveEpoch) request = overflows
  unfold propagate
  dsimp only [EngineContext.of]
  generalize plan pq topo policy ledger fences liveEpoch request = r
  intro hplan hwritten hrefused
  cases hplan with
  | refused hready _ _ _ _ hcomplete =>
    refine iff_of_true ?_ ⟨fun pins h => absurd h (hready pins), hrefused rfl⟩
    rw [finalize_complete]
    exact hcomplete
  | @allRefused pins st hready =>
    rw [hsame hready, finalize_complete, and_iff_left (hrefused rfl)]
    dsimp only
    rw [assembled_complete, Bool.not_eq_true']
  | @planned pins hready =>
    rw [hsame hready, hwritten rfl]
    dsimp only
    split
    case isFalse hkeep =>
      rw [finalize_complete]
      dsimp only
      rw [assembled_complete, Bool.not_eq_true', iff_self_and]
      rintro htrunc ⟨hdry, -, -⟩
      simp [hdry, htrunc] at hkeep
    case isTrue hwrite =>
      rw [Bool.and_eq_true, Bool.not_eq_true', Bool.not_eq_true'] at hwrite
      have hnodup : (plannedKeys
          (assembled pq topo policy ledger fences pins request).nodes).Nodup :=
        plannedKeys_nodup keyed_progress
      have hcomplete : (assembled pq topo policy ledger fences pins request).complete = true := by
        rw [assembled_complete, hwrite.2]
        rfl
      have hcommit := @commit_complete_iff ledger request.now
        ⟨assembled pq topo policy ledger fences pins request, liveSignals policy ledger request,
          (progress pq topo policy ledger fences pins request).truncated⟩ hcomplete hnodup
      rw [finalize_complete, and_iff_right hwrite.2, and_iff_right hwrite.1,
        and_iff_right hwrite.2, not_not]
      exact hcommit

/-- A request reports everything exactly when its budget covers the traversals and the ledger
has room for its applications. -/
theorem explanation_affordable_iff (pq : EntryQueue) (topo : Topology) (policy : PropagationPolicy)
    (ledger : PropagationLedger) (fences : Option FenceTable) (liveEpoch : Epoch)
    (request : PropagationRequest) :
    ((propagate pq (.of topo policy ledger fences liveEpoch) request).1.complete = true ∧
      ∀ e ∈ (propagate pq (.of topo policy ledger fences liveEpoch) request).1.explanations,
        e.truncated = false) ↔
    (∀ pins, Ready topo policy liveEpoch pins request →
      Affordable pq topo policy ledger fences pins request) ∧
    ¬Overflows pq (.of topo policy ledger fences liveEpoch) request := by
  simp only [← progress_truncated_iff]
  rw [← complete_iff, and_iff_left_iff_imp]
  intro hcomplete e he
  have hreport := propagate_report pq topo policy ledger fences liveEpoch request
  rcases hreport with ⟨hsilent, -⟩ | ⟨pins, hreport⟩
  · rw [hsilent.explanations] at he
    cases he
  · rw [hreport.explanations] at he
    exact explanations_untruncated (hreport.untruncated hcomplete) e he

/-- Refusals for three reasons at one resource cost three records, one more than the policy has
to provide. -/
theorem explanation_truncated :
    let topo := probeTopology
      [probeResource ⟨7⟩, probeResource ⟨8⟩, { probeResource ⟨9⟩ with protection := .sealed }]
      [{ probeEdge ⟨1⟩ ⟨7⟩ ⟨8⟩ with attenuation := .zero },
        { probeEdge ⟨2⟩ ⟨7⟩ ⟨8⟩ with flags := ⟨EdgeFlagKind.recoveryOnly.mask⟩ },
        probeEdge ⟨3⟩ ⟨7⟩ ⟨9⟩]
    let policy := { probePolicy with
      maxExpansions := 1, maxVisited := 1, maxRecords := 2, maxPathRecords := 2 }
    let o := (propagate .scan (.of topo policy (.make 4 4 4) none probeEpoch)
      (probeRequest policy topo ⟨7⟩ 5)).1
    policy.validate.ok = true ∧ (probeRequest policy topo ⟨7⟩ 5).recordBudgetOverride = 0 ∧
      o.status.ok = true ∧ o.complete = false ∧ o.explanations.map (·.truncated) = [true] := by
  decide +kernel

end PropagationEngine

end Backpressure
