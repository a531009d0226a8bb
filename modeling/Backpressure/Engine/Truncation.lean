import Backpressure.Engine.Budget
import Backpressure.Engine.Evidence
import Backpressure.Engine.Justified

/-!
# Whose truncation is reported

Every traversal counts the truncations of its own, and raises one flag that all traversals of a
request share. An explanation reports the shared flag, so it speaks of its own traversal exactly
as long as no signal that the budget covers comes behind one that it does not cover.
-/

namespace Backpressure

open Lib.Turns (Turn)

/-- Writes to outputs with a renewed flag differ in the flag only. -/
theorem Outputs.write_renewed (o : Outputs) (ws : List Write) :
    write { o with truncated := false } ws =
      { o.write ws with truncated := (write { o with truncated := false } ws).truncated } := by
  refine write_invariant (R := fun o o' => o = { o' with truncated := o.truncated })
    (fun o o' w h => ?_) rfl ws
  rw [h]
  cases w <;> rfl

namespace Traversal

variable {pq : EntryQueue} {ctx : TraversalContext} {t t' t'' u : Traversal pq}

/-! ## Truncations are counted -/

/-- From `t` to `t'` the flag is raised exactly when a truncation is counted. -/
structure Cuts (t t' : Traversal pq) : Prop where
  grows : t.counters.recordTruncations ≤ t'.counters.recordTruncations
  flagged : t'.truncated = true ↔
    t.truncated = true ∨ t.counters.recordTruncations < t'.counters.recordTruncations

namespace Cuts

theorem of_eq (hflag : t'.truncated = t.truncated)
    (hcount : t'.counters.recordTruncations = t.counters.recordTruncations) : Cuts t t' := by
  refine ⟨?_, ?_⟩
  · omega
  · rw [hflag, hcount]
    simp

theorem refl (t : Traversal pq) : Cuts t t := of_eq rfl rfl

theorem trans (h : Cuts t t') (h' : Cuts t' t'') : Cuts t t'' := by
  have hle := h.grows
  have hle' := h'.grows
  refine ⟨by omega, ?_⟩
  rw [h'.flagged, h.flagged]
  constructor
  · rintro ((htrunc | hlt) | hlt)
    · exact .inl htrunc
    · exact .inr (by omega)
    · exact .inr (by omega)
  · rintro (htrunc | hlt)
    · exact .inl (.inl htrunc)
    · by_cases hfirst : t.counters.recordTruncations < t'.counters.recordTruncations
      · exact .inl (.inr hfirst)
      · exact .inr (by omega)

/-- A step that neither counts nor flags a truncation, and what follows it. -/
theorem after (h : Cuts t' t'') (hflag : t'.truncated = t.truncated)
    (hcount : t'.counters.recordTruncations = t.counters.recordTruncations) : Cuts t t'' :=
  (of_eq hflag hcount).trans h

theorem foldl {α : Type} {f : Traversal pq → α → Traversal pq} (hf : ∀ t a, Cuts t (f t a))
    (l : List α) (t : Traversal pq) : Cuts t (l.foldl f t) := by
  induction l generalizing t with
  | nil => exact refl t
  | cons a rest ih => exact (hf t a).trans (ih (f t a))

end Cuts

theorem cuts_noteTruncation : Cuts t t.noteTruncation := by
  refine ⟨Nat.le_succ _, ?_⟩
  simp [noteTruncation]

/-- A flush writes none of the outputs. -/
theorem outputs_flushSuppressions : t.flushSuppressions.1.outputs = t.outputs :=
  congrArg (fun r => r.1.outputs) (flushSuppressions_withOutputs t t.outputs)

theorem cuts_flushSuppressions : Cuts t t.flushSuppressions.1 := by
  have houtputs := @outputs_flushSuppressions pq t
  apply Cuts.of_eq
  · exact congrArg Outputs.truncated houtputs
  · exact congrArg (fun o => o.counters.recordTruncations) houtputs

theorem cuts_flushOrTruncate : Cuts t t.flushOrTruncate := by
  unfold flushOrTruncate
  dsimp only
  split
  · exact cuts_flushSuppressions
  · exact cuts_flushSuppressions.trans cuts_noteTruncation

theorem cuts_beginNode {node : Nat} : Cuts t (t.beginNode node).1 := by
  unfold beginNode
  split
  · exact .refl t
  · exact cuts_flushSuppressions.trans (.of_eq rfl rfl)

theorem cuts_reject {edge : DependencyEdge} {depth : Nat} {reason : SuppressionReason}
    {verdict : HopVerdict} : Cuts t (t.reject edge depth reason verdict) := .of_eq rfl rfl

theorem cuts_noteEdge (edge : DependencyEdge) : Cuts t (noteEdge edge t) := by
  unfold noteEdge
  split
  · exact .of_eq rfl rfl
  · exact .of_eq rfl rfl

theorem cuts_suppressAll {node depth : Nat} {reason : SuppressionReason} :
    Cuts t (t.suppressAll ctx node depth reason) := by
  refine (Cuts.foldl (fun t i => ?_) _ t).trans cuts_flushOrTruncate
  unfold suppressEdge
  dsimp only
  split
  · exact .of_eq rfl rfl
  · exact .of_eq rfl rfl

theorem cuts_cross {entry : QueueEntry} {res : Resource} {edgeIndex toIndex : Nat}
    {carried : TraversalContext.Carried} {hop : HopRecord} (hpush : t.pushHop hop = some u) :
    Cuts t (u.cross entry res edgeIndex toIndex carried) := by
  obtain ⟨-, rfl⟩ := pushHop_eq_some hpush
  unfold cross pushQueue
  dsimp only
  split
  · exact .of_eq rfl rfl
  · exact .of_eq rfl rfl

theorem cuts_expandEdge {entry : QueueEntry} {res : Resource} {fanout i : Nat} :
    match expandEdge ctx entry res fanout t i with
    | .refused u _ | .exhausted u | .crossed u => Cuts t u := by
  cases hedge : ctx.topo.edgeAt i with
  | none =>
    rw [expandEdge_missing hedge]
    exact .of_eq rfl rfl
  | some edge =>
    cases hadm : ctx.admits t.settled t.expansions fanout entry i edge with
    | error refusal =>
      rw [expandEdge_inadmissible hedge hadm]
      exact .of_eq rfl rfl
    | ok toIndex =>
      cases hcar : ctx.carries entry edge with
      | error refusal =>
        rw [expandEdge_uncarried hedge hadm hcar]
        exact .of_eq rfl rfl
      | ok carried =>
        cases hdamp : ctx.damps edge carried.next with
        | some reason =>
          rw [expandEdge_damped hedge hadm hcar hdamp]
          exact (cuts_noteEdge edge).trans cuts_reject
        | none =>
          cases hpush : (noteEdge edge t).pushHop (acceptedHop entry res edge carried) with
          | none =>
            rw [expandEdge_exhausted hedge hadm hcar hdamp hpush]
            exact (cuts_noteEdge edge).trans cuts_noteTruncation
          | some u =>
            rw [expandEdge_crossed hedge hadm hcar hdamp hpush]
            exact (cuts_noteEdge edge).trans (cuts_cross hpush)

theorem cuts_expandEdges {entry : QueueEntry} {res : Resource} (l : List Nat) (fanout : Nat)
    (budgetStop : Bool) (t : Traversal pq) :
    Cuts t (expandEdges ctx entry res l fanout budgetStop t).state := by
  induction l generalizing fanout budgetStop t with
  | nil =>
    rw [expandEdges]
    split
    · exact .refl t
    · exact .refl t
  | cons i rest ih =>
    have hedge := @cuts_expandEdge pq ctx t entry res fanout i
    rw [expandEdges]
    revert hedge
    cases expandEdge ctx entry res fanout t i with
    | refused u stop => exact fun hedge => hedge.trans (ih fanout (budgetStop || stop) u)
    | crossed u => exact fun hedge => hedge.trans (ih (fanout + 1) budgetStop u)
    | exhausted u => exact fun hedge => hedge

theorem cuts_expand {entry : QueueEntry} {res : Resource} : Cuts t (t.expand ctx entry res).state := by
  unfold expand
  split
  · exact cuts_suppressAll
  split
  · exact Cuts.after cuts_suppressAll rfl rfl
  split
  · exact Cuts.after cuts_suppressAll rfl rfl
  · exact cuts_expandEdges _ 0 false t

theorem cuts_turn : Cuts t (turn ctx t).state := by
  cases hpop : pq.pop t.queue with
  | none =>
    rw [turn_empty hpop]
    exact .refl t
  | some popped =>
    obtain ⟨entry, queue⟩ := popped
    by_cases hvisited : ctx.policy.maxVisited.toNat ≤ t.visited
    · rw [turn_visited hpop hvisited]
      exact .of_eq rfl rfl
    have hvisited := Nat.lt_of_not_le hvisited
    by_cases hskip : ctx.topo.resources.length ≤ entry.node ∨ entry.node ∈ t.settled
    · rw [turn_skip hpop hvisited hskip]
      exact .of_eq rfl rfl
    obtain ⟨hlen, hset⟩ := not_or.mp hskip
    have hres : ctx.topo.resourceAt entry.node = some ctx.topo.resources[entry.node] :=
      List.getElem?_eq_getElem (Nat.lt_of_not_le hlen)
    have hclaim : Cuts t { t with queue, settled := entry.node :: t.settled } := .of_eq rfl rfl
    rw [turn_open hpop hvisited hset hres]
    unfold openTurn
    split
    · exact (hclaim.trans cuts_beginNode).trans cuts_noteTruncation
    · exact (hclaim.trans cuts_beginNode).trans (Cuts.after cuts_expand rfl rfl)

theorem cuts_turns (n : Nat) (t : Traversal pq) : Cuts t (Lib.Turns.run (turn ctx) n t) := by
  induction n generalizing t with
  | zero => exact .refl t
  | succ n ih =>
    have hturn := @cuts_turn pq ctx t
    rw [Lib.Turns.run]
    revert hturn
    cases turn ctx t with
    | stop u => exact fun hturn => hturn
    | again u => exact fun hturn => hturn.trans (ih u)

theorem cuts_blockOrigin {i : Nat} {origin : Resource} {reason : SuppressionReason} :
    Cuts t (t.blockOrigin ctx i origin reason) := by
  unfold blockOrigin
  exact Cuts.after cuts_suppressAll rfl rfl

theorem cuts_enter : match t.enter ctx with
    | .error (_, u) => Cuts t u
    | .ok u => Cuts t u := by
  unfold enter
  cases ctx.topo.indexOf ctx.signal.origin with
  | none => exact .refl t
  | some i =>
    dsimp only
    cases ctx.topo.resourceAt i with
    | none => exact .refl t
    | some origin =>
      dsimp only
      by_cases hzero : ctx.seed.isZero = true
      · rw [if_pos hzero]
        exact .refl t
      · rw [if_neg hzero]
        cases ctx.ingressFence origin.id with
        | some fence => exact Cuts.after cuts_blockOrigin rfl rfl
        | none =>
          dsimp only
          by_cases hrecv : (!origin.canReceive) = true
          · rw [if_pos hrecv]
            exact Cuts.after cuts_blockOrigin rfl rfl
          · rw [if_neg hrecv]
            dsimp only [pushQueue]
            split
            · exact .of_eq rfl rfl
            · exact .of_eq rfl rfl

/-- A traversal raises the flag exactly when it counts a truncation of its own. -/
theorem cuts_run (ctx : TraversalContext) (t : Traversal pq) : Cuts t (t.run ctx).2 := by
  have henter := @cuts_enter pq ctx t
  unfold run
  revert henter
  cases t.enter ctx with
  | error done => exact fun henter => henter
  | ok seeded => exact fun henter =>
      (henter.trans (cuts_turns (fuel ctx) seeded)).trans cuts_flushOrTruncate

/-- The demand of a traversal does not depend on the outputs that it starts from. -/
theorem recordDemand_withOutputs (o : Outputs) :
    recordDemand ctx (t.withOutputs o) = recordDemand ctx t := by
  obtain ⟨ws, st, u, hrun⟩ := run_withOutputs ctx (t.grant (ampleRecords ctx))
  have hthere : ((t.withOutputs o).grant (ampleRecords ctx)).run ctx =
      (st, u.withOutputs (o.write ws)) := hrun o
  have hhere : (t.grant (ampleRecords ctx)).run ctx = (st, u.withOutputs (t.outputs.write ws)) :=
    hrun t.outputs
  rw [recordDemand, recordDemand, hthere, hhere]
  rfl

/-- A traversal counts a truncation exactly when its budget does not cover its demand, whatever the
flag that it starts with. -/
theorem counted_run_iff (fresh : t.Fresh) (hrecords : t.records = 0) :
    t.counters.recordTruncations < (t.run ctx).2.counters.recordTruncations ↔
      t.recordBudget < recordDemand ctx t := by
  obtain ⟨ws, st, u, hrun⟩ := run_withOutputs ctx t
  let o : Outputs := ⟨t.acc, t.counters, false⟩
  have hthere : (t.withOutputs o).run ctx = (st, u.withOutputs (o.write ws)) := hrun o
  have hhere : t.run ctx = (st, u.withOutputs (t.outputs.write ws)) := hrun t.outputs
  have hcounters : ((t.withOutputs o).run ctx).2.counters = (t.run ctx).2.counters := by
    rw [hthere, hhere]
    exact (Outputs.counters_write o ws).trans (Outputs.counters_write t.outputs ws).symm
  have hcuts := (cuts_run ctx (t.withOutputs o)).flagged
  rw [hcounters] at hcuts
  have hfresh : (t.withOutputs o).Fresh :=
    ⟨fresh.queue, fresh.settled, fresh.visited, fresh.expansions, fresh.hops, fresh.pending⟩
  have hiff := @truncated_run_iff pq ctx (t.withOutputs o) hfresh hrecords
  rw [recordDemand_withOutputs] at hiff
  have hclear : ¬(t.withOutputs o).truncated = true := Bool.false_ne_true
  rw [or_iff_right hclear] at hcuts hiff
  exact hcuts.symm.trans hiff

end Traversal

namespace PropagationEngine

open Traversal

variable {pq : EntryQueue} {topo : Topology} {policy : PropagationPolicy}
  {ledger : PropagationLedger} {fences : Option FenceTable} {liveEpoch : Epoch}
  {pins : List (Option Generation)} {request : PropagationRequest} {p : Progress}
  {s : PressureSignal} {e : PropagationExplanation}

/-! ## The flag of a request -/

/-- The traversal of a signal asks for more records than its budget. -/
def Starved (pq : EntryQueue) (topo : Topology) (policy : PropagationPolicy)
    (ledger : PropagationLedger) (fences : Option FenceTable) (pins : List (Option Generation))
    (request : PropagationRequest) (s : PressureSignal) : Prop :=
  recordBudget policy request < demandOf pq topo policy ledger fences pins request s

/-- The explanation is flagged for the truncations that it counts. -/
def Own (e : PropagationExplanation) : Prop :=
  e.truncated = true ↔ 0 < e.counters.recordTruncations

/-- Behind a starved signal comes none that its budget covers, unless it has no origin. -/
def Trails (pq : EntryQueue) (topo : Topology) (policy : PropagationPolicy)
    (ledger : PropagationLedger) (fences : Option FenceTable) (pins : List (Option Generation))
    (request : PropagationRequest) (s' s : PressureSignal) : Prop :=
  Starved pq topo policy ledger fences pins request s' → (topo.indexOf s.origin).isSome = true →
    Starved pq topo policy ledger fences pins request s

theorem own_replay : Own (baseExplanation topo policy request s).finalize := by
  unfold Own baseExplanation
  simp [PropagationExplanation.finalize, PropagationExplanation.seal]

/-- The explanation of a traversal is flagged for itself, unless an earlier flag reaches it. -/
theorem own_ran {t : Traversal pq}
    (hrun : (startTraversal pq topo policy request p s).run
      (traversalContext topo policy ledger fences pins request s) = (.success, t)) :
    Own (ranExplanation p.counters t).finalize ↔
      (p.truncated = true → p.counters.recordTruncations < t.counters.recordTruncations) := by
  have hcuts := cuts_run (traversalContext topo policy ledger fences pins request s)
    (startTraversal pq topo policy request p s)
  rw [hrun] at hcuts
  have hflagged : t.truncated = true ↔ p.truncated = true ∨
    p.counters.recordTruncations < t.counters.recordTruncations := hcuts.flagged
  have hcount : (ranExplanation p.counters t).finalize.counters.recordTruncations =
    t.counters.recordTruncations - p.counters.recordTruncations := rfl
  have hflag : (ranExplanation p.counters t).finalize.truncated = t.truncated := rfl
  rw [Own, hflag, hflagged, hcount, Nat.sub_pos_iff_lt, or_iff_right_iff_imp]

/-- What the traversals before a signal leave is flagged when one of them was starved, and their
explanations are flagged each for itself when the starved ones come last. -/
theorem progress_flags :
    ((progress pq topo policy ledger fences pins request).truncated = true ↔
      ∃ s ∈ liveSignals policy ledger request,
        Starved pq topo policy ledger fences pins request s) ∧
    ((∀ e ∈ (progress pq topo policy ledger fences pins request).explanations, Own e) ↔
      (liveSignals policy ledger request).Pairwise
        (Trails pq topo policy ledger fences pins request)) := by
  refine progress_induction (P := fun l p =>
    (p.truncated = true ↔ ∃ s ∈ l, Starved pq topo policy ledger fences pins request s) ∧
      ((∀ e ∈ p.explanations, Own e) ↔
        l.Pairwise (Trails pq topo policy ledger fences pins request))) ⟨?_, ?_⟩ ?_
  · simp [unstarted_spec.truncated]
  · refine iff_of_true (fun e he => ?_) .nil
    obtain ⟨s, -, rfl⟩ := List.mem_map.mp he
    exact own_replay
  intro before s after hsplit hp
  obtain ⟨hflag, hown⟩ := hp
  have hs : s ∈ liveSignals policy ledger request := by
    rw [hsplit]
    exact List.mem_append_right _ List.mem_cons_self
  have hstarved := @truncated_run_iff pq (traversalContext topo policy ledger fences pins request s)
    (startTraversal pq topo policy request
      (progressBefore pq topo policy ledger fences pins request s) s) startTraversal_fresh rfl
  rw [← traverse_truncated] at hstarved
  refine ⟨?_, ?_⟩
  · rw [hstarved]
    change (progressBefore pq topo policy ledger fences pins request s).truncated = true ∨
      Starved pq topo policy ledger fences pins request s ↔ _
    rw [hflag]
    simp only [List.mem_append, List.mem_singleton, or_and_right, exists_or, exists_eq_left]
  · rw [List.pairwise_append, ← hown]
    have hlast : [s].Pairwise (Trails pq topo policy ledger fences pins request) :=
      List.pairwise_singleton _ _
    simp only [hlast, true_and, List.mem_singleton, forall_eq]
    rcases htrav : traversalOf pq topo policy ledger fences pins request s with ⟨st, t⟩
    have hleft := traverse_left
      (p := progressBefore pq topo policy ledger fences pins request s) (s := s) htrav
    rw [hleft.explanations]
    cases hst : st.ok with
    | false =>
      -- a live signal is refused for its origin alone
      have hnone : (topo.indexOf s.origin).isSome ≠ true := by
        intro horigin
        have hok : (traversalOf pq topo policy ledger fences pins request s).1.ok = true :=
          success_of_origin hs horigin
        rw [htrav, hst] at hok
        cases hok
      simp [Trails, hnone]
    | true =>
      obtain ⟨t', htrav', hrun⟩ := traversalOf_ok (by rw [htrav]; exact hst)
      rw [htrav] at htrav'
      obtain ⟨rfl, rfl⟩ := Prod.mk.inj htrav'
      have horigin : (topo.indexOf s.origin).isSome = true := origin_of_success hrun
      have hcounted := @counted_run_iff pq (traversalContext topo policy ledger fences pins request s)
        (startTraversal pq topo policy request
          (progressBefore pq topo policy ledger fences pins request s) s) startTraversal_fresh rfl
      change _ < (traversalOf pq topo policy ledger fences pins request s).2.counters.recordTruncations
        ↔ _ at hcounted
      rw [htrav] at hcounted
      rw [if_pos rfl, List.forall_mem_append, List.forall_mem_singleton, own_ran htrav, hflag]
      refine and_congr_right fun _ => ?_
      constructor
      · exact fun h s' hs' hshort _ => hcounted.mp (h ⟨s', hs', hshort⟩)
      · rintro h ⟨s', hs', hshort⟩
        exact hcounted.mpr (h s' hs' hshort horigin)

/-- A flag that was raised is in the explanation of the traversal that has raised it. -/
theorem truncated_explained
    (h : (progress pq topo policy ledger fences pins request).truncated = true) :
    ∃ e ∈ (progress pq topo policy ledger fences pins request).explanations,
      e.truncated = true := by
  refine progress_invariant (P := fun p => p.truncated = true →
    ∃ e ∈ p.explanations, e.truncated = true) (fun p hp htrunc => ?_) (fun p s _ hp => ?_) h
  · rw [hp.truncated] at htrunc
    cases htrunc
  · cases traverse_cases pq topo policy ledger fences pins request p s with
    | refused _ _ _ hexpl hsame =>
      rw [hexpl, hsame]
      exact hp
    | @ran t e _ _ hexpl _ _ hcut hflag =>
      intro htrunc
      refine ⟨e, ?_, hcut.trans (hflag.symm.trans htrunc)⟩
      rw [hexpl]
      exact List.mem_append_right _ List.mem_cons_self

/-- The traversal of a signal with the flag of the request renewed. -/
def traverseRenewed (pq : EntryQueue) (topo : Topology) (policy : PropagationPolicy)
    (ledger : PropagationLedger) (fences : Option FenceTable) (pins : List (Option Generation))
    (request : PropagationRequest) (s : PressureSignal) : Progress :=
  traverse pq topo policy ledger fences pins request
    { progressBefore pq topo policy ledger fences pins request s with truncated := false } s

/-- An explanation that is flagged for itself is the one that a renewed flag gives. -/
theorem renewed_of_own (hs : s ∈ liveSignals policy ledger request)
    (he : e ∈ (progress pq topo policy ledger fences pins request).explanations)
    (hsource : e.source = s.source) (hown : Own e) :
    e ∈ (traverseRenewed pq topo policy ledger fences pins request s).explanations := by
  have haccepted := (List.mem_filter.mp hs).1
  rcases explanation_of_source haccepted he hsource with ⟨hreplay, -⟩ | ⟨-, t, htrav, rfl⟩
  · have hdead := (List.mem_filter.mp hreplay).2
    rw [(List.mem_filter.mp hs).2] at hdead
    cases hdead
  let p := progressBefore pq topo policy ledger fences pins request s
  let flagged : Outputs := ⟨p.acc, p.counters, p.truncated⟩
  let renewed : Outputs := ⟨p.acc, p.counters, false⟩
  obtain ⟨ws, st, u, hruns⟩ := run_withOutputs
    (traversalContext topo policy ledger fences pins request s)
    (startTraversal pq topo policy request p s)
  have hhere := htrav.symm.trans (hruns flagged)
  obtain rfl : Status.success = st := congrArg Prod.fst hhere
  obtain rfl : t = u.withOutputs (flagged.write ws) := congrArg Prod.snd hhere
  have hthere : (startTraversal pq topo policy request { p with truncated := false } s).run
      (traversalContext topo policy ledger fences pins request s) =
        (.success, u.withOutputs (renewed.write ws)) := hruns renewed
  have hcounters : (renewed.write ws).counters = (flagged.write ws).counters :=
    (renewed.counters_write ws).trans (flagged.counters_write ws).symm
  -- the counters are the same, and either flag says what they say
  have hfresh : Own (ranExplanation p.counters (u.withOutputs (renewed.write ws))).finalize :=
    (own_ran hthere).mpr fun hclear => Bool.noConfusion hclear
  have hcounts : (ranExplanation p.counters (u.withOutputs (renewed.write ws))).finalize.counters =
      (ranExplanation p.counters (u.withOutputs (flagged.write ws))).finalize.counters :=
    congrArg (fun c : EngineCounters => explanationCounters p.counters { c with
      signalsAccepted := c.signalsAccepted + 1, propagations := c.propagations + 1 }) hcounters
  have hflags : (renewed.write ws).truncated = (flagged.write ws).truncated := by
    unfold Own at hfresh hown
    rw [hcounts] at hfresh
    exact Bool.eq_iff_iff.mpr (hfresh.trans hown.symm)
  have hwrites : renewed.write ws = flagged.write ws := by
    have hsame := flagged.write_renewed ws
    change renewed.write ws = _ at hsame
    rw [hsame, hflags]
  have hleft := traverse_left hthere
  rw [hwrites] at hleft
  rw [traverseRenewed, hleft.explanations]
  exact List.mem_append_right _ List.mem_cons_self

/-! ## Truncations by signal -/

/-- Truncation is reported by signal: an explanation is flagged for the truncations that it counts,
whatever flag its traversal has started with, and an outcome is complete when none is flagged. -/
structure TruncationReported (pq : EntryQueue) (topo : Topology) (policy : PropagationPolicy)
    (ledger : PropagationLedger) (fences : Option FenceTable) (liveEpoch : Epoch)
    (request : PropagationRequest) (o : PropagationOutcome) : Prop where
  own : ∀ e ∈ o.explanations, e.truncated = true ↔ 0 < e.counters.recordTruncations
  complete : o.complete = true ↔ ∀ e ∈ o.explanations, e.truncated = false
  independent : ∀ pins, Ready topo policy liveEpoch pins request →
    ∀ s ∈ liveSignals policy ledger request, ∀ e ∈ o.explanations, e.source = s.source →
      e ∈ (traverseRenewed pq topo policy ledger fences pins request s).explanations

/-- A request that overflows the ledger has been admitted, and none of its signals was starved. -/
theorem ready_of_overflows
    (h : Overflows pq (.of topo policy ledger fences liveEpoch) request) :
    ∃ pins, Ready topo policy liveEpoch pins request ∧
      (progress pq topo policy ledger fences pins request).truncated = false := by
  obtain ⟨topo', policy', ledger', p, ht, hp, hl, hplan, -, htrunc, -⟩ := h
  cases ht
  cases hp
  cases hl
  have hcases := @plan_cases pq topo policy ledger fences liveEpoch request
  change plan pq topo policy ledger fences liveEpoch request = .ok p at hplan
  rw [hplan] at hcases
  cases hcases with
  | planned hready => exact ⟨_, hready, htrunc⟩

/-- Truncation is reported by signal exactly when the starved signals of the request come last, and
the ledger takes its applications. -/
theorem truncation_reported_iff (pq : EntryQueue) (topo : Topology) (policy : PropagationPolicy)
    (ledger : PropagationLedger) (fences : Option FenceTable) (liveEpoch : Epoch)
    (request : PropagationRequest) :
    TruncationReported pq topo policy ledger fences liveEpoch request
      (propagate pq (.of topo policy ledger fences liveEpoch) request).1 ↔
    (∀ pins, Ready topo policy liveEpoch pins request →
      (liveSignals policy ledger request).Pairwise
        (Trails pq topo policy ledger fences pins request)) ∧
    ¬Overflows pq (.of topo policy ledger fences liveEpoch) request := by
  have hcomplete := @complete_iff pq topo policy ledger fences liveEpoch request
  have hreport := propagate_report pq topo policy ledger fences liveEpoch request
  have hoverflows := @ready_of_overflows pq topo policy ledger fences liveEpoch request
  revert hcomplete hreport
  generalize (propagate pq (.of topo policy ledger fences liveEpoch) request).1 = o
  intro hcomplete hreport
  rcases hreport with ⟨hsilent, hnot⟩ | ⟨pins, hreport⟩
  · have hfits : ¬Overflows pq (.of topo policy ledger fences liveEpoch) request := by
      intro hover
      obtain ⟨pins, hready, -⟩ := hoverflows hover
      exact hnot pins hready
    refine iff_of_true ⟨?_, ?_, fun pins hready => absurd hready (hnot pins)⟩
      ⟨fun pins hready => absurd hready (hnot pins), hfits⟩
    · simp [hsilent.explanations]
    · simp [hsilent.explanations, hcomplete, hnot, hfits]
  have hready := hreport.ready
  have hsame : ∀ {P : List (Option Generation) → Prop},
      (∀ pins', Ready topo policy liveEpoch pins' request → P pins') ↔ P pins := by
    intro P
    refine ⟨fun h => h pins hready, fun h pins' hready' => ?_⟩
    cases hready.pins.symm.trans hready'.pins
    exact h
  obtain ⟨hflag, hown⟩ := @progress_flags pq topo policy ledger fences pins request
  rw [hsame] at hcomplete ⊢
  rw [← hown]
  constructor
  · intro h
    refine ⟨fun e he => h.own e (hreport.explanations ▸ he), fun hover => ?_⟩
    obtain ⟨pins', hready', hclear⟩ := hoverflows hover
    cases hready.pins.symm.trans hready'.pins
    have hall := explanations_untruncated hclear
    rw [← hreport.explanations] at hall
    exact (hcomplete.mp (h.complete.mpr hall)).2 hover
  · rintro ⟨hflags, hfits⟩
    refine ⟨fun e he => hflags e (hreport.explanations ▸ he), ?_, fun pins' hready' => ?_⟩
    · rw [hcomplete, and_iff_left hfits, hreport.explanations]
      refine ⟨explanations_untruncated, fun hall => ?_⟩
      by_contra htrunc
      obtain ⟨e, he, hcut⟩ := truncated_explained (by simpa using htrunc)
      rw [hall e he] at hcut
      cases hcut
    · cases hready.pins.symm.trans hready'.pins
      intro s hs e he hsource
      rw [hreport.explanations] at he
      exact renewed_of_own hs he hsource (hflags e he)

/-- A signal that no edge leads from is flagged behind a starved one. -/
theorem truncation_inherited :
    let topo := probeTopology
      [probeResource ⟨7⟩, probeResource ⟨8⟩, { probeResource ⟨9⟩ with protection := .sealed },
        probeResource ⟨10⟩]
      [{ probeEdge ⟨1⟩ ⟨7⟩ ⟨8⟩ with attenuation := .zero },
        { probeEdge ⟨2⟩ ⟨7⟩ ⟨8⟩ with flags := ⟨EdgeFlagKind.recoveryOnly.mask⟩ },
        probeEdge ⟨3⟩ ⟨7⟩ ⟨9⟩]
    let policy := { probePolicy with
      maxExpansions := 1, maxVisited := 1, maxRecords := 2, maxPathRecords := 2 }
    let request := { probeRequest policy topo ⟨7⟩ 5 with
      signals := [probeSignal policy topo ⟨7⟩ 5,
        { probeSignal policy topo ⟨10⟩ 5 with id := ⟨2⟩, source := ⟨2⟩, lineage := { lo := 2 } }] }
    let o := (propagate .scan (.of topo policy (.make 4 4 4) none probeEpoch) request).1
    policy.validate.ok = true ∧ o.status.ok = true ∧
      o.explanations.map (fun e => (e.origin, e.truncated, e.counters.recordTruncations)) =
        [(⟨7⟩, true, 1), (⟨10⟩, true, 0)] ∧
      ¬TruncationReported .scan topo policy (.make 4 4 4) none probeEpoch request o := by
  intro topo policy request o
  have hreport : policy.validate.ok = true ∧ o.status.ok = true ∧
      o.explanations.map (fun e => (e.origin, e.truncated, e.counters.recordTruncations)) =
        [(⟨7⟩, true, 1), (⟨10⟩, true, 0)] := by decide +kernel
  refine ⟨hreport.1, hreport.2.1, hreport.2.2, fun h => ?_⟩
  have hinherited : ∃ e ∈ o.explanations, e.truncated = true ∧ e.counters.recordTruncations = 0 := by
    decide +kernel
  obtain ⟨e, he, htrunc, hnone⟩ := hinherited
  have hown := (h.own e he).mp htrunc
  omega

end PropagationEngine

end Backpressure
