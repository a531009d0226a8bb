import Backpressure.Engine.Replay
import Backpressure.Model.Lineage

/-!
# Lineages and evidence

The engine takes the lineage that a signal brings: no check compares it with the one that is
computed from its content. What the lineage says about the content therefore holds exactly where
the publisher has bound it.
-/

namespace Backpressure

namespace PropagationEngine

open Traversal

variable {pq : EntryQueue} {topo : Topology} {policy : PropagationPolicy}
  {ledger : PropagationLedger} {fences : Option FenceTable} {pins : List (Option Generation)}
  {ctx : EngineContext} {request : PropagationRequest} {s : PressureSignal}

/-- The call accepts the signal or counts it as an idempotent replay: it is past the admission, and
its source has an explanation. -/
def Taken (pq : EntryQueue) (ctx : EngineContext) (request : PropagationRequest)
    (s : PressureSignal) : Prop :=
  ∃ policy, ctx.policy = some policy ∧ s ∈ (admission policy request).accepted ∧
    ∃ e ∈ (propagate pq ctx request).1.explanations, e.source = s.source

/-- What lets a signal through: the checks of the request, the admission, and a lineage that the
ledger knows or an origin that the topology has. -/
def Admissible (ctx : EngineContext) (request : PropagationRequest) (s : PressureSignal) : Prop :=
  ∃ topo policy ledger pins, ctx.topology = some topo ∧ ctx.policy = some policy ∧
    ctx.ledger = some ledger ∧ Ready topo policy ctx.liveEpoch pins request ∧
    s ∈ (admission policy request).accepted ∧
    (ledger.hasLineage s.lineage = true ∨ (topo.indexOf s.origin).isSome = true)

/-- A traversal that is not refused starts at a resource of the topology. -/
theorem origin_of_success {ctx : TraversalContext} {t t' : Traversal pq}
    (h : RunCase ctx t (.success, t')) : (ctx.topo.indexOf ctx.signal.origin).isSome = true := by
  cases h with
  | refused hst => cases hst
  | blocked horigin => exact Option.isSome_iff_exists.mpr ⟨_, horigin.indexOf⟩
  | traversed horigin => exact Option.isSome_iff_exists.mpr ⟨_, horigin.indexOf⟩

/-- Every explanation of a request is that of a replay, or of a signal with an origin. -/
theorem explained_progress :
    ∀ e ∈ (progress pq topo policy ledger fences pins request).explanations,
      ∃ s ∈ (admission policy request).accepted, e.source = s.source ∧
        (ledger.hasLineage s.lineage = true ∨ (topo.indexOf s.origin).isSome = true) := by
  refine progress_invariant (P := fun p => ∀ e ∈ p.explanations,
    ∃ s ∈ (admission policy request).accepted, e.source = s.source ∧
      (ledger.hasLineage s.lineage = true ∨ (topo.indexOf s.origin).isSome = true))
    (fun p hp e he => ?_) fun p s hs hp e he => ?_
  · obtain ⟨-, -, s, hs, hlive, hsource⟩ := hp.replays e he
    exact ⟨s, hs, hsource, .inl (by simpa [isLive] using hlive)⟩
  · cases traverse_cases pq topo policy ledger fences pins request p s with
    | refused _ _ _ hexpl => exact hp e (hexpl ▸ he)
    | ran hrun _ hexpl _ hsource =>
      rw [hexpl] at he
      rcases List.mem_append.mp he with he | he
      · exact hp e he
      · rw [List.mem_singleton.mp he]
        exact ⟨s, (List.mem_filter.mp hs).1, hsource, .inr (origin_of_success hrun)⟩

/-- The traversal of a live signal with an origin is not refused. -/
theorem success_of_origin (hs : s ∈ liveSignals policy ledger request)
    (horigin : (topo.indexOf s.origin).isSome = true) :
    (traversalOf pq topo policy ledger fences pins request s).1.ok = true := by
  have hstart : Startable (traversalContext topo policy ledger fences pins request s) := by
    obtain ⟨i, hindex⟩ := Option.isSome_iff_exists.mp horigin
    obtain ⟨origin, hres, hid⟩ := Topology.resourceAt_of_indexOf hindex
    exact ⟨⟨i, origin, hindex, hres, hid⟩, (accepted_of_mem (List.mem_filter.mp hs).1).seed⟩
  have hrun : RunCase (traversalContext topo policy ledger fences pins request s) _
    (traversalOf pq topo policy ledger fences pins request s) := run_cases _ startTraversal_fresh
  revert hrun
  generalize traversalOf pq topo policy ledger fences pins request s = r
  intro hrun
  cases hrun with
  | refused _ hnot => exact absurd hstart hnot
  | blocked => rfl
  | traversed => rfl

/-- A live signal with an origin has its explanation. -/
theorem explained_of_live (hs : s ∈ liveSignals policy ledger request)
    (horigin : (topo.indexOf s.origin).isSome = true) :
    ∃ e ∈ (progress pq topo policy ledger fences pins request).explanations,
      e.source = s.source := by
  obtain ⟨e, he, hsource, -⟩ :=
    @explanation_of_live pq topo policy ledger fences pins request s hs (success_of_origin hs horigin)
  exact ⟨e, he, hsource⟩

/-- The signals that a call takes are those that are let through. -/
theorem taken_iff : Taken pq ctx request s ↔ Admissible ctx request s := by
  constructor
  · rintro ⟨policy, hpolicy, hs, e, he, hsource⟩
    have hall : ∀ topo policy' ledger pins, ctx.topology = some topo → ctx.policy = some policy' →
        ctx.ledger = some ledger → Ready topo policy' ctx.liveEpoch pins request →
        e ∈ (progress pq topo policy' ledger ctx.fences pins request).explanations →
        Admissible ctx request s := by
      intro topo policy' ledger pins ht hp hl hready he
      cases hpolicy.symm.trans hp
      obtain ⟨s', hs', hsource', hthrough⟩ := explained_progress e he
      obtain rfl := accepted_source_injective hs' hs (hsource'.symm.trans hsource)
      exact ⟨topo, _, ledger, pins, ht, hp, hl, hready, hs, hthrough⟩
    have hcase := propagate_cases pq ctx request
    revert hcase he
    generalize propagate pq ctx request = r
    intro he hcase
    cases hcase with
    | refused _ _ hexpl =>
      rw [finalize_explanations, hexpl] at he
      cases he
    | allRefused ht hp hl hready => exact hall _ _ _ _ ht hp hl hready (by simpa using he)
    | kept ht hp hl hready => exact hall _ _ _ _ ht hp hl hready (by simpa using he)
    | committed ht hp hl hready => exact hall _ _ _ _ ht hp hl hready (by simpa using he)
  · rintro ⟨topo, policy, ledger, pins, ht, hp, hl, hready, hs, hthrough⟩
    have hcontext : ctx = .of topo policy ledger ctx.fences ctx.liveEpoch := by
      cases ctx
      cases ht
      cases hp
      cases hl
      rfl
    have hreport := report_of_ready pq ledger ctx.fences hready
    rw [← hcontext] at hreport
    refine ⟨policy, hp, hs, ?_⟩
    rw [hreport.explanations]
    by_cases hknown : ledger.hasLineage s.lineage = true
    · have hreplay := @explanation_replay pq topo policy ledger ctx.fences pins request s
        (mem_replays hs hknown)
      have hmem : (baseExplanation topo policy request s).finalize ∈
          [(baseExplanation topo policy request s).finalize] := List.mem_singleton_self _
      rw [← hreplay] at hmem
      exact ⟨_, (List.mem_filter.mp hmem).1, rfl⟩
    · have hlive : s ∈ liveSignals policy ledger request :=
        List.mem_filter.mpr ⟨hs, by simpa [isLive] using hknown⟩
      exact explained_of_live hlive (hthrough.resolve_left hknown)

/-- Every lineage that the two calls take is computed from the content of its signal, and where no
digest collides it stands for that content: neither does a signal of another content have it, nor a
signal of the same content another one. -/
structure ContentAddressed (pq : EntryQueue) (ctx ctx' : EngineContext)
    (request request' : PropagationRequest) : Prop where
  first : ∀ s, Taken pq ctx request s → s.lineage = s.computeLineage
  second : ∀ s, Taken pq ctx' request' s → s.lineage = s.computeLineage
  content : ∀ s s', Taken pq ctx request s → Taken pq ctx' request' s' →
    PressureSignal.CollisionFree s s' → (s.lineage = s'.lineage ↔ s.evidence = s'.evidence)

end PropagationEngine

end Backpressure
