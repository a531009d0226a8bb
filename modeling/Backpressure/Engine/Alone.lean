import Backpressure.Engine.Evidence
import Backpressure.Engine.Justified

/-!
# Signals of one batch

The traversals of a request share their outputs and nothing else. What a batch reports of one of
its signals is what a rehearsal with that signal alone reports, but for the number of contributions
that a resource lists.
-/

namespace Backpressure

namespace PropagationEngine

open Traversal Tally

variable {pq : EntryQueue} {topo : Topology} {policy : PropagationPolicy}
  {ledger : PropagationLedger} {fences : Option FenceTable} {liveEpoch : Epoch}
  {pins : List (Option Generation)} {request : PropagationRequest} {s s' : PressureSignal}
  {p : Progress} {i : Nat} {r : Resource} {t : Traversal pq}

/-! ## A traversal by itself -/

/-- The traversal of one signal, started on nothing. -/
def aloneTraversal (pq : EntryQueue) (topo : Topology) (policy : PropagationPolicy)
    (ledger : PropagationLedger) (fences : Option FenceTable) (pins : List (Option Generation))
    (request : PropagationRequest) (s : PressureSignal) : Status × Traversal pq :=
  (startTraversal pq topo policy request (unstarted policy ledger topo request) s).run
    (traversalContext topo policy ledger fences pins request s)

/-- The explanation reports the traversal, whatever was counted before it. -/
structure Explains (e : PropagationExplanation) (before : EngineCounters) (t : Traversal pq) :
    Prop where
  hops : e.hops = t.expl.hops
  suppressed : e.suppressed = t.expl.suppressed
  used : e.amplificationUsed = t.expl.amplificationUsed
  truncated : e.truncated = false → t.truncated = false
  counters : { e.counters with signalsReceived := 0 } =
    { explanationCounters before t.counters with signalsReceived := 0 }

/-- What other signals have left behind plays no part in what a traversal explains. -/
theorem explains_alone (hrun : (startTraversal pq topo policy request p s).run
      (traversalContext topo policy ledger fences pins request s) = (.success, t)) :
    ∃ u, aloneTraversal pq topo policy ledger fences pins request s = (.success, u) ∧
      Explains (ranExplanation p.counters t).finalize
        (unstarted policy ledger topo request).counters u := by
  obtain ⟨ws, st, u, hruns⟩ := run_withOutputs
    (traversalContext topo policy ledger fences pins request s)
    (startTraversal pq topo policy request p s)
  have hhere := hrun.symm.trans (hruns ⟨p.acc, p.counters, p.truncated⟩)
  obtain rfl : Status.success = st := congrArg Prod.fst hhere
  obtain rfl : t = u.withOutputs (Outputs.write ⟨p.acc, p.counters, p.truncated⟩ ws) :=
    congrArg Prod.snd hhere
  let start : Outputs := ⟨∅, (unstarted policy ledger topo request).counters, false⟩
  refine ⟨_, hruns start, rfl, rfl, rfl, fun hkept => ?_, ?_⟩
  · refine Outputs.write_invariant (R := fun o o' => o.truncated = false → o'.truncated = false)
      (fun o o' w h => ?_) (o := ⟨p.acc, p.counters, p.truncated⟩) (fun _ => rfl) ws hkept
    cases w with
    | truncate => exact fun htrue => htrue
    | _ => exact h
  · have hthere := explanationCounters_add start.counters (Outputs.work ws)
      (start.counters.add (Outputs.work ws)).signalsAccepted
      (start.counters.add (Outputs.work ws)).propagations
    change { explanationCounters p.counters { (Outputs.write _ ws).counters with
      signalsAccepted := _, propagations := _ } with signalsReceived := 0 } = _
    rw [Outputs.counters_write, explanationCounters_add, ← hthere]
    dsimp only [withOutputs]
    rw [Outputs.counters_write]

/-- Every explanation of an accepted signal is that of its replay, or that of its own traversal. -/
theorem explanation_alone (hs : s ∈ (admission policy request).accepted)
    {e : PropagationExplanation}
    (he : e ∈ (progress pq topo policy ledger fences pins request).explanations)
    (hsource : e.source = s.source) :
    s ∈ replays policy ledger request ∧ e = (baseExplanation topo policy request s).finalize ∨
      s ∈ liveSignals policy ledger request ∧
        ∃ u, aloneTraversal pq topo policy ledger fences pins request s = (.success, u) ∧
          Explains e (unstarted policy ledger topo request).counters u := by
  rcases explanation_of_source hs he hsource with hreplay | ⟨hlive, t, htrav, rfl⟩
  · exact .inl hreplay
  · exact .inr ⟨hlive, explains_alone htrav⟩

/-! ## The rehearsal of one signal -/

/-- The dry run with one signal, under the pins and budgets of a request. -/
def alone (request : PropagationRequest) (s : PressureSignal) : PropagationRequest :=
  { withSignals request [s] with dryRun := true }

theorem accepted_alone (hs : s ∈ (admission policy request).accepted) :
    (admission policy (alone request s)).accepted = [s] := by
  have haccepted := accepted_of_mem hs
  have hadmit : (admitSignal policy request [] s).ok = true :=
    admitSignal_ok.mpr ⟨haccepted.valid, haccepted.topologyDigest, haccepted.epoch, by simp⟩
  have hamong : acceptedAmong policy request [s] = [s] := if_pos hadmit
  exact accepted_withSignals.trans hamong

theorem ready_alone (h : Ready topo policy liveEpoch pins request)
    (hs : s ∈ (admission policy request).accepted) :
    Ready topo policy liveEpoch pins (alone request s) := by
  have hlen : [s].length ≤ policy.maxSources.toNat := by
    have hpos := List.length_pos_of_mem (accepted_of_mem hs).requested
    have hle := h.sources
    rw [List.length_singleton]
    omega
  have hamong : acceptedAmong policy request [s] ≠ [] := by
    rw [← accepted_withSignals]
    have hone : (admission policy (withSignals request [s])).accepted = [s] := accepted_alone hs
    simp [hone]
  have hready := ready_withSignals h hlen hamong
  exact ⟨hready.checked, hready.sources, hready.pinCount, hready.pins, hready.accepted⟩

theorem reach_alone : reach pq topo policy ledger fences pins (alone request s) s' =
    reach pq topo policy ledger fences pins request s' :=
  @settlements_startTraversal pq topo policy ledger fences pins request s'
    (unstarted policy ledger topo (alone request s))

/-- The rehearsal explains the signal by the same traversal. -/
theorem explanation_rehearsed (hs : s ∈ (admission policy request).accepted)
    {e : PropagationExplanation}
    (he : e ∈ (progress pq topo policy ledger fences pins (alone request s)).explanations)
    (hsource : e.source = s.source) :
    s ∈ replays policy ledger request ∧ e = (baseExplanation topo policy request s).finalize ∨
      s ∈ liveSignals policy ledger request ∧
        ∃ u, aloneTraversal pq topo policy ledger fences pins request s = (.success, u) ∧
          Explains e (unstarted policy ledger topo request).counters u := by
  have hone := accepted_alone hs
  have hs' : s ∈ (admission policy (alone request s)).accepted := by simp [hone]
  rcases explanation_of_source hs' he hsource with ⟨hreplay, rfl⟩ | ⟨hlive, t, htrav, rfl⟩
  · exact .inl ⟨List.mem_filter.mpr ⟨hs, (List.mem_filter.mp hreplay).2⟩, rfl⟩
  · have hrun : (startTraversal pq topo policy request
        (progressBefore pq topo policy ledger fences pins (alone request s) s) s).run
          (traversalContext topo policy ledger fences pins request s) = (.success, t) := htrav
    exact .inr ⟨List.mem_filter.mpr ⟨hs, (List.mem_filter.mp hlive).2⟩, explains_alone hrun⟩

/-! ## Contributions -/

/-- The contributions of a signal that an outcome lists at a resource. -/
def contributionsOf (o : PropagationOutcome) (s : PressureSignal) (resource : ResourceId) :
    List Contribution :=
  (o.nodes.filter fun n => n.resource == resource).flatMap fun n =>
    n.contributions.filter fun c => c.source == s.source

/-- The arrivals of one signal at an index. -/
def arrivalsOf (pq : EntryQueue) (topo : Topology) (policy : PropagationPolicy)
    (ledger : PropagationLedger) (fences : Option FenceTable) (pins : List (Option Generation))
    (request : PropagationRequest) (i : Nat) (s : PressureSignal) : List Arrival :=
  ((reach pq topo policy ledger fences pins request s).filter fun e => e.node = i).map
    (arrivalOf (traversalContext topo policy ledger fences pins request s))

theorem arrivalsAt_eq : arrivalsAt pq topo policy ledger fences pins request i =
    (liveSignals policy ledger request).flatMap
      (arrivalsOf pq topo policy ledger fences pins request i) := by
  unfold arrivalsAt arrivals
  rw [List.filter_flatMap]
  refine List.flatMap_congr fun s _ => ?_
  rw [List.filter_map]
  rfl

/-- A signal settles a resource once. -/
theorem nodup_reach :
    ((reach pq topo policy ledger fences pins request s).map QueueEntry.node).Nodup :=
  nodup_settlements _ startTraversal_fresh

theorem length_arrivalsOf :
    (arrivalsOf pq topo policy ledger fences pins request i s).length ≤ 1 := by
  have hcount := List.nodup_iff_count_le_one.mp (@nodup_reach pq topo policy ledger fences pins
    request s) i
  rw [List.count_eq_countP, List.countP_map] at hcount
  unfold arrivalsOf
  rw [List.length_map, ← List.countP_eq_length_filter]
  exact (List.countP_mono_left fun e _ he => by simpa using he).trans hcount

theorem contribution_arrivalsOf {x : Arrival}
    (hx : x ∈ arrivalsOf pq topo policy ledger fences pins request i s) :
    x.contribution.source = s.source := by
  obtain ⟨e, -, rfl⟩ := List.mem_map.mp hx
  rfl

/-- At most one element in the middle is of a kind: a prefix has it or does not reach it. -/
theorem filter_take_middle {α : Type} {l m r : List α} {q : α → Bool} (n : Nat)
    (hl : ∀ x ∈ l, q x = false) (hm : ∀ x ∈ m, q x = true) (hr : ∀ x ∈ r, q x = false)
    (hlen : m.length ≤ 1) :
    ((l ++ (m ++ r)).take n).filter q = if n ≤ l.length then [] else m := by
  have hnone : ∀ {l' k : List α}, (∀ x ∈ l', q x = false) → k.Sublist l' → k.filter q = [] := by
    intro l' k hl' hk
    refine List.filter_eq_nil_iff.mpr fun x hx => ?_
    rw [hl' x (hk.mem hx)]
    exact Bool.false_ne_true
  rw [List.take_append, List.filter_append, hnone hl (List.take_sublist _ _), List.nil_append]
  by_cases hle : n ≤ l.length
  · rw [if_pos hle, Nat.sub_eq_zero_of_le hle, List.take_zero]
    rfl
  · have hfits : m.length ≤ n - l.length := by omega
    rw [if_neg hle, List.take_append, List.take_of_length_le hfits, List.filter_append,
      hnone hr (List.take_sublist _ _), List.append_nil]
    exact List.filter_eq_self.mpr hm

/-- The contributions that an outcome lists at a resource are the first of its arrivals. -/
theorem contributionsOf_eq {o : PropagationOutcome}
    (hnodes : o.nodes = aggregateNodes policy (progress pq topo policy ledger fences pins request).acc)
    (hr : topo.resourceAt i = some r) :
    contributionsOf o s r.id =
      (((arrivalsAt pq topo policy ledger fences pins request i).map Arrival.contribution).take
        kMaxContributionsPerNode).filter fun c => c.source == s.source := by
  have htally := @tally_progress pq topo policy ledger fences pins request i
  have hcontributions := foldl_arrive_contributions
    (arrivalsAt pq topo policy ledger fences pins request i) {} (Nat.zero_le _)
  rw [← htally, List.nil_append] at hcontributions
  rw [← hcontributions]
  unfold contributionsOf
  rw [hnodes]
  cases hlookup : (progress pq topo policy ledger fences pins request).acc.lookup i with
  | none =>
    have hempty : (aggregateNodes policy (progress pq topo policy ledger fences pins
        request).acc).filter (fun n => n.resource == r.id) = [] := by
      refine List.filter_eq_nil_iff.mpr fun n hn hid => ?_
      obtain ⟨j, a, hlookup', rfl⟩ := mem_aggregateNodes.mp hn
      obtain ⟨r', hr', hid'⟩ := keyed_progress j a hlookup'
      obtain rfl := Topology.index_unique hr' hr (hid'.symm.trans (eq_of_beq hid))
      rw [hlookup] at hlookup'
      cases hlookup'
    rw [hempty]
    unfold Accumulators.tally
    rw [hlookup]
    rfl
  | some a =>
    obtain ⟨r', hr', hid⟩ := keyed_progress i a hlookup
    obtain rfl := Option.some.inj (hr.symm.trans hr')
    have hmem : nodeOutcome policy a ∈ aggregateNodes policy
        (progress pq topo policy ledger fences pins request).acc :=
      mem_aggregateNodes.mpr ⟨i, a, hlookup, rfl⟩
    have hone : (aggregateNodes policy (progress pq topo policy ledger fences pins
        request).acc).filter (fun n => n.resource == r.id) = [nodeOutcome policy a] := by
      rw [← List.map_id (aggregateNodes policy _)]
      refine filter_map_of_pairwise hmem (by simpa using hid) ?_
      refine (resources_distinct keyed_progress).imp fun {n n'} hne hboth => hne ?_
      exact (eq_of_beq hboth.1).trans (eq_of_beq hboth.2).symm
    rw [hone, List.flatMap_singleton, Accumulators.tally_of_lookup hlookup]
    rfl

theorem contributionsOf_unknown {o : PropagationOutcome} {resource : ResourceId}
    (hnodes : o.nodes = aggregateNodes policy (progress pq topo policy ledger fences pins request).acc)
    (h : ∀ i r, topo.resourceAt i = some r → r.id ≠ resource) : contributionsOf o s resource = [] := by
  have hempty : o.nodes.filter (fun n => n.resource == resource) = [] := by
    refine List.filter_eq_nil_iff.mpr fun n hn hid => ?_
    rw [hnodes] at hn
    obtain ⟨j, a, hlookup, rfl⟩ := mem_aggregateNodes.mp hn
    obtain ⟨r, hr, hid'⟩ := keyed_progress j a hlookup
    exact h j r hr (hid'.symm.trans (eq_of_beq hid))
  unfold contributionsOf
  rw [hempty]
  rfl

/-- The outcome of the rehearsal of a signal. -/
def rehearsal (pq : EntryQueue) (ctx : EngineContext) (request : PropagationRequest)
    (s : PressureSignal) : PropagationOutcome :=
  (propagate pq ctx (alone request s)).1

/-- A rehearsal lists what the traversal of its signal contributes. -/
theorem contributionsOf_rehearsal (hready : Ready topo policy liveEpoch pins request)
    (hs : s ∈ (admission policy request).accepted) (hr : topo.resourceAt i = some r) :
    contributionsOf (rehearsal pq (.of topo policy ledger fences liveEpoch) request s) s r.id =
      if isLive ledger s then
        (arrivalsOf pq topo policy ledger fences pins request i s).map Arrival.contribution
      else [] := by
  have hrep := report_of_ready pq ledger fences (ready_alone hready hs)
  have hlive : liveSignals policy ledger (alone request s) = if isLive ledger s then [s] else [] := by
    rw [liveSignals, accepted_alone hs, List.filter_singleton]
    cases isLive ledger s <;> rfl
  have hsame : arrivalsOf pq topo policy ledger fences pins (alone request s) i s =
      arrivalsOf pq topo policy ledger fences pins request i s := by
    unfold arrivalsOf
    rw [reach_alone]
    rfl
  rw [rehearsal, contributionsOf_eq hrep.nodes hr, arrivalsAt_eq, hlive]
  cases isLive ledger s with
  | false => rfl
  | true =>
    rw [if_pos rfl, if_pos rfl, List.flatMap_singleton, hsame, List.take_of_length_le]
    · refine List.filter_eq_self.mpr fun c hc => ?_
      obtain ⟨x, hx, rfl⟩ := List.mem_map.mp hc
      exact beq_iff_eq.mpr (contribution_arrivalsOf hx)
    · rw [List.length_map]
      exact length_arrivalsOf.trans (by decide)

/-- The rehearsals of these signals that list a contribution of their own at the resource. -/
def contributors (pq : EntryQueue) (ctx : EngineContext) (request : PropagationRequest)
    (resource : ResourceId) (l : List PressureSignal) : Nat :=
  l.countP fun s => !(contributionsOf (rehearsal pq ctx request s) s resource).isEmpty

/-- Every contributor arrives once. -/
theorem length_arrivals (hready : Ready topo policy liveEpoch pins request)
    (hr : topo.resourceAt i = some r) {l : List PressureSignal}
    (hl : ∀ s ∈ l, s ∈ (admission policy request).accepted) :
    ((l.filter (isLive ledger)).flatMap
      (arrivalsOf pq topo policy ledger fences pins request i)).length =
        contributors pq (.of topo policy ledger fences liveEpoch) request r.id l := by
  unfold contributors
  induction l with
  | nil => rfl
  | cons s rest ih =>
    have hrest := ih fun s' hs' => hl s' (List.mem_cons_of_mem s hs')
    have hown := @contributionsOf_rehearsal pq topo policy ledger fences liveEpoch pins request s i r
      hready (hl s List.mem_cons_self) hr
    have hlen : (arrivalsOf pq topo policy ledger fences pins request i s).length ≤ 1 :=
      length_arrivalsOf
    rw [List.countP_cons, hown, ← hrest]
    by_cases hlive : isLive ledger s = true
    · rw [List.filter_cons_of_pos hlive, List.flatMap_cons, List.length_append, if_pos hlive]
      cases harrivals : arrivalsOf pq topo policy ledger fences pins request i s with
      | nil => simp
      | cons x tail =>
        rw [harrivals, List.length_cons] at hlen
        simp only [List.length_cons, List.map_cons, List.isEmpty_cons, Bool.not_false, if_true]
        omega
    · rw [List.filter_cons_of_neg hlive, if_neg hlive]
      rfl

/-- A batch lists the contribution of a signal unless sixteen earlier ones contribute there. -/
theorem contributionsOf_batch (hready : Ready topo policy liveEpoch pins request)
    {before after : List PressureSignal}
    (haccepted : (admission policy request).accepted = before ++ s :: after)
    (resource : ResourceId) :
    contributionsOf (propagate pq (.of topo policy ledger fences liveEpoch) request).1 s resource =
      if kMaxContributionsPerNode ≤
          contributors pq (.of topo policy ledger fences liveEpoch) request resource before
        then []
        else contributionsOf (rehearsal pq (.of topo policy ledger fences liveEpoch) request s) s
          resource := by
  have hrep := report_of_ready pq ledger fences hready
  have hs : s ∈ (admission policy request).accepted := by
    rw [haccepted]
    exact List.mem_append_right _ List.mem_cons_self
  by_cases hknown : ∃ i r, topo.resourceAt i = some r ∧ r.id = resource
  case neg =>
    have hunknown : ∀ i r, topo.resourceAt i = some r → r.id ≠ resource :=
      fun i r hr hid => hknown ⟨i, r, hr, hid⟩
    have hbatch := contributionsOf_unknown (s := s) hrep.nodes hunknown
    have halone := contributionsOf_unknown (s := s)
      (report_of_ready pq ledger fences (ready_alone hready hs)).nodes hunknown
    rw [hbatch, rehearsal, halone, ite_self]
  case pos =>
    obtain ⟨i, r, hr, rfl⟩ := hknown
    have hpairwise := @accepted_pairwise policy request
    rw [haccepted] at hpairwise
    obtain ⟨-, htail, hcross⟩ := List.pairwise_append.mp hpairwise
    -- every other accepted signal has another source
    have hother : ∀ l : List PressureSignal, (∀ s' ∈ l, s'.source ≠ s.source) →
        ∀ c ∈ ((l.filter (isLive ledger)).flatMap
          (arrivalsOf pq topo policy ledger fences pins request i)).map Arrival.contribution,
        (c.source == s.source) = false := by
      intro l hl c hc
      obtain ⟨x, hx, rfl⟩ := List.mem_map.mp hc
      obtain ⟨s', hs', hx'⟩ := List.mem_flatMap.mp hx
      rw [contribution_arrivalsOf hx', beq_eq_false_iff_ne]
      exact hl s' (List.mem_filter.mp hs').1
    have hbefore := hother before fun s' hs' => hcross s' hs' s List.mem_cons_self
    have hafter := hother after fun s' hs' =>
      ((List.pairwise_cons.mp htail).1 s' hs').symm
    have hlength := @length_arrivals pq topo policy ledger fences liveEpoch pins request i r hready hr
      before fun s' hs' => by
        rw [haccepted]
        exact List.mem_append_left _ hs'
    rw [contributionsOf_eq hrep.nodes hr, arrivalsAt_eq, liveSignals, haccepted,
      List.filter_append, List.flatMap_append, List.map_append, contributionsOf_rehearsal hready hs hr]
    by_cases hlive : isLive ledger s = true
    · rw [List.filter_cons_of_pos hlive, List.flatMap_cons, List.map_append, if_pos hlive,
        filter_take_middle _ hbefore ?_ hafter ?_, List.length_map, hlength]
      · intro c hc
        obtain ⟨x, hx, rfl⟩ := List.mem_map.mp hc
        exact beq_iff_eq.mpr (contribution_arrivalsOf hx)
      · rw [List.length_map]
        exact length_arrivalsOf
    · rw [List.filter_cons_of_neg hlive, if_neg hlive, ite_self]
      refine List.filter_eq_nil_iff.mpr fun c hc => ?_
      rcases List.mem_append.mp (List.mem_of_mem_take hc) with hc | hc
      · simp [hbefore c hc]
      · simp [hafter c hc]

/-- What a batch reports of one of its signals is what the rehearsal of that signal reports, but that
a resource reached by sixteen earlier signals does not list its contribution. -/
theorem batch_reports_alone (pq : EntryQueue) (ctx : EngineContext) (request : PropagationRequest)
    (s : PressureSignal) (policy : PropagationPolicy) (hpolicy : ctx.policy = some policy)
    (htaken : Taken pq ctx request s) :
    (∃ e ∈ (rehearsal pq ctx request s).explanations, e.source = s.source) ∧
    (∀ e ∈ (propagate pq ctx request).1.explanations, e.source = s.source →
      ∀ e' ∈ (rehearsal pq ctx request s).explanations, e'.source = s.source →
        e.hops = e'.hops ∧ e.suppressed = e'.suppressed) ∧
    ∀ before after, (admission policy request).accepted = before ++ s :: after →
      ∀ resource, contributionsOf (propagate pq ctx request).1 s resource =
        if kMaxContributionsPerNode ≤ contributors pq ctx request resource before then []
          else contributionsOf (rehearsal pq ctx request s) s resource := by
  obtain ⟨topo, policy', ledger, pins, ht, hp, hl, hready, hs, hthrough⟩ := taken_iff.mp htaken
  cases hpolicy.symm.trans hp
  have hcontext : ctx = .of topo policy ledger ctx.fences ctx.liveEpoch := by
    cases ctx
    cases ht
    cases hp
    cases hl
    rfl
  have hready' := ready_alone hready hs
  have hone := accepted_alone hs
  have hs' : s ∈ (admission policy (alone request s)).accepted := by simp [hone]
  have hrep := report_of_ready pq ledger ctx.fences hready
  have hrep' := report_of_ready pq ledger ctx.fences hready'
  refine ⟨?_, fun e he hsource e' he' hsource' => ?_, fun before after haccepted resource => ?_⟩
  · obtain ⟨-, -, -, hexplained⟩ := taken_iff.mpr
      ⟨topo, policy, ledger, pins, ht, hp, hl, hready', hs', hthrough⟩
    exact hexplained
  · rw [hcontext, hrep.explanations] at he
    rw [rehearsal, hcontext, hrep'.explanations] at he'
    rcases explanation_alone hs he hsource with ⟨hreplay, rfl⟩ | ⟨hlive, u, hrun, hexplains⟩ <;>
      rcases explanation_rehearsed hs he' hsource' with
        ⟨hreplay', rfl⟩ | ⟨hlive', u', hrun', hexplains'⟩
    · exact ⟨rfl, rfl⟩
    · have hknown := (List.mem_filter.mp hreplay).2
      rw [(List.mem_filter.mp hlive').2] at hknown
      cases hknown
    · have hknown := (List.mem_filter.mp hreplay').2
      rw [(List.mem_filter.mp hlive).2] at hknown
      cases hknown
    · obtain rfl : u = u' := congrArg Prod.snd (hrun.symm.trans hrun')
      exact ⟨hexplains.hops.trans hexplains'.hops.symm,
        hexplains.suppressed.trans hexplains'.suppressed.symm⟩
  · rw [hcontext]
    exact contributionsOf_batch hready haccepted resource

/-- Two sources observe one resource each. -/
theorem batch_reports_alone_pair :
    let ctx := EngineContext.of pairTopology probePolicy (.make 4 4 4) none probeEpoch
    let request := (callWith [probeFrom 1 7, probeFrom 2 8]).request
    contributionsOf (propagate .scan ctx request).1 (probeFrom 2 8) ⟨8⟩ =
      contributionsOf (rehearsal .scan ctx request (probeFrom 2 8)) (probeFrom 2 8) ⟨8⟩ := by
  intro ctx request
  have haccepted : (admission probePolicy request).accepted =
      [probeFrom 1 7] ++ probeFrom 2 8 :: [] := by decide +kernel
  have htaken : Taken .scan ctx request (probeFrom 2 8) :=
    ⟨probePolicy, rfl, by decide +kernel, by decide +kernel⟩
  have hlisted := (batch_reports_alone .scan ctx request _ probePolicy rfl htaken).2.2 _ _ haccepted
    ⟨8⟩
  rw [hlisted, if_neg]
  refine Nat.not_le_of_lt ((List.countP_le_length).trans_lt ?_)
  decide

/-- Seventeen sources observe one resource. -/
def crowdPolicy : PropagationPolicy := { probePolicy with maxSources := 17 }

def crowdRequest : PropagationRequest :=
  { probeRequest crowdPolicy pairTopology ⟨8⟩ 5 with
    signals := (List.range 17).map fun k => probeFrom (.ofNat (k + 1)) 8 }

/-- The resource lists the contributions of sixteen of them; the last one's is missing. -/
theorem crowd_hides_contribution :
    ¬∀ (pq : EntryQueue) (ctx : EngineContext) (request : PropagationRequest) (s : PressureSignal),
      Taken pq ctx request s →
        (∀ e ∈ (propagate pq ctx request).1.explanations, e.source = s.source →
          ∀ e' ∈ (rehearsal pq ctx request s).explanations, e'.source = s.source →
            e.hops = e'.hops ∧ e.suppressed = e'.suppressed) ∧
        ∀ resource, contributionsOf (propagate pq ctx request).1 s resource =
          contributionsOf (rehearsal pq ctx request s) s resource := by
  intro h
  let ctx := EngineContext.of pairTopology crowdPolicy (.make 32 32 32) none probeEpoch
  have htaken : Taken .scan ctx crowdRequest (probeFrom 17 8) :=
    ⟨crowdPolicy, rfl, by decide +kernel, by decide +kernel⟩
  have hsame := (h .scan ctx crowdRequest (probeFrom 17 8) htaken).2 ⟨8⟩
  have hbatch : contributionsOf (propagate .scan ctx crowdRequest).1 (probeFrom 17 8) ⟨8⟩ = [] := by
    decide +kernel
  have halone : contributionsOf (rehearsal .scan ctx crowdRequest (probeFrom 17 8))
      (probeFrom 17 8) ⟨8⟩ ≠ [] := by decide +kernel
  exact halone (hsame.symm.trans hbatch)

end PropagationEngine

end Backpressure
