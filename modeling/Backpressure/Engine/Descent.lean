import Backpressure.Engine.Accounts

/-!
# Settling from the highest potential down

The loop takes the highest queued potential first. As long as no edge raises what it carries, the
resources are settled from the highest potential down: what was settled before a turn was settled
with no less.
-/

namespace Backpressure

namespace TraversalContext

variable {ctx : TraversalContext} {e : QueueEntry} {edge : DependencyEdge} {carried : Carried}
  {settled : List Nat} {expansions fanout k i : Nat}

/-- The edge passes every gate but the one of the settled resources, and carries this on. -/
def Offers (ctx : TraversalContext) (e : QueueEntry) (edge : DependencyEdge) (carried : Carried) :
    Prop :=
  ∃ k ∈ ctx.topo.outEdgeIndicesAt e.node, ctx.topo.edgeAt k = some edge ∧
    (∃ expansions fanout toIndex, ctx.admits [] expansions fanout e k edge = .ok toIndex) ∧
    ctx.carries e edge = .ok carried ∧ ctx.damps edge carried.next = none

/-- No edge raises the potential of the entry. -/
def Tame (ctx : TraversalContext) (e : QueueEntry) : Prop :=
  ∀ edge carried, ctx.Offers e edge carried → carried.next.raw ≤ e.potential.raw

theorem admits_unsettled (h : ctx.admits settled expansions fanout e k edge = .ok i) :
    ctx.admits [] expansions fanout e k edge = .ok i := by
  revert h
  unfold admits
  refine guard_imp (guard_imp (guard_imp (guard_imp (guard_imp ?_))))
  cases ctx.topo.indexOf edge.dst with
  | none => exact id
  | some j =>
    dsimp only
    cases ctx.topo.resourceAt j with
    | none => exact id
    | some toRes =>
      refine guard_imp fun h => ?_
      rw [if_neg List.not_mem_nil]
      exact (guard_eq_ok.mp h).2

/-- The target of an edge refused as settled is settled. -/
theorem settled_of_admits {verdict : HopVerdict}
    (h : ctx.admits settled expansions fanout e k edge = .error (.nodeAlreadySettled, verdict)) :
    ∃ i ∈ settled, ctx.topo.indexOf edge.dst = some i := by
  unfold admits at h
  have h := of_guard_error (by simp) (of_guard_error (by simp) (of_guard_error (by simp)
    (of_guard_error (by simp) (of_guard_error (by simp) h))))
  cases hindex : ctx.topo.indexOf edge.dst with
  | none =>
    rw [hindex] at h
    cases h
  | some j =>
    rw [hindex] at h
    dsimp only at h
    cases hres : ctx.topo.resourceAt j with
    | none =>
      rw [hres] at h
      cases h
    | some toRes =>
      rw [hres] at h
      have hblock : toRes.blockReason ≠ .nodeAlreadySettled := by
        unfold Resource.blockReason
        split <;> decide
      have h := of_guard_error (fun heq => hblock (congrArg Prod.fst heq)) h
      by_cases hmem : j ∈ settled
      · exact ⟨j, hmem, rfl⟩
      · rw [if_neg hmem] at h
        have h := of_guard_error (by simp) (of_guard_error (by simp) (of_guard_error (by simp) h))
        cases h

theorem settled_of_fateOf {res : Resource} {edge' : DependencyEdge} {counted : Bool}
    (h : ctx.fateOf settled expansions fanout e res k edge' =
      .refused edge .nodeAlreadySettled counted) :
    ∃ i ∈ settled, ctx.topo.indexOf edge.dst = some i := by
  unfold fateOf at h
  split at h
  case h_1 hadm =>
    cases h
    exact settled_of_admits hadm
  · split at h
    case h_1 hcar =>
      cases h
      unfold carries at hcar
      dsimp only at hcar
      split at hcar
      · split at hcar
        · cases hcar
        · split at hcar
          · cases hcar
          · split at hcar <;> cases hcar
      · cases hcar
    · split at h
      case h_1 hdamp =>
        cases h
        unfold damps at hdamp
        split at hdamp
        · cases hdamp
        · split at hdamp <;> cases hdamp
      · cases h

end TraversalContext

namespace Traversal

variable {pq : EntryQueue} {ctx : TraversalContext} {t t' v v' : Traversal pq} {e : QueueEntry}
  {x : Visit} {i p p' : Nat}

theorem Visit.Lawful.offers (h : x.Lawful ctx) {c : CrossedEdge} (hc : c ∈ x.crossed) :
    ctx.Offers x.entry c.edge c.carried := by
  obtain ⟨settled, -, hpassed⟩ := h.passed c hc
  obtain ⟨expansions, fanout, hadm⟩ := hpassed.admitted
  exact ⟨c.edgeIndex, h.indices.subset (List.mem_map_of_mem hc), hpassed.edgeAt,
    ⟨expansions, fanout, c.toIndex, TraversalContext.admits_unsettled hadm⟩, hpassed.carries,
    hpassed.undamped⟩

/-- A turn that settles, with what was settled and expanded before it. -/
structure Moment where
  entry : QueueEntry
  settled : List Nat
  expansions : Nat

def moment (ctx : TraversalContext) (t : Traversal pq) : Option Moment :=
  (settling ctx t).map fun e => ⟨e, t.settled, t.expansions⟩

/-- Some turn has settled the resource with no less than a potential. -/
def SettledWith (ms : List Moment) (i p : Nat) : Prop :=
  ∃ m ∈ ms, m.entry.node = i ∧ p ≤ m.entry.potential.raw

theorem SettledWith.le {ms : List Moment} (h : SettledWith ms i p) (hle : p' ≤ p) :
    SettledWith ms i p' := by
  obtain ⟨m, hm, hnode, hp⟩ := h
  exact ⟨m, hm, hnode, hle.trans hp⟩

theorem SettledWith.append {ms ms' : List Moment} (h : SettledWith ms i p) :
    SettledWith (ms ++ ms') i p := by
  obtain ⟨m, hm, hnode, hp⟩ := h
  exact ⟨m, List.mem_append_left ms' hm, hnode, hp⟩

/-- If no edge raised a potential, what was settled before a turn was settled with no less. -/
def Descends (ctx : TraversalContext) (ms : List Moment) : Prop :=
  (∀ m ∈ ms, ctx.Tame m.entry) →
    ∀ m ∈ ms, ∀ i ∈ m.settled, SettledWith ms i m.entry.potential.raw

/-- And nothing that is queued has more. -/
structure Descending (ctx : TraversalContext) (ms : List Moment) (t : Traversal pq) : Prop where
  descends : Descends ctx ms
  queue : (∀ m ∈ ms, ctx.Tame m.entry) →
    ∀ i ∈ t.settled, ∀ e ∈ pq.contents t.queue, SettledWith ms i e.potential.raw

theorem Descending.visit {ms : List Moment} {queue : pq.Carrier} (h : Descending ctx ms v)
    (hmade : Visit.Made ctx x v queue v') :
    Descending ctx (ms ++ [⟨x.entry, v.settled, v.expansions⟩]) v' := by
  have hpopped : x.entry ∈ pq.contents v.queue :=
    (Lib.PriorityQueue.mem_pop hmade.popped).mpr (.inl rfl)
  have hbefore : (∀ m ∈ ms ++ [⟨x.entry, v.settled, v.expansions⟩], ctx.Tame m.entry) →
      ∀ m ∈ ms, ctx.Tame m.entry := fun htame m hm => htame m (List.mem_append_left _ hm)
  refine ⟨fun htame m hm i hi => ?_, fun htame i hi e he => ?_⟩
  · rcases List.mem_append.mp hm with hm | hm
    · exact (h.descends (hbefore htame) m hm i hi).append
    · obtain rfl := List.mem_singleton.mp hm
      exact (h.queue (hbefore htame) i hi x.entry hpopped).append
  · -- what is queued now has no more than the entry that was popped
    have hle : e.potential.raw ≤ x.entry.potential.raw := by
      rcases List.mem_append.mp (hmade.queue.subset he) with harrival | hrest
      · obtain ⟨c, hc, rfl⟩ := List.mem_map.mp harrival
        exact htame _ (List.mem_append_right ms List.mem_cons_self) c.edge c.carried
          (hmade.lawful.offers hc)
      · exact potential_le_top hmade.popped hrest
    rw [hmade.settled] at hi
    rcases List.mem_cons.mp hi with rfl | hi
    · exact ⟨_, List.mem_append_right ms List.mem_cons_self, rfl, hle⟩
    · exact ((h.queue (hbefore htame) i hi x.entry hpopped).le hle).append

theorem Descending.skip {ms : List Moment} {queue : pq.Carrier} (h : Descending ctx ms v)
    (hpop : pq.pop v.queue = some (e, queue)) : Descending ctx ms { v with queue } where
  descends := h.descends
  queue htame i hi e' he' := h.queue htame i hi e' ((Lib.PriorityQueue.mem_pop hpop).mpr (.inr he'))

theorem descending_turn {ms : List Moment} (h : Descending ctx ms v) :
    (moment ctx v = none → ∀ v', turn ctx v = .again v' → Descending ctx ms v') ∧
      (∀ m, moment ctx v = some m → Descending ctx (ms ++ [m]) (turn ctx v).state) := by
  unfold moment
  refine ⟨fun hnone v' hturn => ?_, fun m hm => ?_⟩
  · have hidle := turn_idles (Option.map_eq_none_iff.mp hnone)
    rw [hturn] at hidle
    cases hidle with
    | skip hpop => exact h.skip hpop
  · obtain ⟨e, hsettling, rfl⟩ := Option.map_eq_some_iff.mp hm
    obtain ⟨res, crossed, queue, hmade⟩ := turn_visits hsettling
    exact h.visit hmade

theorem descends_log (hsettled : t.settled = []) (hsize : pq.size t.queue ≤ 1) :
    Descends ctx (Lib.Turns.log (moment ctx) (turn ctx) (fuel ctx) t) := by
  have hstart : Descending ctx [] t := by
    refine ⟨fun _ m hm => ?_, fun _ i hi => ?_⟩
    · cases hm
    · rw [hsettled] at hi
      cases hi
  have hlog := Lib.Turns.log_invariant (moment ctx) (turn ctx) (m := measure ctx)
    (P := fun ms v => Descending ctx ms v) (Q := fun ms _ => Descends ctx ms)
    (fun _ _ => measure_turn) (fun ms v v' hv hturn => ?_) (fun ms v v' hv _ => ?_) (fuel ctx)
    (s := t) (by unfold measure fuel; omega) (l := []) hstart
  · rwa [List.nil_append] at hlog
  · cases hm : moment ctx v with
    | none =>
      rw [Option.toList_none, List.append_nil]
      exact (descending_turn hv).1 hm v' hturn
    | some m =>
      have hnext := (descending_turn hv).2 m hm
      rwa [hturn] at hnext
  · cases hm : moment ctx v with
    | none =>
      rw [Option.toList_none, List.append_nil]
      exact hv.descends
    | some m => exact ((descending_turn hv).2 m hm).descends

end Traversal

namespace PropagationEngine

open Traversal

/-- No budget binds in the traversal: neither the records nor the visits, the expansions or the
fan-out. -/
def Unstopped (ctx : TraversalContext) (t : Traversal pq) : Prop :=
  (t.run ctx).2.truncated = false ∧ (settlements ctx t).length < ctx.policy.maxVisited.toNat ∧
    ∀ x ∈ handled ctx t, ∀ reason ∈ refusals x.fates,
      reason ≠ .expansionBudgetExhausted ∧ reason ≠ .maxFanout

end PropagationEngine

end Backpressure
