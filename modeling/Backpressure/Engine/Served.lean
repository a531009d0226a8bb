import Backpressure.Engine.Descent

/-!
# What a complete traversal answers

A traversal that no budget stops empties its queue. Every arrival that it has queued is settled, or
comes to a resource that was settled with no less; and every edge of a settled resource is crossed,
or refused by a gate that has nothing to do with the budgets.
-/

namespace Backpressure

open Lib.Turns (Turn)

namespace Traversal

variable {pq : EntryQueue} {ctx : TraversalContext} {t v u : Traversal pq} {e : QueueEntry}
  {entry : QueueEntry} {res : Resource} {edge : DependencyEdge} {fanout i n p : Nat}

/-! ## The turns of a traversal -/

/-- The states in which the turns of a traversal begin. -/
def begun (ctx : TraversalContext) (t : Traversal pq) : List (Traversal pq) :=
  match t.enter ctx with
  | .error _ => []
  | .ok seeded => Lib.Turns.log some (turn ctx) (fuel ctx) seeded

theorem mem_settlements : e ∈ settlements ctx t ↔ ∃ v ∈ begun ctx t, settling ctx v = some e := by
  unfold settlements begun
  cases t.enter ctx with
  | error done => simp
  | ok seeded => exact Lib.Turns.mem_log

theorem mem_visits {x : Visit} : x ∈ visits ctx t ↔ ∃ v ∈ begun ctx t, visiting ctx v = some x := by
  unfold visits begun
  cases t.enter ctx with
  | error done => simp
  | ok seeded => exact Lib.Turns.mem_log

theorem mem_handled {y : Handled} (hv : v ∈ begun ctx t) (h : handling ctx v = some y) :
    y ∈ handled ctx t := by
  unfold begun at hv
  unfold handled
  cases henter : t.enter ctx with
  | error done =>
    rw [henter] at hv
    cases hv
  | ok seeded =>
    rw [henter] at hv
    exact Lib.Turns.mem_log.mpr ⟨v, hv, h⟩

/-- No turn of an untruncated traversal is truncated. -/
theorem kept_of_begun (hkept : (t.run ctx).2.truncated = false) (hv : v ∈ begun ctx t) :
    (turn ctx v).state.truncated = false := by
  unfold begun at hv
  cases henter : t.enter ctx with
  | error done =>
    rw [henter] at hv
    cases hv
  | ok seeded =>
    rw [henter] at hv
    rw [(run_of_enter henter).1] at hkept
    by_contra htrunc
    have hrun := Lib.Turns.run_of_mem_log (P := fun u : Traversal pq => u.truncated = true)
      (fun u hu => truncated_steps (turn_steps ctx u) hu) hv (Bool.eq_true_of_not_eq_false htrunc)
    have hflushed : Tidy ctx.topo (Lib.Turns.run (turn ctx) (fuel ctx) seeded) (seeded.loop ctx) :=
      tidy_flushOrTruncate
    rw [hflushed.truncated hrun] at hkept
    cases hkept

/-! ## The decisions carried out -/

/-- The traversal does with one edge what the gates decide. -/
inductive Decides (ctx : TraversalContext) (entry : QueueEntry) (res : Resource) (i : Nat)
    (t : Traversal pq) : Fate → EdgeStep pq → Prop
  | refused {edge : DependencyEdge} {reason : SuppressionReason} {counted stop : Bool}
      {u : Traversal pq} : u.settled = t.settled → u.expansions = t.expansions →
      (stop = true → reason = .expansionBudgetExhausted) →
      Decides ctx entry res i t (.refused edge reason counted) (.refused u stop)
  | crossed {c : CrossedEdge} {u : Traversal pq} : crossingOf ctx entry i = some c →
      u.settled = t.settled → u.expansions = t.expansions + 1 →
      Decides ctx entry res i t (.crossed c.edge (c.hop entry res)) (.crossed u)
  | exhausted {fate : Fate} {u : Traversal pq} : u.truncated = true →
      Decides ctx entry res i t fate (.exhausted u)

theorem expandEdge_decides (hedge : ctx.topo.edgeAt i = some edge) :
    Decides ctx entry res i t (ctx.fateOf t.settled t.expansions fanout entry res i edge)
      (expandEdge ctx entry res fanout t i) := by
  unfold TraversalContext.fateOf
  cases hadm : ctx.admits t.settled t.expansions fanout entry i edge with
  | error refusal =>
    obtain ⟨reason, verdict⟩ := refusal
    rw [expandEdge_inadmissible hedge hadm]
    exact .refused rfl rfl fun hstop => eq_of_beq hstop
  | ok toIndex =>
    dsimp only
    cases hcar : ctx.carries entry edge with
    | error refusal =>
      rw [expandEdge_uncarried hedge hadm hcar]
      exact .refused rfl rfl nofun
    | ok carried =>
      obtain ⟨-, -, -, hsettled, hexpansions⟩ := noteEdge_keeps edge t
      dsimp only
      cases hdamp : ctx.damps edge carried.next with
      | some reason =>
        rw [expandEdge_damped hedge hadm hcar hdamp]
        exact .refused hsettled hexpansions nofun
      | none =>
        cases hpush : (noteEdge edge t).pushHop (acceptedHop entry res edge carried) with
        | none =>
          rw [expandEdge_exhausted hedge hadm hcar hdamp hpush]
          exact .exhausted rfl
        | some u =>
          rw [expandEdge_crossed hedge hadm hcar hdamp hpush]
          have hbooked := @booked_cross pq (noteEdge edge t) u entry res i toIndex carried _ hpush
          have hpassed : CrossedEdge.Passed ctx t.settled entry ⟨i, edge, toIndex, carried⟩ :=
            ⟨hedge, ⟨_, _, hadm⟩, hcar, hdamp⟩
          exact .crossed hpassed.crossingOf (hbooked.settled.trans hsettled)
            (by rw [hbooked.expansions, hexpansions])

/-- An untruncated expansion crosses the edges that the gates let through, and stops the loop only
for the expansion budget. -/
theorem expandEdges_decided {l : List Nat} {stop : Bool}
    (hkept : (expandEdges ctx entry res l fanout stop t).state.truncated = false) :
    acceptedHops (ctx.fates t.settled entry res l t.expansions fanout) =
        (crossedOf ctx entry res l fanout t).map (CrossedEdge.hop entry res) ∧
      ∀ u, expandEdges ctx entry res l fanout stop t = .stop u → stop = true ∨
        .expansionBudgetExhausted ∈ refusals (ctx.fates t.settled entry res l t.expansions fanout) := by
  induction l generalizing fanout stop t with
  | nil =>
    refine ⟨rfl, fun u hstop => ?_⟩
    rw [expandEdges] at hstop
    split at hstop
    case isTrue htrue => exact .inl htrue
    case isFalse => cases hstop
  | cons i rest ih =>
    rw [expandEdges] at hkept ⊢
    rw [TraversalContext.fates, crossedOf]
    cases hedge : ctx.topo.edgeAt i with
    | none =>
      have hskip : expandEdge ctx entry res fanout t i = .refused t.countConsidered false := by
        unfold expandEdge
        rw [hedge]
      rw [hskip] at hkept ⊢
      dsimp only at hkept ⊢
      rw [Bool.or_false] at hkept ⊢
      exact ih hkept
    | some edge =>
      have hcase := @expandEdge_decides pq ctx t entry res edge fanout i hedge
      dsimp only
      revert hcase hkept
      generalize ctx.fateOf t.settled t.expansions fanout entry res i edge = fate
      generalize expandEdge ctx entry res fanout t i = step
      intro hkept hcase
      cases hcase with
      | exhausted htrunc => exact absurd (htrunc.symm.trans hkept) (by decide)
      | refused hsettled hexpansions hstops =>
        obtain ⟨hhops, hstop⟩ := ih hkept
        rw [hsettled, hexpansions] at hhops hstop
        refine ⟨hhops, fun u hu => ?_⟩
        rw [refusals_refused, List.mem_cons]
        rcases hstop u hu with hor | hmem
        · rcases Bool.or_eq_true_iff.mp hor with htrue | htrue
          · exact .inl htrue
          · exact .inr (.inl (hstops htrue).symm)
        · exact .inr (.inr hmem)
      | crossed hcrossing hsettled hexpansions =>
        obtain ⟨hhops, hstop⟩ := ih hkept
        rw [hsettled, hexpansions] at hhops hstop
        rw [hcrossing]
        exact ⟨congrArg (_ :: ·) hhops, hstop⟩

theorem acceptedHops_closedFates {node : Nat} {reason : SuppressionReason} :
    acceptedHops (ctx.closedFates node reason) = [] := by
  unfold TraversalContext.closedFates acceptedHops
  rw [List.filterMap_map]
  exact List.filterMap_eq_nil_iff.mpr fun _ _ => rfl

theorem expand_decided (hkept : (u.expand ctx entry res).state.truncated = false) :
    acceptedHops (ctx.handledAt u.settled u.expansions entry res).fates =
        (u.crossedFrom ctx entry res).map (CrossedEdge.hop entry res) ∧
      ∀ w, u.expand ctx entry res = .stop w → .expansionBudgetExhausted ∈
        refusals (ctx.handledAt u.settled u.expansions entry res).fates := by
  unfold expand at hkept ⊢
  unfold TraversalContext.handledAt crossedFrom
  by_cases hdepth : ctx.authorityHops ≤ entry.depth
  · rw [if_pos hdepth, if_pos hdepth, if_pos hdepth]
    exact ⟨acceptedHops_closedFates, fun w hw => absurd hw Turn.again_ne_stop⟩
  · rw [if_neg hdepth] at hkept ⊢
    rw [if_neg hdepth, if_neg hdepth]
    by_cases hforward : (!res.canForward) = true
    · rw [if_pos hforward, if_pos hforward, if_pos hforward]
      exact ⟨acceptedHops_closedFates, fun w hw => absurd hw Turn.again_ne_stop⟩
    · rw [if_neg hforward] at hkept ⊢
      rw [if_neg hforward, if_neg hforward]
      cases hfence : ctx.egressFence res.id with
      | some fence =>
        rw [if_pos (by rfl)]
        exact ⟨acceptedHops_closedFates, fun w hw => absurd hw Turn.again_ne_stop⟩
      | none =>
        rw [hfence] at hkept
        rw [if_neg (by exact Bool.false_ne_true)]
        obtain ⟨hhops, hstop⟩ := expandEdges_decided hkept
        exact ⟨hhops, fun w hw => (hstop w hw).resolve_left Bool.false_ne_true⟩

/-- An untruncated turn that settles a resource visits it as the gates decide. -/
structure Visits (ctx : TraversalContext) (v : Traversal pq) (x : Visit) : Prop where
  visiting : visiting ctx v = some x
  handling : handling ctx v =
    some (ctx.handledAt (x.entry.node :: v.settled) v.expansions x.entry x.res)
  hops : acceptedHops (ctx.handledAt (x.entry.node :: v.settled) v.expansions x.entry x.res).fates =
    x.hops
  stops : ∀ w, turn ctx v = .stop w → .expansionBudgetExhausted ∈
    refusals (ctx.handledAt (x.entry.node :: v.settled) v.expansions x.entry x.res).fates

theorem visits_turn (h : settling ctx v = some e) (hkept : (turn ctx v).state.truncated = false) :
    ∃ x, x.entry = e ∧ Visits ctx v x := by
  obtain ⟨queue, res, hpop, hres, -, -, -, hturn⟩ := turn_of_settling h
  have htidy : Tidy ctx.topo (v.settle ctx e queue res) (v.opened ctx e queue res) := tidy_settle
  have hsettled : (v.opened ctx e queue res).settled = e.node :: v.settled := htidy.settled
  have hexpansions : (v.opened ctx e queue res).expansions = v.expansions := htidy.expansions
  rw [hturn] at hkept
  obtain ⟨hhops, hstop⟩ := expand_decided hkept
  rw [hsettled, hexpansions] at hhops hstop
  refine ⟨⟨e, res, (v.opened ctx e queue res).crossedFrom ctx e res⟩, rfl, ?_, ?_, hhops, ?_⟩
  · unfold visiting
    rw [h, Option.bind_some, hpop, Option.bind_some, hres]
    rfl
  · unfold handling
    rw [h, Option.bind_some, hres]
    rfl
  · rw [hturn]
    exact hstop

/-! ## Every arrival is answered -/

/-- Some visit has settled the resource with no less than a potential. -/
def Attained (xs : List Visit) (n p : Nat) : Prop :=
  ∃ x ∈ xs, x.entry.node = n ∧ p ≤ x.entry.potential.raw

theorem Attained.append {xs ys : List Visit} (h : Attained xs n p) : Attained (xs ++ ys) n p := by
  obtain ⟨x, hx, hnode, hp⟩ := h
  exact ⟨x, List.mem_append_left ys hx, hnode, hp⟩

/-- What has been queued is queued still, or has been answered. -/
structure Serving (ctx : TraversalContext) (i : Nat) (xs : List Visit) (t : Traversal pq) : Prop where
  visited : t.visited = xs.length
  located : ∀ e ∈ pq.contents t.queue, e.node < ctx.topo.resources.length
  highest : ∀ e ∈ pq.contents t.queue, e.node ∈ t.settled → Attained xs e.node e.potential.raw
  awaited : ∀ e, Comes ctx i xs e → e ∈ pq.contents t.queue ∨ Attained xs e.node e.potential.raw

theorem Serving.visit {xs : List Visit} {x : Visit} {queue : pq.Carrier} {t' : Traversal pq}
    (h : Serving ctx i xs t) (hmade : Visit.Made ctx x t queue t') : Serving ctx i (xs ++ [x]) t' := by
  have hself : ∀ p ≤ x.entry.potential.raw, Attained (xs ++ [x]) x.entry.node p := fun p hp =>
    ⟨x, List.mem_append_right xs List.mem_cons_self, rfl, hp⟩
  have hrest : ∀ e ∈ pq.contents queue, e ∈ pq.contents t.queue := fun e he =>
    (Lib.PriorityQueue.mem_pop hmade.popped).mpr (.inr he)
  have hnew : ∀ e ∈ x.arrivals, e.node < ctx.topo.resources.length ∧
      e.node ∉ x.entry.node :: t.settled := by
    intro e he
    obtain ⟨c, hc, rfl⟩ := List.mem_map.mp he
    obtain ⟨expansions, fanout, hadm⟩ := (hmade.passed c hc).admitted
    obtain ⟨toRes, hadmitted⟩ := of_admits hadm
    exact ⟨(List.getElem?_eq_some_iff.mp hadmitted.resourceAt).1, hadmitted.unsettled⟩
  refine ⟨?_, fun e he => ?_, fun e he hset => ?_, fun e he => ?_⟩
  · rw [hmade.visited, h.visited, List.length_append, List.length_singleton]
  · rcases List.mem_append.mp (hmade.queue.mem_iff.mp he) with he | he
    · exact (hnew e he).1
    · exact h.located e (hrest e he)
  · rw [hmade.settled] at hset
    rcases List.mem_append.mp (hmade.queue.mem_iff.mp he) with he | he
    · exact absurd hset (hnew e he).2
    · rcases List.mem_cons.mp hset with hnode | hset
      · rw [hnode]
        exact hself _ (potential_le_top hmade.popped he)
      · exact (h.highest e (hrest e he) hset).append
  · have hcomes : Comes ctx i xs e ∨ e ∈ x.arrivals := by
      rcases he with rfl | ⟨y, hy, c, hc, rfl⟩
      · exact .inl (.inl rfl)
      · rcases List.mem_append.mp hy with hy | hy
        · exact .inl (.inr ⟨y, hy, c, hc, rfl⟩)
        · obtain rfl := List.mem_singleton.mp hy
          exact .inr (List.mem_map_of_mem hc)
    rcases hcomes with hcomes | harrival
    · rcases h.awaited e hcomes with hqueued | hattained
      · rcases (Lib.PriorityQueue.mem_pop hmade.popped).mp hqueued with rfl | hqueued
        · exact .inr (hself _ (Nat.le_refl _))
        · exact .inl (hmade.queue.mem_iff.mpr (List.mem_append_right _ hqueued))
      · exact .inr hattained.append
    · exact .inl (hmade.queue.mem_iff.mpr (List.mem_append_left _ harrival))

theorem Serving.skip {xs : List Visit} {t' : Traversal pq} (h : Serving ctx i xs t)
    (hidle : IdleCase ctx t (.again t')) : Serving ctx i xs t' := by
  cases hidle with
  | @skip popped queue hpop hskipped =>
    have hrest : ∀ e ∈ pq.contents queue, e ∈ pq.contents t.queue := fun e he =>
      (Lib.PriorityQueue.mem_pop hpop).mpr (.inr he)
    have htop : popped ∈ pq.contents t.queue := (Lib.PriorityQueue.mem_pop hpop).mpr (.inl rfl)
    refine ⟨h.visited, fun e he => h.located e (hrest e he), fun e he => h.highest e (hrest e he),
      fun e he => ?_⟩
    rcases h.awaited e he with hqueued | hattained
    · rcases (Lib.PriorityQueue.mem_pop hpop).mp hqueued with rfl | hqueued
      · rcases hskipped with hbeyond | hset
        · exact absurd (h.located e htop) (Nat.not_lt_of_le hbeyond)
        · exact .inr (h.highest e htop hset)
      · exact .inl hqueued
    · exact .inr hattained

/-- The loop starts with the origin queued. -/
theorem Serving.start {origin : Resource} (fresh : t.Fresh) (horigin : Origin ctx i origin)
    (htidy : Tidy ctx.topo { t with queue := pq.push t.queue (originEntry ctx i) } u) :
    Serving ctx i [] u := by
  obtain ⟨hqueue, -⟩ := seeded_queue fresh htidy
  refine ⟨htidy.visited.trans fresh.visited, fun e he => ?_, fun e he hset => ?_, fun e he => .inl ?_⟩
  · rw [(hqueue e).mp he]
    exact (List.getElem?_eq_some_iff.mp horigin.resourceAt).1
  · rw [htidy.settled] at hset
    change e.node ∈ t.settled at hset
    rw [fresh.settled] at hset
    cases hset
  · rcases he with rfl | ⟨x, hx, -⟩
    · exact (hqueue _).mpr rfl
    · cases hx

theorem Serving.turn {xs : List Visit} (h : Serving ctx i xs v) (hturn : turn ctx v = .again u) :
    Serving ctx i (xs ++ (visiting ctx v).toList) u :=
  keeps_turn (fun _ _ _ _ _ h hmade => h.visit hmade) (fun _ _ _ h hidle => h.skip hidle) h hturn

/-- A loop that has not stopped on a budget has answered everything. -/
theorem Serving.stop {xs : List Visit} {t' : Traversal pq} (h : Serving ctx i xs t)
    (hidle : IdleCase ctx t (.stop t')) (hkept : t'.truncated = false) :
    ctx.policy.maxVisited.toNat ≤ xs.length ∨
      ∀ e, Comes ctx i xs e → Attained xs e.node e.potential.raw := by
  cases hidle with
  | empty hpop =>
    refine .inr fun e he => (h.awaited e he).resolve_left fun hqueued => ?_
    rw [Lib.PriorityQueue.pop_eq_none_iff.mp hpop] at hqueued
    cases hqueued
  | visited _ hvis => exact .inl (h.visited ▸ hvis)
  | abandon _ _ _ _ _ htrunc => exact absurd (htrunc.symm.trans hkept) (by decide)

/-- The traversal settles the resource, with no less than a potential. -/
def Attains (ctx : TraversalContext) (t : Traversal pq) (n p : Nat) : Prop :=
  ∃ e ∈ settlements ctx t, e.node = n ∧ p ≤ e.potential.raw

/-- A traversal that no budget stops answers its origin and all its arrivals. -/
theorem served_run (fresh : t.Fresh) (hstopped : PropagationEngine.Unstopped ctx t) {s : Traversal pq}
    (henter : t.enter ctx = .ok s) : ∃ i origin, Origin ctx i origin ∧
      ∀ e, Comes ctx i (visits ctx t) e → Attains ctx t e.node e.potential.raw := by
  obtain ⟨hkept, hvisited, hrefusals⟩ := hstopped
  have hcases := enter_cases ctx fresh
  rw [henter] at hcases
  cases hcases with
  | @seeded i origin _ horigin _ _ htidy =>
    obtain ⟨-, hsize⟩ := seeded_queue fresh htidy
    have hvisits : visits ctx t = Lib.Turns.log (visiting ctx) (turn ctx) (fuel ctx) s := by
      unfold visits
      rw [henter]
    have hstart : Serving ctx i [] s := .start fresh horigin htidy
    have hturns : ∀ v ∈ Lib.Turns.log some (turn ctx) (fuel ctx) s,
        (turn ctx v).state.truncated = false ∧
          ∀ y, handling ctx v = some y → .expansionBudgetExhausted ∉ refusals y.fates := by
      intro v hv
      have hbegun : v ∈ begun ctx t := by
        unfold begun
        rw [henter]
        exact hv
      refine ⟨kept_of_begun hkept hbegun, fun y hy hmem => ?_⟩
      exact (hrefusals y (mem_handled hbegun hy) _ hmem).1 rfl
    have hserved := Lib.Turns.log_invariant_of (visiting ctx) (turn ctx) (m := measure ctx)
      (P := Serving ctx i)
      (Q := fun xs _ => ctx.policy.maxVisited.toNat ≤ xs.length ∨
        ∀ e, Comes ctx i xs e → Attained xs e.node e.potential.raw)
      (fun _ _ => measure_turn) ?_ ?_ (fuel ctx) (by unfold measure fuel; omega) hturns hstart
    · rw [← hvisits] at hserved
      refine ⟨i, origin, horigin, fun e he => ?_⟩
      have hlength : (visits ctx t).length = (settlements ctx t).length := by
        rw [← entries_visits, List.length_map]
      rcases hserved with hfull | hserved
      · omega
      · obtain ⟨x, hx, hnode, hp⟩ := hserved e he
        exact ⟨x.entry, entries_visits ▸ List.mem_map_of_mem hx, hnode, hp⟩
    · exact fun xs v v' _ h hturn => h.turn hturn
    · rintro xs v v' ⟨hkept', hbudget⟩ h hturn
      rw [hturn] at hkept'
      cases hs : settling ctx v with
      | none =>
        have hidle := turn_idles hs
        rw [hturn] at hidle
        rw [visiting_of_idle hs, Option.toList_none, List.append_nil]
        exact h.stop hidle hkept'
      | some entry =>
        -- a turn that settles stops the loop only for the expansion budget
        obtain ⟨x, rfl, hturned⟩ := visits_turn hs (by rw [hturn]; exact hkept')
        exact absurd (hturned.stops v' hturn) (hbudget _ hturned.handling)

/-! ## Every edge is answered -/

/-- The turn that settles the entry goes through the edges of its resource. What was settled before
has no less than the entry, and what is crossed is settled with no less than it carries. -/
structure Answers (ctx : TraversalContext) (t : Traversal pq) (e : QueueEntry) (res : Resource)
    (settled : List Nat) (expansions : Nat) : Prop where
  resourceAt : ctx.topo.resourceAt e.node = some res
  handled : ctx.handledAt (e.node :: settled) expansions e res ∈ handled ctx t
  earlier : ∀ n ∈ e.node :: settled, Attains ctx t n e.potential.raw
  crossed : ∀ hop ∈ acceptedHops (ctx.handledAt (e.node :: settled) expansions e res).fates,
    ∃ j, ctx.topo.indexOf hop.dst = some j ∧ Attains ctx t j hop.potentialAfter.raw

theorem answers (fresh : t.Fresh) (hstopped : PropagationEngine.Unstopped ctx t)
    (htame : ∀ e ∈ settlements ctx t, ctx.Tame e) (he : e ∈ settlements ctx t) :
    ∃ res settled expansions, Answers ctx t e res settled expansions := by
  obtain ⟨v, hv, hsettling⟩ := mem_settlements.mp he
  obtain ⟨x, rfl, hvisits⟩ := visits_turn hsettling (kept_of_begun hstopped.1 hv)
  have hx : x ∈ visits ctx t := mem_visits.mpr ⟨v, hv, hvisits.visiting⟩
  have hmoment : moment ctx v = some ⟨x.entry, v.settled, v.expansions⟩ := by
    unfold moment
    rw [hsettling]
    rfl
  cases henter : t.enter ctx with
  | error done =>
    rw [settlements_of_error henter] at he
    cases he
  | ok s =>
    have hcases := enter_cases ctx fresh
    obtain ⟨i, origin, -, hserved⟩ := served_run fresh hstopped henter
    obtain ⟨hempty, hsize⟩ : s.settled = [] ∧ pq.size s.queue ≤ 1 := by
      rw [henter] at hcases
      cases hcases with
      | seeded _ _ _ htidy => exact ⟨htidy.settled.trans fresh.settled, (seeded_queue fresh htidy).2⟩
    have hentries : settlements ctx t =
        (Lib.Turns.log (moment ctx) (turn ctx) (fuel ctx) s).map Moment.entry := by
      rw [(run_of_enter henter).2, Lib.Turns.map_log]
      refine congrArg (Lib.Turns.log · (turn ctx) (fuel ctx) s) (funext fun v => ?_)
      unfold moment
      cases settling ctx v <;> rfl
    have hv' : v ∈ Lib.Turns.log some (turn ctx) (fuel ctx) s := by
      unfold begun at hv
      rwa [henter] at hv
    have hres : ctx.topo.resourceAt x.entry.node = some x.res := by
      obtain ⟨y, queue, hy, -, hmade⟩ := visiting_of_settling hsettling
      obtain rfl : y = x := Option.some.inj (hy.symm.trans hvisits.visiting)
      exact hmade.resourceAt
    refine ⟨x.res, v.settled, v.expansions, hres, mem_handled hv hvisits.handling, fun n hn => ?_,
      fun hop hhop => ?_⟩
    · rcases List.mem_cons.mp hn with rfl | hn
      · exact ⟨x.entry, he, rfl, Nat.le_refl _⟩
      · have htames : ∀ m ∈ Lib.Turns.log (moment ctx) (turn ctx) (fuel ctx) s, ctx.Tame m.entry :=
          fun m hm => htame m.entry (hentries ▸ List.mem_map_of_mem hm)
        obtain ⟨m, hm, hnode, hp⟩ := descends_log hempty hsize htames _
          (Lib.Turns.mem_log.mpr ⟨v, hv', hmoment⟩) n hn
        exact ⟨m.entry, hentries ▸ List.mem_map_of_mem hm, hnode, hp⟩
    · rw [hvisits.hops] at hhop
      obtain ⟨c, hc, rfl⟩ := List.mem_map.mp hhop
      obtain ⟨y, queue, hy, -, hmade⟩ := visiting_of_settling hsettling
      obtain rfl : y = x := Option.some.inj (hy.symm.trans hvisits.visiting)
      obtain ⟨expansions, fanout, hadm⟩ := (hmade.passed c hc).admitted
      exact ⟨c.toIndex, indexOf_of_admits hadm, hserved _ (.inr ⟨y, hx, c, hc, rfl⟩)⟩

theorem mem_fates {l : List Nat} (settled : List Nat) (entry : QueueEntry) (res : Resource)
    (expansions fanout : Nat) (hi : i ∈ l) (hedge : ctx.topo.edgeAt i = some edge) :
    ∃ expansions' fanout',
      ctx.fateOf settled expansions' fanout' entry res i edge ∈
        ctx.fates settled entry res l expansions fanout := by
  induction l generalizing expansions fanout with
  | nil => cases hi
  | cons j rest ih =>
    rw [TraversalContext.fates]
    rcases List.mem_cons.mp hi with rfl | hi
    · rw [hedge]
      dsimp only
      refine ⟨expansions, fanout, ?_⟩
      cases ctx.fateOf settled expansions fanout entry res i edge with
      | refused => exact List.mem_cons_self
      | crossed => exact List.mem_cons_self
    · cases ctx.topo.edgeAt j with
      | none => exact ih expansions fanout hi
      | some other =>
        dsimp only
        cases ctx.fateOf settled expansions fanout entry res j other with
        | refused =>
          obtain ⟨expansions', fanout', hmem⟩ := ih expansions fanout hi
          exact ⟨expansions', fanout', List.mem_cons_of_mem _ hmem⟩
        | crossed =>
          obtain ⟨expansions', fanout', hmem⟩ := ih (expansions + 1) (fanout + 1) hi
          exact ⟨expansions', fanout', List.mem_cons_of_mem _ hmem⟩

end Traversal

end Backpressure
