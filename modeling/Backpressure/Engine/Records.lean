import Backpressure.Engine.Atomicity
import Backpressure.Engine.Visits
import Backpressure.Lib.Metered

/-!
# What a traversal needs to write

A traversal writes one record for each accepted hop and one for each reason of refusal at each
resource it settles. How many that is does not depend on the record budget: a budget that covers
them changes nothing, a smaller one ends in truncation.
-/

namespace Backpressure

open Lib (Meter)
open Lib.Meter (Writes)
open Lib.Turns (Turn)

namespace Traversal

variable {pq : EntryQueue} {ctx : TraversalContext} {s t t' u : Traversal pq} {k k' c c' : Nat}

def grant (t : Traversal pq) (budget : Nat) : Traversal pq := { t with recordBudget := budget }

def meter : Meter (Traversal pq) := ⟨grant, fun t => t.truncated = true⟩

/-- The meter of a flush, which reports whether the budget sufficed. -/
def flushMeter : Meter (Traversal pq × Bool) :=
  ⟨fun s budget => (s.1.grant budget, s.2), fun s => s.2 = false⟩

/-- The records in the explanation. -/
def records (t : Traversal pq) : Nat := t.expl.hops.length + t.expl.suppressed.length

/-- From `s` to `t`, `k` records are written, all but `c` of them for expansions. -/
structure Wrote (c : Nat) (s : Traversal pq) (k : Nat) (t : Traversal pq) : Prop where
  records : t.records = s.records + k
  truncated : t.truncated = s.truncated
  expansions : k + s.expansions ≤ t.expansions + c

theorem Wrote.refl (c : Nat) (t : Traversal pq) : Wrote c t 0 t := ⟨rfl, rfl, by omega⟩

theorem Wrote.trans (h : Wrote c s k t) (h' : Wrote c' t k' u) : Wrote (c + c') s (k + k') u := by
  have := h.records
  have := h'.records
  have := h.expansions
  have := h'.expansions
  exact ⟨by omega, h'.truncated.trans h.truncated, by omega⟩

theorem Wrote.mono (h : Wrote c s k t) (hc : c ≤ c') : Wrote c' s k t :=
  ⟨h.records, h.truncated, h.expansions.trans (by omega)⟩

/-- A step that writes nothing and does not look at the budget. -/
structure Neutral (f : Traversal pq → Traversal pq) : Prop where
  grant : ∀ t b, f (t.grant b) = (f t).grant b
  wrote : ∀ t, Wrote 0 t 0 (f t)

theorem Neutral.foldl {α : Type} {f : Traversal pq → α → Traversal pq}
    (h : ∀ a, Neutral (f · a)) (l : List α) : Neutral (l.foldl f) := by
  refine ⟨fun t b => ?_, fun t => ?_⟩
  · induction l generalizing t with
    | nil => rfl
    | cons a rest ih => rw [List.foldl_cons, (h a).grant, ih, List.foldl_cons]
  · induction l generalizing t with
    | nil => exact .refl 0 t
    | cons a rest ih => exact ((h a).wrote t).trans (ih (f t a))

theorem Neutral.comp {f g : Traversal pq → Traversal pq} (hg : Neutral g) (hf : Neutral f) :
    Neutral (g ∘ f) :=
  ⟨fun t b => by rw [Function.comp_apply, hf.grant, hg.grant, Function.comp_apply],
    fun t => (hf.wrote t).trans (hg.wrote (f t))⟩

theorem Neutral.writes {f : Traversal pq → Traversal pq} (h : Neutral f) (t : Traversal pq) :
    Writes meter meter f t 0 (f t) := .neutral fun b => h.grant t b

/-! ## Flushes -/

/-- The pending refusals without those of one reason. -/
def cleared (t : Traversal pq) (slot : SuppressionReason) : Traversal pq :=
  { t with pending := Function.update t.pending slot { t.pending slot with count := 0 } }

/-- The record of the pending refusals of one reason. -/
def pendingRecord (t : Traversal pq) (slot : SuppressionReason) : SuppressedEdgeRecord :=
  { src := (t.pending slot).src, dst := (t.pending slot).dst, edge := (t.pending slot).edge
    depth := (t.pending slot).depth, count := (t.pending slot).count, reason := slot }

def emit (t : Traversal pq) (r : SuppressedEdgeRecord) : Traversal pq :=
  { t with expl := { t.expl with suppressed := t.expl.suppressed ++ [r] } }

theorem flushSlot_writes (s : Traversal pq × Bool) (slot : SuppressionReason) :
    ∃ k s', Writes flushMeter flushMeter (flushSlot · slot) s k s' ∧ Wrote 1 s.1 k s'.1 ∧
      s'.2 = s.2 := by
  obtain ⟨t, ok⟩ := s
  by_cases hcount : (t.pending slot).count = 0
  · exact ⟨0, (t, ok), .neutral fun b => if_pos hcount, .refl 1 t, rfl⟩
  · have hflush : ∀ b, flushSlot (t.grant b, ok) slot =
        if b = 0 then ((t.cleared slot).grant 0, false)
        else (((t.cleared slot).emit (t.pendingRecord slot)).grant (b - 1), ok) := by
      intro b
      refine (if_neg hcount).trans ?_
      split
      case isTrue hzero =>
        subst hzero
        rfl
      case isFalse hpos => exact (if_neg hpos).symm ▸ rfl
    refine ⟨1, ((t.cleared slot).emit (t.pendingRecord slot), ok),
      .one (fun b => (hflush (b + 1)).trans (if_neg (by omega))) ?_, ⟨?_, rfl, ?_⟩, rfl⟩
    · change (flushSlot (t.grant 0, ok) slot).2 = false
      rw [hflush 0, if_pos rfl]
    · simp only [records, emit, cleared, List.length_append, List.length_singleton]
      omega
    · simp only [emit, cleared]
      omega

theorem flushSlots_keep {l : List SuppressionReason} {s : Traversal pq × Bool} (h : s.2 = false) :
    (l.foldl flushSlot s).2 = false := by
  rw [← Bool.not_eq_true] at h ⊢
  exact fun hok => h (flushSlots_ok hok)

theorem flushSlots_writes (l : List SuppressionReason) (s : Traversal pq × Bool) :
    ∃ k s', Writes flushMeter flushMeter (fun s => l.foldl flushSlot s) s k s' ∧
      Wrote l.length s.1 k s'.1 ∧ s'.2 = s.2 := by
  induction l generalizing s with
  | nil => exact ⟨0, s, .neutral fun b => rfl, .refl _ _, rfl⟩
  | cons slot rest ih =>
    obtain ⟨k, s', hslot, hwrote, hflag⟩ := flushSlot_writes s slot
    obtain ⟨k', s'', hrest, hwrote', hflag'⟩ := ih s'
    refine ⟨k + k', s'', (hslot.comp hrest fun _ => flushSlots_keep).congr fun b => rfl, ?_,
      hflag'.trans hflag⟩
    exact (hwrote.trans hwrote').mono (by rw [List.length_cons]; omega)

/-- A flush writes at most one record for each reason. -/
theorem flushSuppressions_writes (t : Traversal pq) :
    ∃ k u, Writes meter flushMeter flushSuppressions t k (u, true) ∧ Wrote 26 t k u := by
  obtain ⟨k, s', hwrites, hwrote, hflag⟩ := flushSlots_writes SuppressionReason.slots (t, true)
  obtain ⟨u, flag⟩ := s'
  obtain rfl : flag = true := hflag
  have hflush : ∀ b, flushSuppressions (t.grant b) =
      SuppressionReason.slots.foldl flushSlot (t.grant b, true) := fun b => by
    unfold flushSuppressions
    rfl
  exact ⟨k, u, ⟨fun b hb => (hflush b).trans (hwrites.enough b hb), fun b hb => by
    change flushMeter.exhausted (flushSuppressions (t.grant b))
    rw [hflush b]
    exact hwrites.short b hb⟩, hwrote⟩

theorem flushOrTruncate_writes (t : Traversal pq) :
    ∃ k u, Writes meter meter flushOrTruncate t k u ∧ Wrote 26 t k u := by
  obtain ⟨k, u, hwrites, hwrote⟩ := flushSuppressions_writes t
  refine ⟨k, u, ⟨fun b hb => ?_, fun b hb => ?_⟩, hwrote⟩
  · have hflush := hwrites.enough b hb
    unfold flushOrTruncate
    rw [hflush]
    rfl
  · have hshort : (flushSuppressions (t.grant b)).2 = false := hwrites.short b hb
    change (flushOrTruncate (t.grant b)).truncated = true
    unfold flushOrTruncate
    dsimp only
    rw [hshort]
    rfl

theorem beginNode_writes (t : Traversal pq) (node : Nat) :
    ∃ k u, Writes meter flushMeter (beginNode · node) t k (u, true) ∧ Wrote 26 t k u := by
  by_cases hcurrent : t.currentNode = some node
  · exact ⟨0, t, .neutral fun b => if_pos hcurrent, .refl 26 t⟩
  · obtain ⟨k, u, hwrites, hwrote⟩ := flushSuppressions_writes t
    have hbegin : ∀ b, beginNode (t.grant b) node =
        ({ (t.grant b).flushSuppressions.1 with currentNode := some node },
          (t.grant b).flushSuppressions.2) := fun b => if_neg hcurrent
    refine ⟨k, { u with currentNode := some node }, ⟨fun b hb => ?_, fun b hb => ?_⟩,
      ⟨hwrote.records, hwrote.truncated, hwrote.expansions⟩⟩
    · have hflush : flushSuppressions (t.grant b) = (u.grant (b - k), true) := hwrites.enough b hb
      rw [show meter.set t b = t.grant b from rfl, hbegin b, hflush]
      rfl
    · have hshort : (flushSuppressions (t.grant b)).2 = false := hwrites.short b hb
      change (beginNode (t.grant b) node).2 = false
      rw [hbegin b]
      exact hshort

/-- What is written before a flush that may truncate comes to what both write. -/
theorem flushed_writes {f : Traversal pq → Traversal pq} (h : Neutral f) (t : Traversal pq) :
    ∃ k u, Writes meter meter (flushOrTruncate ∘ f) t k u ∧ Wrote 26 t k u := by
  obtain ⟨k, u, hwrites, hwrote⟩ := flushOrTruncate_writes (f t)
  have hkeep : ∀ x : Traversal pq, x.truncated = true → x.flushOrTruncate.truncated = true := by
    intro x
    have htidy : Tidy {} x x.flushOrTruncate := tidy_flushOrTruncate
    exact htidy.truncated
  refine ⟨0 + k, u, (h.writes t).comp hwrites hkeep, ?_⟩
  exact ((h.wrote t).trans hwrote).mono (by omega)

theorem neutral_suppressEdge {depth : Nat} {reason : SuppressionReason} (edgeIndex : Nat) :
    Neutral fun t : Traversal pq => suppressEdge ctx depth reason t edgeIndex := by
  refine ⟨fun t b => ?_, fun t => ?_⟩
  · unfold suppressEdge
    cases ctx.topo.edgeAt edgeIndex <;> rfl
  · unfold suppressEdge
    cases ctx.topo.edgeAt edgeIndex <;> exact ⟨rfl, rfl, Nat.le_of_eq (Nat.zero_add _)⟩

theorem suppressAll_writes (ctx : TraversalContext) (t : Traversal pq) (node depth : Nat)
    (reason : SuppressionReason) :
    ∃ k u, Writes meter meter (suppressAll ctx · node depth reason) t k u ∧ Wrote 26 t k u :=
  flushed_writes (.foldl neutral_suppressEdge _) t

/-! ## Edges -/

theorem grant_cross {entry : QueueEntry} {res : Resource} {edgeIndex toIndex b : Nat}
    {carried : TraversalContext.Carried} :
    (t.grant b).cross entry res edgeIndex toIndex carried =
      (t.cross entry res edgeIndex toIndex carried).grant b := by
  unfold cross pushQueue
  dsimp only [grant]
  split <;> rfl

theorem cross_wrote {entry : QueueEntry} {res : Resource} {edgeIndex toIndex : Nat}
    {carried : TraversalContext.Carried} :
    (t.cross entry res edgeIndex toIndex carried).expl = t.expl ∧
      (t.cross entry res edgeIndex toIndex carried).truncated = t.truncated ∧
      (t.cross entry res edgeIndex toIndex carried).expansions = t.expansions + 1 := by
  unfold cross pushQueue
  dsimp only
  split <;> exact ⟨rfl, rfl, rfl⟩

theorem neutral_noteEdge (edge : DependencyEdge) : Neutral (noteEdge edge : Traversal pq → Traversal pq) := by
  refine ⟨fun t b => ?_, fun t => ?_⟩ <;> unfold noteEdge <;> split
  · rfl
  · rfl
  · exact ⟨rfl, rfl, Nat.le_of_eq (Nat.zero_add _)⟩
  · exact ⟨rfl, rfl, Nat.le_of_eq (Nat.zero_add _)⟩

/-- The hop joins the explanation. -/
def report (t : Traversal pq) (hop : HopRecord) : Traversal pq :=
  { t with expl := { t.expl with hops := t.expl.hops ++ [hop] } }

/-- An edge step gives up when the record budget is spent. -/
def edgeMeter : Meter (EdgeStep pq) where
  set
    | .refused t stop, budget => .refused (t.grant budget) stop
    | .crossed t, budget => .crossed (t.grant budget)
    | .exhausted t, budget => .exhausted (t.grant budget)
  exhausted r := ∃ t, r = .exhausted t ∧ t.truncated = true

/-- An edge is refused without a record, or crossed with one. -/
inductive EdgeWrites (ctx : TraversalContext) (entry : QueueEntry) (res : Resource)
    (fanout edgeIndex : Nat) (t : Traversal pq) : Prop
  | refused {u : Traversal pq} (stop : Bool) :
      Writes meter edgeMeter (expandEdge ctx entry res fanout · edgeIndex) t 0 (.refused u stop) →
      Wrote 0 t 0 u → EdgeWrites ctx entry res fanout edgeIndex t
  | crossed {u : Traversal pq} :
      Writes meter edgeMeter (expandEdge ctx entry res fanout · edgeIndex) t 1 (.crossed u) →
      Wrote 0 t 1 u → EdgeWrites ctx entry res fanout edgeIndex t

theorem expandEdge_writes (ctx : TraversalContext) (entry : QueueEntry) (res : Resource)
    (fanout edgeIndex : Nat) (t : Traversal pq) : EdgeWrites ctx entry res fanout edgeIndex t := by
  cases hedge : ctx.topo.edgeAt edgeIndex with
  | none =>
    exact .refused (u := t.countConsidered) false
      (.neutral fun b => expandEdge_missing (t := t.grant b) hedge)
      ⟨rfl, rfl, Nat.le_of_eq (Nat.zero_add _)⟩
  | some edge =>
    cases hadm : ctx.admits t.settled t.expansions fanout entry edgeIndex edge with
    | error refusal =>
      exact .refused (u := t.countConsidered.reject edge entry.depth refusal.1 refusal.2)
        (refusal.1 == .expansionBudgetExhausted)
        (.neutral fun b => expandEdge_inadmissible (t := t.grant b) hedge hadm)
        ⟨rfl, rfl, Nat.le_of_eq (Nat.zero_add _)⟩
    | ok toIndex =>
      cases hcar : ctx.carries entry edge with
      | error refusal =>
        exact .refused (u := t.countConsidered.reject edge entry.depth refusal.1 refusal.2)
          false (.neutral fun b => expandEdge_uncarried (t := t.grant b) hedge hadm hcar)
          ⟨rfl, rfl, Nat.le_of_eq (Nat.zero_add _)⟩
      | ok carried =>
        have hgrant : ∀ b, noteEdge edge (t.grant b) = (noteEdge edge t).grant b :=
          fun b => (neutral_noteEdge edge).grant t b
        have hnoted := (neutral_noteEdge edge).wrote t
        cases hdamp : ctx.damps edge carried.next with
        | some reason =>
          refine .refused (u := (noteEdge edge t).reject edge entry.depth reason .suppressed)
            false (.neutral fun b => ?_) ⟨hnoted.records, hnoted.truncated, hnoted.expansions⟩
          refine (expandEdge_damped (t := t.grant b) hedge hadm hcar hdamp).trans ?_
          rw [hgrant]
          rfl
        | none =>
          obtain ⟨hexpl, htrunc, hexp⟩ := @cross_wrote pq
            ((noteEdge edge t).report (acceptedHop entry res edge carried)) entry res edgeIndex
            toIndex carried
          refine .crossed (u := ((noteEdge edge t).report
            (acceptedHop entry res edge carried)).cross entry res edgeIndex toIndex carried)
            (.one (fun b => ?_) ?_) ⟨?_, ?_, ?_⟩
          · have hpush : (noteEdge edge (t.grant (b + 1))).pushHop
                (acceptedHop entry res edge carried) =
                some (((noteEdge edge t).report (acceptedHop entry res edge carried)).grant b) := by
              rw [hgrant]
              rfl
            refine (expandEdge_crossed (t := t.grant (b + 1)) hedge hadm hcar hdamp hpush).trans ?_
            exact congrArg EdgeStep.crossed grant_cross
          · have hpush : (noteEdge edge (t.grant 0)).pushHop (acceptedHop entry res edge carried) =
                none := by
              rw [hgrant]
              rfl
            exact ⟨(noteEdge edge (t.grant 0)).noteTruncation,
              expandEdge_exhausted (t := t.grant 0) hedge hadm hcar hdamp hpush, rfl⟩
          · rw [records, hexpl]
            have := hnoted.records
            simp only [report, records, List.length_append, List.length_singleton] at this ⊢
            omega
          · exact htrunc.trans hnoted.truncated
          · have := hnoted.expansions
            rw [hexp]
            change 1 + t.expansions ≤ (noteEdge edge t).expansions + 1 + 0
            omega

/-- What a turn writes, and the state it leaves. -/
def TurnWrites (c : Nat) (f : Traversal pq → Turn (Traversal pq)) (t : Traversal pq) : Prop :=
  ∃ k r, Writes meter meter.turn f t k r ∧ Wrote c t k r.state

/-- How the loop over the edges goes on after one of them. -/
def edgesAfter (ctx : TraversalContext) (entry : QueueEntry) (res : Resource) (rest : List Nat)
    (fanout : Nat) (budgetStop : Bool) : EdgeStep pq → Turn (Traversal pq)
  | .refused t stop => expandEdges ctx entry res rest fanout (budgetStop || stop) t
  | .crossed t => expandEdges ctx entry res rest (fanout + 1) budgetStop t
  | .exhausted t => .stop t

theorem expandEdges_cons {entry : QueueEntry} {res : Resource} {edgeIndex : Nat} {rest : List Nat}
    {fanout : Nat} {budgetStop : Bool} :
    expandEdges ctx entry res (edgeIndex :: rest) fanout budgetStop t =
      edgesAfter ctx entry res rest fanout budgetStop
        (expandEdge ctx entry res fanout t edgeIndex) := by
  rw [expandEdges]
  cases expandEdge ctx entry res fanout t edgeIndex <;> rfl

theorem expandEdges_writes (ctx : TraversalContext) (entry : QueueEntry) (res : Resource)
    (l : List Nat) (fanout : Nat) (budgetStop : Bool) (t : Traversal pq) :
    TurnWrites 0 (expandEdges ctx entry res l fanout budgetStop) t := by
  induction l generalizing fanout budgetStop t with
  | nil =>
    cases budgetStop with
    | true => exact ⟨0, .stop t, .neutral fun b => rfl, .refl 0 t⟩
    | false => exact ⟨0, .again t, .neutral fun b => rfl, .refl 0 t⟩
  | cons edgeIndex rest ih =>
    have hnext : ∀ {k : Nat} {u : Traversal pq} {r : EdgeStep pq} {fanout' : Nat} {stop' : Bool},
        Writes meter edgeMeter (expandEdge ctx entry res fanout · edgeIndex) t k r →
        Wrote 0 t k u →
        (∀ b, edgesAfter ctx entry res rest fanout budgetStop (edgeMeter.set r b) =
          expandEdges ctx entry res rest fanout' stop' (u.grant b)) →
        TurnWrites 0 (expandEdges ctx entry res (edgeIndex :: rest) fanout budgetStop) t := by
      intro k u r fanout' stop' hedge hwrote hmatch
      obtain ⟨k', r', hrest, hwrote'⟩ := ih fanout' stop' u
      refine ⟨k + k', r', ⟨fun b hb => ?_, fun b hb => ?_⟩, hwrote.trans hwrote'⟩
      · rw [expandEdges_cons, hedge.enough b (by omega), hmatch]
        exact (hrest.enough (b - k) (by omega)).trans (by rw [Nat.sub_sub])
      · by_cases hk : k ≤ b
        · rw [expandEdges_cons, hedge.enough b hk, hmatch]
          exact hrest.short (b - k) (by omega)
        · obtain ⟨x, hx, htrunc⟩ := hedge.short b (by omega)
          rw [expandEdges_cons, hx]
          exact htrunc
    cases expandEdge_writes ctx entry res fanout edgeIndex t with
    | refused _ hedge hwrote => exact hnext hedge hwrote fun b => rfl
    | crossed hedge hwrote => exact hnext hedge hwrote fun b => rfl

/-- A flush after bookkeeping ends its turn without ending the loop. -/
theorem again_writes (ctx : TraversalContext) {f : Traversal pq → Traversal pq} (h : Neutral f) (t : Traversal pq)
    (node depth : Nat) (reason : SuppressionReason) :
    TurnWrites 26 (fun t => .again ((f t).suppressAll ctx node depth reason)) t := by
  have hsuppress : Neutral fun t : Traversal pq =>
      (ctx.topo.outEdgeIndicesAt node).foldl (suppressEdge ctx depth reason) t :=
    .foldl neutral_suppressEdge _
  obtain ⟨k, u, hwrites, hwrote⟩ := flushed_writes (hsuppress.comp h) t
  exact ⟨k, .again u, ⟨fun b hb => congrArg Turn.again (hwrites.enough b hb), hwrites.short⟩, hwrote⟩

theorem neutral_block (node : Nat) (res : Resource) (reason : SuppressionReason) :
    Neutral fun t : Traversal pq => t.block node res reason :=
  ⟨fun _ _ => rfl, fun _ => ⟨rfl, rfl, Nat.le_of_eq (Nat.zero_add _)⟩⟩

theorem neutral_fenceOff (node : Nat) (res : Resource) (fence : Fence) :
    Neutral fun t : Traversal pq => t.fenceOff node res fence :=
  ⟨fun _ _ => rfl, fun _ => ⟨rfl, rfl, Nat.le_of_eq (Nat.zero_add _)⟩⟩

theorem neutral_id : Neutral (id : Traversal pq → Traversal pq) :=
  ⟨fun _ _ => rfl, fun t => .refl 0 t⟩

theorem TurnWrites.congr {c : Nat} {f g : Traversal pq → Turn (Traversal pq)}
    (h : TurnWrites c f t) (hfg : ∀ b, g (t.grant b) = f (t.grant b)) : TurnWrites c g t := by
  obtain ⟨k, r, hwrites, hwrote⟩ := h
  exact ⟨k, r, hwrites.congr hfg, hwrote⟩

theorem TurnWrites.mono {f : Traversal pq → Turn (Traversal pq)} (h : TurnWrites c f t)
    (hc : c ≤ c') : TurnWrites c' f t := by
  obtain ⟨k, r, hwrites, hwrote⟩ := h
  exact ⟨k, r, hwrites, hwrote.mono hc⟩

theorem expand_writes (ctx : TraversalContext) (entry : QueueEntry) (res : Resource)
    (t : Traversal pq) : TurnWrites 26 (expand ctx · entry res) t := by
  by_cases hdepth : ctx.authorityHops ≤ entry.depth
  · exact (again_writes ctx neutral_id t entry.node entry.depth .maxHops).congr
      fun b => if_pos hdepth
  · by_cases hforward : (!res.canForward) = true
    · exact (again_writes ctx (neutral_block entry.node res .protectedBoundary) t entry.node
        entry.depth .protectedBoundary).congr fun b => (if_neg hdepth).trans (if_pos hforward)
    · cases hfence : ctx.egressFence res.id with
      | some fence =>
        refine (again_writes ctx (neutral_fenceOff entry.node res fence) t entry.node entry.depth
          .fenced).congr fun b => (if_neg hdepth).trans ((if_neg hforward).trans ?_)
        rw [hfence]
      | none =>
        refine ((expandEdges_writes ctx entry res (ctx.topo.outEdgeIndicesAt entry.node) 0 false
          t).congr fun b => (if_neg hdepth).trans ((if_neg hforward).trans ?_)).mono (Nat.zero_le _)
        rw [hfence]

/-! ## Turns -/

/-- How a turn goes on after the window has moved to the popped resource. -/
def turnAfter (ctx : TraversalContext) (entry : QueueEntry) (begun : Traversal pq × Bool) :
    Turn (Traversal pq) :=
  if !begun.2 then .stop begun.1.noteTruncation
  else match ctx.topo.resourceAt entry.node with
  | none => .again (begun.1.countSettlement entry.depth)
  | some res =>
    ((begun.1.countSettlement entry.depth).recordSettlement ctx entry res).expand ctx entry res

theorem turnAfter_writes (ctx : TraversalContext) (entry : QueueEntry) (u : Traversal pq) :
    ∃ k r, Writes flushMeter meter.turn (turnAfter ctx entry) (u, true) k r ∧
      Wrote 26 u k r.state := by
  cases hres : ctx.topo.resourceAt entry.node with
  | none =>
    refine ⟨0, .again (u.countSettlement entry.depth), .neutral fun b => ?_, rfl, rfl, ?_⟩
    · refine (if_neg Bool.false_ne_true).trans ?_
      rw [hres]
      rfl
    · change 0 + u.expansions ≤ u.expansions + 26
      omega
  | some res =>
    obtain ⟨k, r, hwrites, hwrote⟩ := expand_writes ctx entry res
      ((u.countSettlement entry.depth).recordSettlement ctx entry res)
    have hafter : ∀ b, turnAfter ctx entry (u.grant b, true) =
        (((u.countSettlement entry.depth).recordSettlement ctx entry res).grant b).expand ctx entry
          res := by
      intro b
      refine (if_neg Bool.false_ne_true).trans ?_
      rw [hres]
      rfl
    exact ⟨k, r, ⟨fun b hb => (hafter b).trans (hwrites.enough b hb), fun b hb => by
      change meter.turn.exhausted (turnAfter ctx entry (u.grant b, true))
      rw [hafter b]
      exact hwrites.short b hb⟩, hwrote.records, hwrote.truncated, hwrote.expansions⟩

/-- A popped resource in the settled set, with the popped entry out of the queue. -/
def claim (t : Traversal pq) (entry : QueueEntry) (queue : pq.Carrier) : Traversal pq :=
  { t with queue, settled := entry.node :: t.settled }

theorem claimed_writes (ctx : TraversalContext) (entry : QueueEntry) (t : Traversal pq) :
    TurnWrites 52 (fun t => turnAfter ctx entry (t.beginNode entry.node)) t := by
  obtain ⟨k, u, hbegin, hwrote⟩ := beginNode_writes t entry.node
  obtain ⟨k', r, hafter, hwrote'⟩ := turnAfter_writes ctx entry u
  refine ⟨k + k', r, hbegin.comp hafter fun x hx => ?_, hwrote.trans hwrote'⟩
  change (turnAfter ctx entry x).state.truncated = true
  have hstop : turnAfter ctx entry x = .stop x.1.noteTruncation := if_pos (by rw [hx]; rfl)
  rw [hstop]
  rfl

/-- A turn writes at most two flushes beside its hops. -/
theorem turn_writes (ctx : TraversalContext) (t : Traversal pq) : TurnWrites 52 (turn ctx) t := by
  have hnone : ∀ {u : Traversal pq}, u.records = t.records → u.truncated = t.truncated →
      u.expansions = t.expansions → Wrote 52 t 0 u := fun hr ht he => ⟨hr, ht, by omega⟩
  rcases hpop : pq.pop t.queue with - | ⟨entry, queue⟩
  · refine ⟨0, .stop t, .neutral fun b => ?_, hnone rfl rfl rfl⟩
    change turn ctx (t.grant b) = .stop (t.grant b)
    unfold turn
    dsimp only [grant]
    rw [hpop]
  · have hturn : ∀ b, turn ctx (t.grant b) =
        if ctx.policy.maxVisited.toNat ≤ t.visited then
          .stop { t.grant b with
            counters := { t.counters with budgetExhaustions := t.counters.budgetExhaustions + 1 } }
        else if ctx.topo.resources.length ≤ entry.node then .again { t.grant b with queue }
        else if entry.node ∈ t.settled then .again { t.grant b with queue }
        else turnAfter ctx entry (((t.claim entry queue).grant b).beginNode entry.node) := by
      intro b
      unfold turn
      dsimp only [grant]
      rw [hpop]
      rfl
    by_cases hvisited : ctx.policy.maxVisited.toNat ≤ t.visited
    · exact ⟨0, .stop { t with
        counters := { t.counters with budgetExhaustions := t.counters.budgetExhaustions + 1 } },
        .neutral fun b => (hturn b).trans (if_pos hvisited), hnone rfl rfl rfl⟩
    · by_cases hskip : ctx.topo.resources.length ≤ entry.node ∨ entry.node ∈ t.settled
      · refine ⟨0, .again { t with queue }, .neutral fun b => ?_, hnone rfl rfl rfl⟩
        refine (hturn b).trans ((if_neg hvisited).trans ?_)
        by_cases hlen : ctx.topo.resources.length ≤ entry.node
        · exact if_pos hlen
        · exact (if_neg hlen).trans (if_pos (hskip.resolve_left hlen))
      · rw [not_or] at hskip
        obtain ⟨k, r, hwrites, hwrote⟩ := claimed_writes ctx entry (t.claim entry queue)
        refine ⟨k, r, hwrites.congr fun b => ?_, hwrote.records, hwrote.truncated, hwrote.expansions⟩
        exact (hturn b).trans ((if_neg hvisited).trans ((if_neg hskip.1).trans (if_neg hskip.2)))

/-! ## The whole traversal -/

theorem truncated_turn (h : t.truncated = true) : (turn ctx t).state.truncated = true :=
  truncated_steps (turn_steps ctx t) h

theorem truncated_loop (h : t.truncated = true) : (t.loop ctx).truncated = true := by
  have hrun : (Lib.Turns.run (turn ctx) (fuel ctx) t).truncated = true :=
    Meter.exhausted_run (M := meter) (fun _ => truncated_turn) h
  have htidy : Tidy ctx.topo (Lib.Turns.run (turn ctx) (fuel ctx) t) (t.loop ctx) :=
    tidy_flushOrTruncate
  exact htidy.truncated hrun

theorem loop_writes (ctx : TraversalContext) (t : Traversal pq) :
    ∃ k u, Writes meter meter (loop ctx) t k u ∧ Wrote (52 * fuel ctx + 26) t k u := by
  obtain ⟨k, u, hrun, hwrote⟩ := Writes.run meter (turn ctx)
    (fun _ => truncated_turn) (Q := fun n s k t => Wrote (52 * n) s k t) (fun n s => .refl _ s)
    (fun {n s k t k' u} h h' => (h.trans h').mono (by omega)) (turn_writes ctx) (fuel ctx) t
  obtain ⟨k', v, hflush, hwrote'⟩ := flushOrTruncate_writes u
  refine ⟨k + k', v, hrun.comp hflush fun x hx => ?_, hwrote.trans hwrote'⟩
  have htidy : Tidy ctx.topo x x.flushOrTruncate := tidy_flushOrTruncate
  exact htidy.truncated hx

/-- The meter of the start of a traversal. -/
def enterMeter : Meter (Except (Status × Traversal pq) (Traversal pq)) where
  set
    | .error done, budget => .error (done.1, done.2.grant budget)
    | .ok seeded, budget => .ok (seeded.grant budget)
  exhausted
    | .error done => done.2.truncated = true
    | .ok seeded => seeded.truncated = true

/-- The meter of a finished traversal. -/
def runMeter : Meter (Status × Traversal pq) :=
  ⟨fun done budget => (done.1, done.2.grant budget), fun done => done.2.truncated = true⟩

/-- The state that the start of a traversal leaves. -/
def entered : Except (Status × Traversal pq) (Traversal pq) → Traversal pq
  | .error done => done.2
  | .ok seeded => seeded

theorem grant_pushQueue {entry : QueueEntry} {b : Nat} :
    (t.grant b).pushQueue entry = (t.pushQueue entry).grant b := by
  by_cases hset : entry.node ∈ t.settled
  · have hkeep : t.pushQueue entry = t := if_pos hset
    rw [hkeep]
    exact if_pos hset
  · rw [pushQueue_of_not_mem hset]
    exact if_neg hset

theorem pushQueue_wrote (entry : QueueEntry) : Wrote 26 t 0 (t.pushQueue entry) := by
  unfold pushQueue
  split
  · exact .refl 26 t
  · exact ⟨rfl, rfl, by dsimp only; omega⟩

/-- The traversal with its grants noted and the accumulator of its origin in place. -/
def atOrigin (ctx : TraversalContext) (t : Traversal pq) (i : Nat) (origin : Resource) :
    Traversal pq :=
  { noteGrants ctx t with acc := t.acc.update i origin.id id }

/-- The origin is marked as closed for the reason. -/
def closeOrigin (t : Traversal pq) (i : Nat) (origin : Resource) (reason : SuppressionReason) :
    Traversal pq :=
  { t with acc := t.acc.update i origin.id fun a =>
    { a with received := false, blockedReason := reason } }

/-- The origin is marked with the fence that governs it. -/
def fenceOrigin (t : Traversal pq) (i : Nat) (origin : Resource) (fence : Fence) : Traversal pq :=
  { t with
    acc := t.acc.update i origin.id fun a => { a with governingFence := fence.id }
    counters := { t.counters with fenceRejections := t.counters.fenceRejections + 1 } }

theorem enter_writes (ctx : TraversalContext) (t : Traversal pq) :
    ∃ k r, Writes meter enterMeter (enter ctx) t k r ∧ Wrote 26 t k (entered r) := by
  have hrefused : ∀ st, (∀ b, enter ctx (t.grant b) = .error (st, t.grant b)) →
      ∃ k r, Writes meter enterMeter (enter ctx) t k r ∧ Wrote 26 t k (entered r) :=
    fun st h => ⟨0, .error (st, t), .neutral h, .refl 26 t⟩
  have hblocked : ∀ (w : Traversal pq) (i : Nat) (reason : SuppressionReason),
      w.records = t.records → w.truncated = t.truncated → w.expansions = t.expansions →
      (∀ b, enter ctx (t.grant b) = .error (.success, (w.grant b).suppressAll ctx i 0 reason)) →
      ∃ k r, Writes meter enterMeter (enter ctx) t k r ∧ Wrote 26 t k (entered r) := by
    intro w i reason hr ht he h
    obtain ⟨k, u, hwrites, hwrote⟩ := suppressAll_writes ctx w i 0 reason
    refine ⟨k, .error (.success, u), ⟨fun b hb => (h b).trans ?_, fun b hb => ?_⟩,
      hwrote.records.trans (by rw [hr]), hwrote.truncated.trans ht, he ▸ hwrote.expansions⟩
    · exact congrArg (fun x => Except.error (Status.success, x)) (hwrites.enough b hb)
    · change enterMeter.exhausted (enter ctx (t.grant b))
      rw [h b]
      exact hwrites.short b hb
  cases hindex : ctx.topo.indexOf ctx.signal.origin with
  | none =>
    refine hrefused (.error .notFound "signal origin resource" ctx.signal.origin.value.toNat)
      fun b => ?_
    unfold enter
    rw [hindex]
  | some i =>
    cases hres : ctx.topo.resourceAt i with
    | none =>
      refine hrefused (.error .notFound "signal origin resource" ctx.signal.origin.value.toNat)
        fun b => ?_
      unfold enter
      rw [hindex]
      dsimp only
      rw [hres]
    | some origin =>
      by_cases hseed : ctx.seed.isZero = true
      · refine hrefused (.error .unknownPressure "signal magnitude is zero" 0) fun b => ?_
        unfold enter
        rw [hindex]
        dsimp only
        rw [hres]
        exact if_pos hseed
      · cases hfence : ctx.ingressFence origin.id with
        | some fence =>
          refine hblocked (closeOrigin (fenceOrigin (atOrigin ctx t i origin) i origin fence) i origin
            .fenced) i .fenced rfl rfl rfl fun b => ?_
          unfold enter
          rw [hindex]
          dsimp only
          rw [hres]
          dsimp only
          rw [if_neg hseed, hfence]
          rfl
        | none =>
          by_cases hclosed : (!origin.canReceive) = true
          · refine hblocked (closeOrigin (atOrigin ctx t i origin) i origin origin.blockReason) i
              origin.blockReason rfl rfl rfl fun b => ?_
            unfold enter
            rw [hindex]
            dsimp only
            rw [hres]
            dsimp only
            rw [if_neg hseed, hfence]
            exact if_pos hclosed
          · refine ⟨0, .ok ((atOrigin ctx t i origin).pushQueue (originEntry ctx i)),
              .neutral fun b => ?_, ?_⟩
            · unfold enter
              rw [hindex]
              dsimp only
              rw [hres]
              dsimp only
              rw [if_neg hseed, hfence]
              have hpush : ((atOrigin ctx t i origin).grant b).pushQueue (originEntry ctx i) =
                  ((atOrigin ctx t i origin).pushQueue (originEntry ctx i)).grant b :=
                grant_pushQueue
              exact (if_neg hclosed).trans (congrArg Except.ok hpush)
            · have hpush := pushQueue_wrote (t := atOrigin ctx t i origin) (originEntry ctx i)
              exact ⟨hpush.records, hpush.truncated, hpush.expansions⟩

/-- How a traversal goes on after its start. -/
def runAfter (ctx : TraversalContext) :
    Except (Status × Traversal pq) (Traversal pq) → Status × Traversal pq
  | .error done => done
  | .ok seeded => (.success, seeded.loop ctx)

theorem run_eq (ctx : TraversalContext) (t : Traversal pq) : t.run ctx = runAfter ctx (t.enter ctx) := by
  unfold run
  cases t.enter ctx <;> rfl

/-- A start that is cut short cuts the traversal short. -/
theorem exhausted_runAfter {x : Except (Status × Traversal pq) (Traversal pq)}
    (h : enterMeter.exhausted x) : runMeter.exhausted (runAfter ctx x) := by
  cases x with
  | error done => exact h
  | ok seeded => exact truncated_loop h

/-- A traversal writes a fixed number of records on any budget that covers them, and is
truncated on any other. -/
theorem run_writes (ctx : TraversalContext) (t : Traversal pq) :
    ∃ k r, Writes meter runMeter (run ctx) t k r ∧ Wrote (52 * fuel ctx + 52) t k r.2 := by
  obtain ⟨k, r, henter, hwrote⟩ := enter_writes ctx t
  have hafter : ∃ k' r', Writes enterMeter runMeter (runAfter ctx) r k' r' ∧
      Wrote (52 * fuel ctx + 26) (entered r) k' r'.2 := by
    cases r with
    | error done => exact ⟨0, done, .neutral fun b => rfl, .refl _ _⟩
    | ok seeded =>
      obtain ⟨k', u, hloop, hwrote'⟩ := loop_writes ctx seeded
      exact ⟨k', (.success, u), ⟨fun b hb => congrArg (Prod.mk Status.success) (hloop.enough b hb),
        hloop.short⟩, hwrote'⟩
  obtain ⟨k', r', hrest, hwrote'⟩ := hafter
  exact ⟨k + k', r', (henter.comp hrest fun _ => exhausted_runAfter).congr fun b => run_eq ctx _,
    (hwrote.trans hwrote').mono (by omega)⟩

end Traversal

end Backpressure