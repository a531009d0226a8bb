import Backpressure.Engine.Alone

/-!
# What becomes of every edge

The gates decide over each out-edge of a settled resource in turn. What they decide is written down
here without the traversal that acts on it, and the counters, the hops and the suppressed records of
an untruncated traversal are read off these decisions, resource by resource.
-/

namespace Backpressure

open Lib.Turns (Turn)

/-- What became of an out-edge of a resource. -/
inductive Fate
  /-- The flag tells whether an amplification was counted before the refusal. -/
  | refused (edge : DependencyEdge) (reason : SuppressionReason) (counted : Bool)
  | crossed (edge : DependencyEdge) (hop : HopRecord)
  deriving DecidableEq

namespace Fate

def edge : Fate → DependencyEdge
  | refused edge _ _ => edge
  | crossed edge _ => edge

def reason : Fate → Option SuppressionReason
  | refused _ reason _ => some reason
  | crossed _ _ => none

def hop : Fate → Option HopRecord
  | refused _ _ _ => none
  | crossed _ hop => some hop

/-- The edge of an accepted hop. -/
def crossing : Fate → Option DependencyEdge
  | refused _ _ _ => none
  | crossed edge _ => some edge

/-- An amplification is counted for the edge. -/
def counted : Fate → Bool
  | refused _ _ counted => counted
  | crossed edge _ => edge.isAmplifying

/-- An amplification is counted for an edge that is refused after all. -/
def overcounted : Fate → Bool
  | refused _ _ counted => counted
  | crossed _ _ => false

end Fate

/-- The three reasons for which the authority of a signal does not reach over an edge. -/
def SuppressionReason.ofAuthority (reason : SuppressionReason) : Bool :=
  decide (reason = .unauthorizedScope ∨ reason = .amplificationNotAuthorized ∨
    reason = .amplificationBudgetExhausted)

def refusals (fates : List Fate) : List SuppressionReason := fates.filterMap Fate.reason

def acceptedHops (fates : List Fate) : List HopRecord := fates.filterMap Fate.hop

section

variable {edge : DependencyEdge} {reason : SuppressionReason} {counted : Bool} {hop : HopRecord}
  {fates fates' : List Fate}

@[simp] theorem refusals_nil : refusals [] = [] := rfl
@[simp] theorem acceptedHops_nil : acceptedHops [] = [] := rfl

@[simp] theorem refusals_refused :
    refusals (.refused edge reason counted :: fates) = reason :: refusals fates := rfl

@[simp] theorem refusals_crossed : refusals (.crossed edge hop :: fates) = refusals fates := rfl

@[simp] theorem acceptedHops_refused :
    acceptedHops (.refused edge reason counted :: fates) = acceptedHops fates := rfl

@[simp] theorem acceptedHops_crossed :
    acceptedHops (.crossed edge hop :: fates) = hop :: acceptedHops fates := rfl

@[simp] theorem refusals_append : refusals (fates ++ fates') = refusals fates ++ refusals fates' :=
  List.filterMap_append

@[simp] theorem acceptedHops_append :
    acceptedHops (fates ++ fates') = acceptedHops fates ++ acceptedHops fates' :=
  List.filterMap_append

/-- Every edge is refused or crossed. -/
theorem length_fates (fates : List Fate) :
    fates.length = (acceptedHops fates).length + (refusals fates).length := by
  induction fates with
  | nil => rfl
  | cons fate rest ih => cases fate <;> simp [ih] <;> omega

end

namespace TraversalContext

variable (ctx : TraversalContext)

/-- The decision of the gates over one edge. -/
def fateOf (settled : List Nat) (expansions fanout : Nat) (entry : QueueEntry) (res : Resource)
    (edgeIndex : Nat) (edge : DependencyEdge) : Fate :=
  match ctx.admits settled expansions fanout entry edgeIndex edge with
  | .error (reason, _) => .refused edge reason false
  | .ok _ =>
    match ctx.carries entry edge with
    | .error (reason, _) => .refused edge reason false
    | .ok carried =>
      match ctx.damps edge carried.next with
      -- the source counts the amplification before it asks the damping gate
      | some reason => .refused edge reason edge.isAmplifying
      | none => .crossed edge (Traversal.acceptedHop entry res edge carried)

/-- The decisions over some edges; each crossing takes from the budgets of the next. -/
def fates (settled : List Nat) (entry : QueueEntry) (res : Resource) :
    List Nat → Nat → Nat → List Fate
  | [], _, _ => []
  | edgeIndex :: rest, expansions, fanout =>
    match ctx.topo.edgeAt edgeIndex with
    | none => fates settled entry res rest expansions fanout
    | some edge =>
      match ctx.fateOf settled expansions fanout entry res edgeIndex edge with
      | .refused edge reason counted =>
        .refused edge reason counted :: fates settled entry res rest expansions fanout
      | .crossed edge hop =>
        .crossed edge hop :: fates settled entry res rest (expansions + 1) (fanout + 1)

/-- A refused edge was refused by the gates. -/
theorem fateOf_of_refused {settled : List Nat} {entry : QueueEntry} {res : Resource} {l : List Nat}
    {expansions fanout : Nat} {edge : DependencyEdge} {reason : SuppressionReason} {counted : Bool}
    (h : .refused edge reason counted ∈ ctx.fates settled entry res l expansions fanout) :
    ∃ i edge', ctx.topo.edgeAt i = some edge' ∧ ∃ expansions fanout,
      ctx.fateOf settled expansions fanout entry res i edge' = .refused edge reason counted := by
  induction l generalizing expansions fanout with
  | nil => cases h
  | cons i rest ih =>
    rw [fates] at h
    split at h
    · exact ih h
    case h_2 edge' hedge =>
      split at h
      case h_1 hfate =>
        rcases List.mem_cons.mp h with heq | h
        · cases heq
          exact ⟨i, edge', hedge, _, _, hfate⟩
        · exact ih h
      · rcases List.mem_cons.mp h with heq | h
        · cases heq
        · exact ih h

/-- Every out-edge of a closed resource is refused for one reason. -/
def closedFates (node : Nat) (reason : SuppressionReason) : List Fate :=
  ((ctx.topo.outEdgeIndicesAt node).filterMap ctx.topo.edgeAt).map (.refused · reason false)

theorem reason_of_closedFates {node : Nat} {edge : DependencyEdge} {reason reason' : SuppressionReason}
    {counted : Bool} (h : .refused edge reason' counted ∈ ctx.closedFates node reason) :
    reason' = reason := by
  obtain ⟨_, -, heq⟩ := List.mem_map.mp h
  cases heq
  rfl

end TraversalContext

/-- A resource whose out-edges were gone through. -/
structure Handled where
  node : Nat
  res : Resource
  fates : List Fate
  /-- A fence has closed the resource. -/
  fenced : Bool

namespace TraversalContext

variable (ctx : TraversalContext)

/-- A settled resource is closed, or its edges pass the gates. -/
def handledAt (settled : List Nat) (expansions : Nat) (entry : QueueEntry) (res : Resource) :
    Handled :=
  if ctx.authorityHops ≤ entry.depth then
    ⟨entry.node, res, ctx.closedFates entry.node .maxHops, false⟩
  else if !res.canForward then
    ⟨entry.node, res, ctx.closedFates entry.node .protectedBoundary, false⟩
  else if (ctx.egressFence res.id).isSome then
    ⟨entry.node, res, ctx.closedFates entry.node .fenced, true⟩
  else
    ⟨entry.node, res,
      ctx.fates settled entry res (ctx.topo.outEdgeIndicesAt entry.node) expansions 0, false⟩

/-- For other reasons than those of a closed resource only the gates refuse. -/
theorem fates_of_handledAt {settled : List Nat} {expansions : Nat} {entry : QueueEntry}
    {res : Resource} {edge : DependencyEdge} {reason : SuppressionReason} {counted : Bool}
    (h : .refused edge reason counted ∈ (ctx.handledAt settled expansions entry res).fates)
    (hreason : reason ≠ .maxHops ∧ reason ≠ .protectedBoundary ∧ reason ≠ .fenced) :
    .refused edge reason counted ∈
      ctx.fates settled entry res (ctx.topo.outEdgeIndicesAt entry.node) expansions 0 := by
  unfold handledAt at h
  split at h
  · exact absurd (ctx.reason_of_closedFates h) hreason.1
  · split at h
    · exact absurd (ctx.reason_of_closedFates h) hreason.2.1
    · split at h
      · exact absurd (ctx.reason_of_closedFates h) hreason.2.2
      · exact h

/-- The origin when it may not receive: all its edges are refused. -/
def blockedOrigin : Option Handled :=
  (ctx.topo.indexOf ctx.signal.origin).bind fun i =>
    (ctx.topo.resourceAt i).bind fun origin =>
      if (ctx.ingressFence origin.id).isSome then
        some ⟨i, origin, ctx.closedFates i .fenced, true⟩
      else if !origin.canReceive then
        some ⟨i, origin, ctx.closedFates i origin.blockReason, false⟩
      else none

end TraversalContext

namespace Traversal

variable {pq : EntryQueue} {ctx : TraversalContext} {t t' t'' u : Traversal pq}

/-- The resource that a turn settles, with the decisions over its edges. -/
def handling (ctx : TraversalContext) (t : Traversal pq) : Option Handled :=
  (settling ctx t).bind fun entry =>
    (ctx.topo.resourceAt entry.node).map (ctx.handledAt (entry.node :: t.settled) t.expansions entry)

/-- The resources whose edges a traversal goes through: those that it settles, or its blocked
origin. -/
def handled (ctx : TraversalContext) (t : Traversal pq) : List Handled :=
  match t.enter ctx with
  | .error _ => ctx.blockedOrigin.toList
  | .ok seeded => Lib.Turns.log (handling ctx) (turn ctx) (fuel ctx) seeded

/-! ## Counters -/

/-- From `t` to `t'` the edges are counted as the gates decided over them. -/
structure Tallied (fences : Nat) (fates : List Fate) (t t' : Traversal pq) : Prop where
  hops : t'.expl.hops = t.expl.hops ++ acceptedHops fates
  considered : t'.counters.hopsConsidered = t.counters.hopsConsidered + fates.length
  propagated : t'.counters.hopsPropagated =
    t.counters.hopsPropagated + (acceptedHops fates).length
  loops : t'.counters.loopPreventions =
    t.counters.loopPreventions + (refusals fates).count .nodeAlreadySettled
  stale : t'.counters.staleRejections =
    t.counters.staleRejections + (refusals fates).count .staleDependencyGeneration
  fenced : t'.counters.fenceRejections =
    t.counters.fenceRejections + (refusals fates).count .fenced + fences
  unauthorized : t'.counters.unauthorizedRejections =
    t.counters.unauthorizedRejections + (refusals fates).countP SuppressionReason.ofAuthority
  amplifications : t'.counters.amplifications =
    t.counters.amplifications + fates.countP Fate.counted
  used : t'.expl.amplificationUsed = (t.expl.amplificationUsed || fates.any Fate.counted)

theorem Tallied.trans {fences fences' : Nat} {fates fates' : List Fate}
    (h : Tallied fences fates t t') (h' : Tallied fences' fates' t' t'') :
    Tallied (fences + fences') (fates ++ fates') t t'' where
  hops := by rw [h'.hops, h.hops, acceptedHops_append, List.append_assoc]
  considered := by rw [h'.considered, h.considered, List.length_append, Nat.add_assoc]
  propagated := by
    rw [h'.propagated, h.propagated, acceptedHops_append, List.length_append, Nat.add_assoc]
  loops := by rw [h'.loops, h.loops, refusals_append, List.count_append, Nat.add_assoc]
  stale := by rw [h'.stale, h.stale, refusals_append, List.count_append, Nat.add_assoc]
  fenced := by
    rw [h'.fenced, h.fenced, refusals_append, List.count_append]
    omega
  unauthorized := by
    rw [h'.unauthorized, h.unauthorized, refusals_append, List.countP_append, Nat.add_assoc]
  amplifications := by
    rw [h'.amplifications, h.amplifications, List.countP_append, Nat.add_assoc]
  used := by rw [h'.used, h.used, List.any_append, Bool.or_assoc]

/-- A step that counts nothing and reports nothing. -/
theorem Tallied.still (hhops : t'.expl.hops = t.expl.hops)
    (hused : t'.expl.amplificationUsed = t.expl.amplificationUsed)
    (hcounters : t'.counters = t.counters) : Tallied 0 [] t t' := by
  constructor <;> simp [hhops, hused, hcounters]

/-- The verdict of a loop goes with its reason. -/
def Matched (reason : SuppressionReason) (verdict : HopVerdict) : Prop :=
  verdict = .loopPrevented ↔ reason = .nodeAlreadySettled

instance (reason : SuppressionReason) (verdict : HopVerdict) :
    Decidable (Matched reason verdict) := inferInstanceAs (Decidable (_ ↔ _))

/-- A refusal by a gate before the damping gate. -/
def Early (reason : SuppressionReason) (verdict : HopVerdict) : Prop :=
  Matched reason verdict ∧ reason ≠ .hysteresisNotExceeded

instance (reason : SuppressionReason) (verdict : HopVerdict) :
    Decidable (Early reason verdict) := inferInstanceAs (Decidable (_ ∧ _))

/-- A refused edge is counted under its reason. -/
theorem tallied_reject {edge : DependencyEdge} {depth : Nat} {reason : SuppressionReason}
    {verdict : HopVerdict} (h : Matched reason verdict) :
    Tallied 0 [.refused edge reason false] t
      (t.countConsidered.reject edge depth reason verdict) := by
  unfold Matched at h
  constructor <;>
    simp [reject, countConsidered, EngineCounters.countRefusal, Fate.counted,
      SuppressionReason.ofAuthority, List.count_singleton, h]

/-- Before the damping gate an amplification is counted already. -/
theorem tallied_damped {edge : DependencyEdge} {depth : Nat} {reason : SuppressionReason}
    (h : Matched reason .suppressed) :
    Tallied 0 [.refused edge reason edge.isAmplifying] t
      ((noteEdge edge t).reject edge depth reason .suppressed) := by
  unfold Matched at h
  unfold noteEdge
  cases hamp : edge.isAmplifying <;> constructor <;>
    simp [reject, countConsidered, noteAmplification, EngineCounters.countRefusal, Fate.counted,
      SuppressionReason.ofAuthority, List.count_singleton, ← h]

/-- What reports and counts, behind an accepted hop. -/
structure Booked (hop : HopRecord) (t t' : Traversal pq) : Prop where
  counters : t'.counters = { t.counters with hopsPropagated := t.counters.hopsPropagated + 1 }
  expl : t'.expl = { t.expl with hops := t.expl.hops ++ [hop] }
  pending : t'.pending = t.pending
  currentNode : t'.currentNode = t.currentNode
  settled : t'.settled = t.settled
  expansions : t'.expansions = t.expansions + 1

theorem booked_cross {entry : QueueEntry} {res : Resource} {edgeIndex toIndex : Nat}
    {carried : TraversalContext.Carried} {hop : HopRecord} (hpush : t.pushHop hop = some u) :
    Booked hop t (u.cross entry res edgeIndex toIndex carried) := by
  obtain ⟨-, rfl⟩ := pushHop_eq_some hpush
  unfold cross pushQueue
  dsimp only
  split <;> constructor <;> rfl

theorem tallied_crossed {edge : DependencyEdge} {hop : HopRecord}
    (h : Booked hop (noteEdge edge t) t') : Tallied 0 [.crossed edge hop] t t' := by
  constructor <;> simp only [h.counters, h.expl] <;> unfold noteEdge <;>
    cases hamp : edge.isAmplifying <;>
    simp [countConsidered, noteAmplification, Fate.counted, hamp]

theorem early_guard {p : Prop} [Decidable p] {reason : SuppressionReason} {verdict : HopVerdict}
    {next : Except (SuppressionReason × HopVerdict) Nat} (h : Early reason verdict)
    (hnext : ∀ r v, next = .error (r, v) → Early r v) :
    ∀ r v, (if p then .error (reason, verdict) else next) = .error (r, v) → Early r v := by
  intro r v hr
  split at hr
  · cases hr
    exact h
  · exact hnext r v hr

theorem early_admits {settled : List Nat} {expansions fanout : Nat} {entry : QueueEntry}
    {edgeIndex : Nat} {edge : DependencyEdge} :
    ∀ r v, ctx.admits settled expansions fanout entry edgeIndex edge = .error (r, v) →
      Early r v := by
  unfold TraversalContext.admits
  refine early_guard (by decide) (early_guard (by decide) (early_guard (by decide)
    (early_guard (by decide) (early_guard (by decide) ?_))))
  cases ctx.topo.indexOf edge.dst with
  | none => exact fun _ _ h => by cases h; decide
  | some toIndex =>
    dsimp only
    cases ctx.topo.resourceAt toIndex with
    | none => exact fun _ _ h => by cases h; decide
    | some toRes =>
      refine early_guard ?_ (early_guard (by decide) (early_guard (by decide)
        (early_guard (by decide) (early_guard (by decide) fun _ _ h => by cases h))))
      unfold Resource.blockReason
      split <;> decide

theorem early_carries {entry : QueueEntry} {edge : DependencyEdge} {reason : SuppressionReason}
    {verdict : HopVerdict} (h : ctx.carries entry edge = .error (reason, verdict)) :
    Early reason verdict := by
  unfold TraversalContext.carries at h
  dsimp only at h
  split at h
  case isFalse => cases h
  case isTrue =>
    split at h
    · cases h
      decide
    · split at h
      · cases h
        decide
      · split at h
        · cases h
          decide
        · cases h

theorem matched_damps {edge : DependencyEdge} {next : Potential} {reason : SuppressionReason}
    (h : ctx.damps edge next = some reason) : Matched reason .suppressed := by
  unfold TraversalContext.damps at h
  split at h
  · cases h
    decide
  · split at h
    · cases h
      decide
    · cases h

/-! ## The window of pending refusals -/

/-- The pending refusals are those of one resource, by reason. -/
def Window (id : ResourceId) (reasons : List SuppressionReason) (t : Traversal pq) : Prop :=
  ∀ r, (t.pending r).count = reasons.count r ∧ (reasons.count r ≠ 0 → (t.pending r).src = id)

section Window

variable {id : ResourceId} {reasons : List SuppressionReason} {edge : DependencyEdge} {depth : Nat}
  {reason : SuppressionReason} {verdict : HopVerdict}

theorem Window.of_pending (h : Window id reasons t) (hpending : t'.pending = t.pending) :
    Window id reasons t' := fun r => by rw [hpending]; exact h r

/-- One more refusal; a slot counts to the end of its 32-bit word. -/
theorem Window.reject (h : Window id reasons t) (hsrc : edge.src = id)
    (hroom : reasons.length + 1 < 2 ^ 32) :
    Window id (reasons ++ [reason]) (t.reject edge depth reason verdict) := by
  intro r
  rw [List.count_append, List.count_singleton]
  by_cases hr : r = reason
  · subst hr
    obtain ⟨hcount, hid⟩ := h r
    have hle : reasons.count r ≤ reasons.length := List.count_le_length
    have hslot : (t.reject edge depth r verdict).pending r = (t.pending r).add edge depth :=
      Function.update_self _ _ _
    rw [hslot, if_pos (by simp)]
    unfold SuppressionAggregate.add
    dsimp only
    by_cases hzero : (t.pending r).count = 0
    · rw [if_pos hzero]
      dsimp only
      rw [if_neg (by omega)]
      exact ⟨by rw [hcount], fun _ => hsrc⟩
    · rw [if_neg hzero, if_neg (by omega)]
      exact ⟨by rw [hcount], fun _ => hid (by omega)⟩
  · have hslot : (t.reject edge depth reason verdict).pending r = t.pending r :=
      Function.update_of_ne hr _ _
    have hne : ¬(reason == r) = true := by simpa using Ne.symm hr
    rw [hslot, if_neg hne, Nat.add_zero]
    exact h r

end Window

/-! ## The edges of a resource -/

/-- Some edges of a resource have been gone through: all are counted, the refused ones pend. -/
structure Goes (id : ResourceId) (before : List SuppressionReason) (fates : List Fate)
    (t t' : Traversal pq) : Prop extends Tallied 0 fates t t' where
  window : Window id (before ++ refusals fates) t'
  suppressed : t'.expl.suppressed = t.expl.suppressed
  currentNode : t'.currentNode = t.currentNode
  settled : t'.settled = t.settled

section Goes

variable {id : ResourceId} {before : List SuppressionReason} {fates fates' : List Fate}
  {entry : QueueEntry} {res : Resource} {edge : DependencyEdge}

theorem Goes.refl (h : Window id before t) : Goes id before [] t t :=
  ⟨.still rfl rfl rfl, by simpa using h, rfl, rfl, rfl⟩

theorem Goes.trans (h : Goes id before fates t t')
    (h' : Goes id (before ++ refusals fates) fates' t' t'') :
    Goes id before (fates ++ fates') t t'' where
  toTallied := h.toTallied.trans h'.toTallied
  window := by
    rw [refusals_append, ← List.append_assoc]
    exact h'.window
  suppressed := h'.suppressed.trans h.suppressed
  currentNode := h'.currentNode.trans h.currentNode
  settled := h'.settled.trans h.settled

/-- The step of the traversal over one edge carries out the decision of the gates. -/
inductive FateCase (id : ResourceId) (before : List SuppressionReason) (t : Traversal pq) :
    Fate → EdgeStep pq → Prop
  | refused {edge : DependencyEdge} {reason : SuppressionReason} {counted stop : Bool}
      {u : Traversal pq} : Goes id before [.refused edge reason counted] t u →
      u.expansions = t.expansions → FateCase id before t (.refused edge reason counted) (.refused u stop)
  | crossed {edge : DependencyEdge} {hop : HopRecord} {u : Traversal pq} :
      Goes id before [.crossed edge hop] t u → u.expansions = t.expansions + 1 →
      FateCase id before t (.crossed edge hop) (.crossed u)
  | exhausted {fate : Fate} {u : Traversal pq} : u.truncated = true →
      FateCase id before t fate (.exhausted u)

theorem noteEdge_keeps (edge : DependencyEdge) (t : Traversal pq) :
    (noteEdge edge t).pending = t.pending ∧
      (noteEdge edge t).expl.suppressed = t.expl.suppressed ∧
      (noteEdge edge t).currentNode = t.currentNode ∧ (noteEdge edge t).settled = t.settled ∧
      (noteEdge edge t).expansions = t.expansions := by
  unfold noteEdge
  split <;> exact ⟨rfl, rfl, rfl, rfl, rfl⟩

theorem expandEdge_fate {fanout i : Nat} (hedge : ctx.topo.edgeAt i = some edge)
    (hsrc : edge.src = id) (hwindow : Window id before t) (hroom : before.length + 1 < 2 ^ 32) :
    FateCase id before t (ctx.fateOf t.settled t.expansions fanout entry res i edge)
      (expandEdge ctx entry res fanout t i) := by
  unfold TraversalContext.fateOf
  cases hadm : ctx.admits t.settled t.expansions fanout entry i edge with
  | error refusal =>
    obtain ⟨reason, verdict⟩ := refusal
    rw [expandEdge_inadmissible hedge hadm]
    have hreject : Window id (before ++ [reason])
        (t.countConsidered.reject edge entry.depth reason verdict) :=
      Window.reject (hwindow.of_pending rfl) hsrc hroom
    exact .refused ⟨tallied_reject (early_admits _ _ hadm).1, hreject, rfl, rfl, rfl⟩ rfl
  | ok toIndex =>
    dsimp only
    cases hcar : ctx.carries entry edge with
    | error refusal =>
      obtain ⟨reason, verdict⟩ := refusal
      rw [expandEdge_uncarried hedge hadm hcar]
      have hreject : Window id (before ++ [reason])
          (t.countConsidered.reject edge entry.depth reason verdict) :=
        Window.reject (hwindow.of_pending rfl) hsrc hroom
      exact .refused ⟨tallied_reject (early_carries hcar).1, hreject, rfl, rfl, rfl⟩ rfl
    | ok carried =>
      obtain ⟨hpending, hsuppressed, hcurrent, hsettled, hexpansions⟩ := noteEdge_keeps edge t
      dsimp only
      cases hdamp : ctx.damps edge carried.next with
      | some reason =>
        rw [expandEdge_damped hedge hadm hcar hdamp]
        have hreject : Window id (before ++ [reason])
            ((noteEdge edge t).reject edge entry.depth reason .suppressed) :=
          Window.reject (hwindow.of_pending hpending) hsrc hroom
        exact .refused ⟨tallied_damped (matched_damps hdamp), hreject, hsuppressed, hcurrent,
          hsettled⟩ hexpansions
      | none =>
        cases hpush : (noteEdge edge t).pushHop (acceptedHop entry res edge carried) with
        | none =>
          rw [expandEdge_exhausted hedge hadm hcar hdamp hpush]
          exact .exhausted rfl
        | some u =>
          rw [expandEdge_crossed hedge hadm hcar hdamp hpush]
          have hbooked := @booked_cross pq (noteEdge edge t) u entry res i toIndex carried _ hpush
          refine .crossed ⟨tallied_crossed hbooked, ?_, ?_, ?_, ?_⟩ ?_
          · rw [refusals_crossed, refusals_nil, List.append_nil]
            exact hwindow.of_pending (hbooked.pending.trans hpending)
          · rw [hbooked.expl]
            exact hsuppressed
          · exact hbooked.currentNode.trans hcurrent
          · exact hbooked.settled.trans hsettled
          · rw [hbooked.expansions, hexpansions]

/-- An untruncated expansion carries out the decisions over all edges. -/
theorem expandEdges_goes {l : List Nat} {fanout : Nat} {stop : Bool}
    (hedges : ∀ i ∈ l, ∃ edge, ctx.topo.edgeAt i = some edge ∧ edge.src = id)
    (hwindow : Window id before t) (hroom : before.length + l.length < 2 ^ 32)
    (hkept : (expandEdges ctx entry res l fanout stop t).state.truncated = false) :
    Goes id before (ctx.fates t.settled entry res l t.expansions fanout) t
      (expandEdges ctx entry res l fanout stop t).state := by
  induction l generalizing fanout stop t before with
  | nil =>
    have hstate : (expandEdges ctx entry res [] fanout stop t).state = t := by
      rw [expandEdges]
      split <;> rfl
    rw [hstate]
    exact .refl hwindow
  | cons i rest ih =>
    obtain ⟨edge, hedge, hsrc⟩ := hedges i List.mem_cons_self
    have hrest : ∀ j ∈ rest, ∃ edge, ctx.topo.edgeAt j = some edge ∧ edge.src = id :=
      fun j hj => hedges j (List.mem_cons_of_mem i hj)
    rw [List.length_cons] at hroom
    have hcase := @expandEdge_fate pq ctx t id before entry res edge fanout i hedge hsrc hwindow
      (by omega)
    rw [expandEdges] at hkept ⊢
    rw [TraversalContext.fates, hedge]
    dsimp only
    revert hcase hkept
    generalize ctx.fateOf t.settled t.expansions fanout entry res i edge = fate
    generalize expandEdge ctx entry res fanout t i = step
    intro hkept hcase
    cases hcase with
    | exhausted htrunc => exact absurd (htrunc.symm.trans hkept) (by decide)
    | refused hgoes hexpansions =>
      have hnext := ih hrest hgoes.window (by simp; omega) hkept
      rw [hgoes.settled, hexpansions] at hnext
      exact hgoes.trans hnext
    | crossed hgoes hexpansions =>
      have hnext := ih hrest hgoes.window (by simp; omega) hkept
      rw [hgoes.settled, hexpansions] at hnext
      exact hgoes.trans hnext

end Goes

/-! ## The records of a resource -/

/-- What a suppressed record says, but for its example edge. -/
def brief (r : SuppressedEdgeRecord) : ResourceId × SuppressionReason × Nat :=
  (r.src, r.reason, r.count)

/-- The records due for the refusals of one resource: one for each reason. -/
def briefs (id : ResourceId) (reasons : List SuppressionReason) :
    List (ResourceId × SuppressionReason × Nat) :=
  SuppressionReason.slots.filterMap fun r =>
    if reasons.count r = 0 then none else some (id, r, reasons.count r)

theorem briefs_nil (id : ResourceId) : briefs id [] = [] :=
  List.filterMap_eq_nil_iff.mpr fun _ _ => if_pos List.count_nil

/-- Counted and reported, the pending refusals become records and the window is empty. -/
structure Flushed (id : ResourceId) (reasons : List SuppressionReason) (t t' : Traversal pq) :
    Prop extends Tallied 0 [] t t' where
  window : ∀ id, Window id [] t'
  suppressed : t'.expl.suppressed.map brief = t.expl.suppressed.map brief ++ briefs id reasons
  currentNode : t'.currentNode = t.currentNode
  settled : t'.settled = t.settled
  expansions : t'.expansions = t.expansions

section Flush

variable {id : ResourceId} {reasons : List SuppressionReason}

/-- The record due for one slot. -/
def due (t : Traversal pq) (r : SuppressionReason) : Option (ResourceId × SuppressionReason × Nat) :=
  if (t.pending r).count = 0 then none else some ((t.pending r).src, r, (t.pending r).count)

/-- What the flush of some slots leaves. -/
structure Emptied (slots : List SuppressionReason) (t t' : Traversal pq) : Prop where
  counters : t'.counters = t.counters
  expl : ∃ suppressed, t'.expl = { t.expl with suppressed } ∧
    suppressed.map brief = t.expl.suppressed.map brief ++ slots.filterMap (due t)
  pending : ∀ r, (t'.pending r).count = if r ∈ slots then 0 else (t.pending r).count
  others : ∀ r ∉ slots, t'.pending r = t.pending r
  currentNode : t'.currentNode = t.currentNode
  settled : t'.settled = t.settled
  expansions : t'.expansions = t.expansions

theorem emptied_slot {s : Traversal pq × Bool} {slot : SuppressionReason}
    (hok : (flushSlot s slot).2 = true) : Emptied [slot] s.1 (flushSlot s slot).1 := by
  obtain ⟨t, ok⟩ := s
  unfold flushSlot at hok ⊢
  dsimp only at hok ⊢
  have hdue : [slot].filterMap (due t) = (due t slot).toList := by
    cases hslot : due t slot <;> simp [hslot]
  split at hok
  case isTrue hzero =>
    rw [if_pos hzero]
    refine ⟨rfl, ⟨_, rfl, ?_⟩, fun r => ?_, fun _ _ => rfl, rfl, rfl, rfl⟩
    · rw [hdue, due, if_pos hzero, Option.toList_none, List.append_nil]
    · split
      case isTrue hr => rw [List.mem_singleton.mp hr, hzero]
      case isFalse => rfl
  case isFalse hcount =>
    split at hok
    · cases hok
    case isFalse hbudget =>
      rw [if_neg hcount, if_neg hbudget]
      refine ⟨rfl, ⟨_, rfl, ?_⟩, fun r => ?_, fun r hr => ?_, rfl, rfl, rfl⟩
      · rw [hdue, due, if_neg hcount, Option.toList_some, List.map_append]
        rfl
      · by_cases hr : r = slot
        · subst hr
          dsimp only
          rw [if_pos List.mem_cons_self, Function.update_self]
        · dsimp only
          rw [if_neg (by simpa using hr), Function.update_of_ne hr]
      · exact Function.update_of_ne (by simpa using hr) _ _

theorem Emptied.cons {slot : SuppressionReason} {rest : List SuppressionReason}
    (hslot : slot ∉ rest) (h : Emptied [slot] t t') (h' : Emptied rest t' t'') :
    Emptied (slot :: rest) t t'' := by
  obtain ⟨suppressed, hexpl, hbriefs⟩ := h.expl
  obtain ⟨suppressed', hexpl', hbriefs'⟩ := h'.expl
  have hdue : ∀ r ∈ rest, due t' r = due t r := by
    intro r hr
    have hother : r ∉ [slot] := fun hr' => hslot (List.mem_singleton.mp hr' ▸ hr)
    rw [due, h.others r hother, due]
  refine ⟨h'.counters.trans h.counters, ⟨suppressed', ?_, ?_⟩, fun r => ?_, fun r hr => ?_,
    h'.currentNode.trans h.currentNode, h'.settled.trans h.settled,
    h'.expansions.trans h.expansions⟩
  · rw [hexpl', hexpl]
  · rw [hbriefs', hexpl, hbriefs, List.filterMap_congr hdue, List.append_assoc,
      ← List.filterMap_append, List.singleton_append]
  · rw [h'.pending, h.pending]
    by_cases hrest : r ∈ rest
    · rw [if_pos hrest, if_pos (List.mem_cons_of_mem slot hrest)]
    · rw [if_neg hrest]
      simp [hrest]
  · rw [h'.others r fun hr' => hr (List.mem_cons_of_mem slot hr'),
      h.others r fun hr' => hr (List.mem_singleton.mp hr' ▸ List.mem_cons_self)]

theorem emptied_slots {l : List SuppressionReason} (hl : l.Nodup) {s : Traversal pq × Bool}
    (hok : (l.foldl flushSlot s).2 = true) : Emptied l s.1 (l.foldl flushSlot s).1 := by
  induction l generalizing s with
  | nil => exact ⟨rfl, ⟨_, rfl, (List.append_nil _).symm⟩, fun _ => rfl, fun _ _ => rfl, rfl, rfl, rfl⟩
  | cons slot rest ih =>
    obtain ⟨hslot, hrest⟩ := List.nodup_cons.mp hl
    exact .cons hslot (emptied_slot (flushSlots_ok hok)) (ih hrest hok)

/-- A flush under a sufficient budget reports what its window holds. -/
theorem flushed_of_ok (h : Window id reasons t) (hok : t.flushSuppressions.2 = true) :
    Flushed id reasons t t.flushSuppressions.1 := by
  have hemptied : Emptied SuppressionReason.slots t t.flushSuppressions.1 := by
    unfold flushSuppressions at hok ⊢
    exact emptied_slots SuppressionReason.nodup_slots hok
  obtain ⟨suppressed, hexpl, hbriefs⟩ := hemptied.expl
  refine ⟨.still ?_ ?_ hemptied.counters, fun _ r => ?_, ?_, hemptied.currentNode,
    hemptied.settled, hemptied.expansions⟩
  · rw [hexpl]
  · rw [hexpl]
  · rw [hemptied.pending, if_pos (SuppressionReason.mem_slots r), List.count_nil]
    exact ⟨rfl, fun hne => absurd rfl hne⟩
  · rw [hexpl, hbriefs, briefs]
    refine congrArg (_ ++ ·) (List.filterMap_congr fun r _ => ?_)
    obtain ⟨hcount, hsrc⟩ := h r
    rw [due, hcount]
    split
    · rfl
    case isFalse hne => rw [hsrc hne]

/-- The last flush of an untruncated traversal reports what its window holds. -/
theorem flushed_of_kept (h : Window id reasons t) (hkept : t.flushOrTruncate.truncated = false) :
    Flushed id reasons t t.flushOrTruncate := by
  unfold flushOrTruncate at hkept ⊢
  dsimp only at hkept ⊢
  split
  case isTrue hok => exact flushed_of_ok h hok
  case isFalse hfull =>
    rw [if_neg hfull] at hkept
    cases hkept

end Flush

/-! ## One resource -/

/-- The out-edges of a resource are known, leave it, and are few enough for a slot. -/
structure Sourced (topo : Topology) (node : Nat) (id : ResourceId) : Prop where
  edges : ∀ i ∈ topo.outEdgeIndicesAt node, ∃ edge, topo.edgeAt i = some edge ∧ edge.src = id
  few : (topo.outEdgeIndicesAt node).length < 2 ^ 32

/-- The edges of a resource have been gone through, and its refusals are reported or pend. -/
structure Handles (x : Handled) (t t' : Traversal pq) : Prop
    extends Tallied (if x.fenced then 1 else 0) x.fates t t' where
  due : ∃ reasons, Window x.res.id reasons t' ∧
    t'.expl.suppressed.map brief ++ briefs x.res.id reasons =
      t.expl.suppressed.map brief ++ briefs x.res.id (refusals x.fates)
  currentNode : t'.currentNode = t.currentNode
  settled : t'.settled = t.settled

/-- The edges of a resource have been gone through, and its refusals are reported. -/
structure Closes (x : Handled) (t t' : Traversal pq) : Prop
    extends Tallied (if x.fenced then 1 else 0) x.fates t t' where
  window : ∀ id, Window id [] t'
  suppressed : t'.expl.suppressed.map brief =
    t.expl.suppressed.map brief ++ briefs x.res.id (refusals x.fates)
  currentNode : t'.currentNode = t.currentNode
  settled : t'.settled = t.settled

section Handles

variable {entry : QueueEntry} {res : Resource} {node depth : Nat} {id : ResourceId}
  {reason : SuppressionReason} {before : List SuppressionReason}

theorem suppressEdges_goes {l : List Nat} (hmatched : Matched reason .suppressed)
    (hedges : ∀ i ∈ l, ∃ edge, ctx.topo.edgeAt i = some edge ∧ edge.src = id)
    (hwindow : Window id before t) (hroom : before.length + l.length < 2 ^ 32) :
    Goes id before ((l.filterMap ctx.topo.edgeAt).map (.refused · reason false)) t
      (l.foldl (suppressEdge ctx depth reason) t) := by
  induction l generalizing t before with
  | nil => exact .refl hwindow
  | cons i rest ih =>
    obtain ⟨edge, hedge, hsrc⟩ := hedges i List.mem_cons_self
    have hrest : ∀ j ∈ rest, ∃ edge, ctx.topo.edgeAt j = some edge ∧ edge.src = id :=
      fun j hj => hedges j (List.mem_cons_of_mem i hj)
    rw [List.length_cons] at hroom
    have hstep : suppressEdge ctx depth reason t i =
        t.countConsidered.reject edge depth reason .suppressed := by
      unfold suppressEdge
      rw [hedge]
    have hreject : Window id (before ++ [reason])
        (t.countConsidered.reject edge depth reason .suppressed) :=
      Window.reject (hwindow.of_pending rfl) hsrc (by omega)
    have hgoes : Goes id before [.refused edge reason false] t
        (t.countConsidered.reject edge depth reason .suppressed) :=
      ⟨tallied_reject hmatched, hreject, rfl, rfl, rfl⟩
    rw [List.foldl_cons, List.filterMap_cons, hedge, hstep]
    exact hgoes.trans (ih hrest hreject (by simp; omega))

/-- A closed resource has all its edges refused for one reason, and reports them at once. -/
theorem suppressAll_closes (hmatched : Matched reason .suppressed)
    (hsourced : Sourced ctx.topo node res.id) (hwindow : Window res.id [] t)
    (hkept : (t.suppressAll ctx node depth reason).truncated = false) :
    Closes ⟨node, res, ctx.closedFates node reason, false⟩ t
      (t.suppressAll ctx node depth reason) := by
  have hgoes := @suppressEdges_goes pq ctx t depth res.id reason [] _ hmatched hsourced.edges hwindow
    (by rw [List.length_nil, Nat.zero_add]; exact hsourced.few)
  unfold suppressAll at hkept ⊢
  have hflushed := flushed_of_kept hgoes.window hkept
  refine ⟨?_, hflushed.window, ?_, hflushed.currentNode.trans hgoes.currentNode,
    hflushed.settled.trans hgoes.settled⟩
  · have htallied := hgoes.toTallied.trans hflushed.toTallied
    rw [List.append_nil] at htallied
    exact htallied
  · rw [hflushed.suppressed, hgoes.suppressed]
    rfl

/-- What is marked and counted before the edges of a resource are gone through. -/
theorem Closes.after {fates : List Fate} (fenced : Bool)
    (htallied : Tallied (if fenced then 1 else 0) [] t u)
    (hsuppressed : u.expl.suppressed = t.expl.suppressed) (hcurrent : u.currentNode = t.currentNode)
    (hsettled : u.settled = t.settled) (h : Closes ⟨node, res, fates, false⟩ u t') :
    Closes ⟨node, res, fates, fenced⟩ t t' :=
  ⟨htallied.trans h.toTallied, h.window, hsuppressed ▸ h.suppressed,
    h.currentNode.trans hcurrent, h.settled.trans hsettled⟩

theorem Closes.handles {x : Handled} (h : Closes x t t') : Handles x t t' where
  toTallied := h.toTallied
  due := ⟨[], h.window _, by rw [briefs_nil, List.append_nil, h.suppressed]⟩
  currentNode := h.currentNode
  settled := h.settled

theorem tallied_block : Tallied 0 [] t (t.block node res reason) := .still rfl rfl rfl

theorem tallied_fenceOff {fence : Fence} : Tallied 1 [] t (t.fenceOff node res fence) := by
  constructor <;> simp [fenceOff]

/-- After a settlement the edges of the resource are gone through as the gates decide. -/
theorem expand_handles (hsourced : Sourced ctx.topo entry.node res.id)
    (hwindow : Window res.id [] t) (hkept : (t.expand ctx entry res).state.truncated = false) :
    Handles (ctx.handledAt t.settled t.expansions entry res) t (t.expand ctx entry res).state := by
  unfold expand TraversalContext.handledAt at *
  by_cases hdepth : ctx.authorityHops ≤ entry.depth
  · rw [if_pos hdepth] at hkept ⊢
    rw [if_pos hdepth]
    exact (suppressAll_closes (by decide) hsourced hwindow hkept).handles
  · rw [if_neg hdepth] at hkept ⊢
    rw [if_neg hdepth]
    by_cases hforward : (!res.canForward) = true
    · rw [if_pos hforward] at hkept ⊢
      rw [if_pos hforward]
      have hwindow' : Window res.id [] (t.block entry.node res .protectedBoundary) :=
        hwindow.of_pending rfl
      exact (Closes.after false tallied_block rfl rfl rfl
        (suppressAll_closes (by decide) hsourced hwindow' hkept)).handles
    · rw [if_neg hforward] at hkept ⊢
      rw [if_neg hforward]
      cases hfence : ctx.egressFence res.id with
      | some fence =>
        rw [hfence] at hkept
        rw [if_pos (by rfl)]
        have hwindow' : Window res.id [] (t.fenceOff entry.node res fence) := hwindow.of_pending rfl
        exact (Closes.after true tallied_fenceOff rfl rfl rfl
          (suppressAll_closes (by decide) hsourced hwindow' hkept)).handles
      | none =>
        rw [hfence] at hkept
        rw [if_neg (by exact Bool.false_ne_true)]
        have hgoes := @expandEdges_goes pq ctx t res.id [] entry res _ _ _ hsourced.edges hwindow
          (by rw [List.length_nil, Nat.zero_add]; exact hsourced.few) hkept
        exact ⟨hgoes.toTallied, ⟨_, hgoes.window, congrArg (List.map brief · ++ _) hgoes.suppressed⟩,
          hgoes.currentNode, hgoes.settled⟩

end Handles

/-! ## The loop -/

/-- The resources gone through so far are accounted for: the refusals of the last one may pend. -/
structure Books (base : Traversal pq) (xs : List Handled) (t : Traversal pq) : Prop
    extends Tallied (xs.countP Handled.fenced) (xs.flatMap Handled.fates) base t where
  due : ∃ id reasons, Window id reasons t ∧
    t.expl.suppressed.map brief ++ briefs id reasons = base.expl.suppressed.map brief ++
      xs.flatMap fun x => briefs x.res.id (refusals x.fates)
  current : ∀ n, t.currentNode = some n → n ∈ t.settled

section Loop

variable {base : Traversal pq} {xs : List Handled} {x : Handled}

/-- The edges of every resource are known, leave it, and are few enough for a slot. -/
def Wired (topo : Topology) : Prop :=
  ∀ node res, topo.resourceAt node = some res → Sourced topo node res.id

theorem res_handledAt {settled : List Nat} {expansions : Nat} {entry : QueueEntry}
    {res : Resource} : (ctx.handledAt settled expansions entry res).res = res ∧
      (ctx.handledAt settled expansions entry res).node = entry.node := by
  unfold TraversalContext.handledAt
  split_ifs <;> exact ⟨rfl, rfl⟩

theorem Books.still (h : Books base xs t) (htallied : Tallied 0 [] t t')
    (hpending : t'.pending = t.pending) (hsuppressed : t'.expl.suppressed = t.expl.suppressed)
    (hcurrent : t'.currentNode = t.currentNode) (hsettled : t'.settled = t.settled) :
    Books base xs t' := by
  obtain ⟨id, reasons, hwindow, hdue⟩ := h.due
  refine ⟨?_, ⟨id, reasons, hwindow.of_pending hpending, hsuppressed ▸ hdue⟩, ?_⟩
  · have hall := h.toTallied.trans htallied
    rw [List.append_nil] at hall
    exact hall
  · rw [hcurrent, hsettled]
    exact h.current

/-- A resource settled, its edges gone through: the refusals of the one before are reported. -/
theorem Books.turn (hwired : Wired ctx.topo) (h : Books base xs t) (hx : handling ctx t = some x)
    (hkept : (turn ctx t).state.truncated = false) :
    Books base (xs ++ [x]) (Traversal.turn ctx t).state := by
  obtain ⟨entry, hsettling, hx⟩ := Option.bind_eq_some_iff.mp hx
  obtain ⟨queue, res, -, hres, hset, -, hbegun, hturn⟩ := turn_of_settling hsettling
  rw [hres] at hx
  obtain rfl := Option.some.inj hx
  obtain ⟨id, reasons, hwindow, hdue⟩ := h.due
  rw [hturn] at hkept ⊢
  -- the resource is new, so the window moves on to it
  have hcurrent : ¬({ t with queue, settled := entry.node :: t.settled }).currentNode =
      some entry.node := fun hsame => hset (h.current _ hsame)
  unfold opened at hkept ⊢
  unfold beginNode at hbegun hkept ⊢
  rw [if_neg hcurrent] at hbegun hkept ⊢
  have hflushed := flushed_of_ok (t := { t with queue, settled := entry.node :: t.settled })
    (hwindow.of_pending rfl) hbegun
  revert hflushed hkept
  generalize ({ t with queue, settled := entry.node :: t.settled }).flushSuppressions.1 = flushed
  intro hkept hflushed
  have hwindow' : Window res.id [] ((({ flushed with currentNode := some entry.node }).countSettlement
      entry.depth).recordSettlement ctx entry res) := (hflushed.window res.id).of_pending rfl
  have hhandles := expand_handles (hwired _ _ hres) hwindow' hkept
  have hcontext : ctx.handledAt (entry.node :: t.settled) t.expansions entry res =
      ctx.handledAt flushed.settled flushed.expansions entry res := by
    rw [hflushed.settled, hflushed.expansions]
  have hsettled : Tallied 0 [] flushed ((({ flushed with currentNode := some entry.node
      }).countSettlement entry.depth).recordSettlement ctx entry res) := by
    constructor <;> simp [countSettlement, recordSettlement]
  have hclaimed : Tallied 0 [] t { t with queue, settled := entry.node :: t.settled } :=
    .still rfl rfl rfl
  have hmoved : Tallied 0 [] t flushed := hclaimed.trans hflushed.toTallied
  obtain ⟨reasons', hpending, hreported⟩ := hhandles.due
  rw [hcontext]
  refine ⟨?_, ⟨_, reasons', hpending, hreported.trans ?_⟩, fun n hn => ?_⟩
  · have hall := ((h.toTallied.trans hmoved).trans hsettled).trans hhandles.toTallied
    rw [List.append_nil, List.append_nil] at hall
    rw [List.countP_append, List.flatMap_append, List.flatMap_singleton, List.countP_singleton]
    exact hall
  · have hold : flushed.expl.suppressed.map brief =
        t.expl.suppressed.map brief ++ briefs id reasons := hflushed.suppressed
    rw [List.flatMap_append, List.flatMap_singleton, ← List.append_assoc, ← hdue, ← hold]
    rfl
  · have hnode : some entry.node = some n := hhandles.currentNode.symm.trans hn
    rw [hhandles.settled, ← Option.some.inj hnode]
    exact hflushed.settled ▸ List.mem_cons_self

theorem settling_of_handling (h : handling ctx t = none) : settling ctx t = none := by
  cases hsettling : settling ctx t with
  | none => rfl
  | some entry =>
    obtain ⟨_, res, -, hres, -⟩ := turn_of_settling hsettling
    unfold handling at h
    rw [hsettling, Option.bind_some, hres] at h
    cases h

/-- A turn that settles nothing leaves the books as they are. -/
theorem Books.idle (h : Books base xs t) (hnone : handling ctx t = none)
    (hkept : (Traversal.turn ctx t).state.truncated = false) :
    Books base xs (Traversal.turn ctx t).state := by
  have hidle := turn_idles (settling_of_handling hnone)
  have hvisited : ∀ entry queue, pq.pop t.queue = some (entry, queue) →
      ctx.policy.maxVisited.toNat ≤ t.visited → Books base xs (Traversal.turn ctx t).state := by
    intro entry queue hpop hvis
    rw [turn_visited hpop hvis]
    exact h.still (by constructor <;> simp [Turn.state]) rfl rfl rfl rfl
  revert hidle hkept hvisited
  generalize Traversal.turn ctx t = r
  intro hkept hidle hvisited
  cases hidle with
  | empty => exact h
  | visited hpop hvis => exact hvisited _ _ hpop hvis
  | skip => exact h.still (.still rfl rfl rfl) rfl rfl rfl rfl
  | abandon _ _ _ _ _ htrunc => exact absurd (htrunc.symm.trans hkept) (by decide)

/-- The books of the loop, unless it was truncated. -/
theorem books_loop (hwired : Wired ctx.topo) (hsize : pq.size t.queue ≤ 1) (h : Books t [] t)
    (hkept : (Lib.Turns.run (Traversal.turn ctx) (fuel ctx) t).truncated = false) :
    Books t (Lib.Turns.log (handling ctx) (Traversal.turn ctx) (fuel ctx) t)
      (Lib.Turns.run (Traversal.turn ctx) (fuel ctx) t) := by
  have hstep : ∀ (xs : List Handled) (v : Traversal pq),
      v.truncated = true ∨ Books t xs v → (Traversal.turn ctx v).state.truncated = true ∨
        Books t (xs ++ (handling ctx v).toList) (Traversal.turn ctx v).state := by
    rintro xs v (htrunc | hbooks)
    · exact .inl (truncated_steps (turn_steps ctx v) htrunc)
    · cases hkept : (Traversal.turn ctx v).state.truncated with
      | true => exact .inl rfl
      | false =>
        refine .inr ?_
        cases hx : handling ctx v with
        | none => exact (List.append_nil xs).symm ▸ hbooks.idle hx hkept
        | some x => exact hbooks.turn hwired hx hkept
  have hlog := Lib.Turns.log_invariant (handling ctx) (Traversal.turn ctx) (m := measure ctx)
    (P := fun xs v => v.truncated = true ∨ Books t xs v)
    (Q := fun xs v => v.truncated = true ∨ Books t xs v) (fun _ _ => measure_turn)
    (fun xs v v' hv hturn => ?_) (fun xs v v' hv hturn => ?_) (fuel ctx) (s := t)
    (by unfold measure fuel; omega) (l := []) (.inr h)
  · rw [List.nil_append] at hlog
    exact hlog.resolve_left (by simp [hkept])
  · have hnext := hstep xs v hv
    rwa [hturn] at hnext
  · have hnext := hstep xs v hv
    rwa [hturn] at hnext

/-! ## The whole traversal -/

/-- Every resource gone through is accounted for, and its refusals are reported. -/
structure Accounts (xs : List Handled) (base t : Traversal pq) : Prop
    extends Tallied (xs.countP Handled.fenced) (xs.flatMap Handled.fates) base t where
  suppressed : t.expl.suppressed.map brief = xs.flatMap fun x => briefs x.res.id (refusals x.fates)

/-- Nothing has been reported, and no resource is current. -/
structure Blank (t : Traversal pq) : Prop extends Fresh t where
  suppressed : t.expl.suppressed = []
  current : t.currentNode = none

theorem Blank.window (h : Blank t) (id : ResourceId) : Window id [] t := fun r => by
  rw [h.pending r, List.count_nil]
  exact ⟨rfl, fun hne => absurd rfl hne⟩

theorem books_seeded {s : Traversal pq} (h : Blank t) (henter : t.enter ctx = .ok s) :
    Books s [] s ∧ Tallied 0 [] t s ∧ s.expl.suppressed = [] := by
  unfold enter at henter
  split at henter
  · cases henter
  · split at henter
    · cases henter
    · split at henter
      · cases henter
      · dsimp only at henter
        split at henter
        · cases henter
        · split at henter
          · cases henter
          · cases henter
            unfold pushQueue noteGrants
            dsimp only
            have hcurrent : ∀ n, t.currentNode = some n → False := fun n hn => by
              rw [h.current] at hn
              cases hn
            have hnone : ∀ l : List (ResourceId × SuppressionReason × Nat),
                l ++ briefs {} [] = l ++ [] := fun l => by rw [briefs_nil]
            split <;>
              exact ⟨⟨.still rfl rfl rfl, ⟨{}, [], (h.window {}).of_pending rfl, hnone _⟩,
                fun n hn => (hcurrent n hn).elim⟩, .still rfl rfl rfl, h.suppressed⟩

theorem closes_blocked (hwired : Wired ctx.topo) (h : Blank t)
    (henter : t.enter ctx = .error (.success, t')) (hkept : t'.truncated = false) :
    ∃ x, ctx.blockedOrigin = some x ∧ Closes x t t' := by
  unfold enter at henter
  unfold TraversalContext.blockedOrigin
  split at henter
  · cases henter
  case h_2 i hindex =>
    rw [hindex, Option.bind_some]
    split at henter
    · cases henter
    case h_2 origin hres =>
      rw [hres, Option.bind_some]
      split at henter
      · cases henter
      · dsimp only at henter
        split at henter
        case h_1 fence hfence =>
          cases henter
          rw [hfence, if_pos (by rfl)]
          unfold blockOrigin at hkept ⊢
          refine ⟨_, rfl, Closes.after true ?_ ?_ ?_ ?_
            (suppressAll_closes (by decide) (hwired _ _ hres) ?_ hkept)⟩
          · constructor <;> simp [noteGrants]
          · rfl
          · rfl
          · rfl
          · exact (h.window origin.id).of_pending rfl
        case h_2 hfence =>
          split at henter
          case isFalse => cases henter
          case isTrue hrecv =>
            cases henter
            rw [hfence, if_neg (by exact Bool.false_ne_true), if_pos hrecv]
            unfold blockOrigin at hkept ⊢
            have hmatched : Matched origin.blockReason .suppressed := by
              unfold Resource.blockReason
              split <;> decide
            refine ⟨_, rfl, Closes.after false ?_ ?_ ?_ ?_
              (suppressAll_closes hmatched (hwired _ _ hres) ?_ hkept)⟩
            · constructor <;> simp [noteGrants]
            · rfl
            · rfl
            · rfl
            · exact (h.window origin.id).of_pending rfl

/-- An untruncated traversal accounts for every edge of every resource that it goes through. -/
theorem accounts_run (hwired : Wired ctx.topo) (h : Blank t) (hrun : t.run ctx = (.success, t'))
    (hkept : t'.truncated = false) : Accounts (handled ctx t) t t' := by
  unfold handled
  cases henter : t.enter ctx with
  | error done =>
    have hdone : done = (.success, t') := by
      unfold run at hrun
      rw [henter] at hrun
      exact hrun
    subst hdone
    obtain ⟨x, hx, hcloses⟩ := closes_blocked hwired h henter hkept
    dsimp only
    rw [hx, Option.toList_some]
    refine ⟨?_, ?_⟩
    · rw [List.countP_singleton, List.flatMap_singleton]
      exact hcloses.toTallied
    · rw [List.flatMap_singleton, hcloses.suppressed, h.suppressed]
      rfl
  | ok s =>
    obtain ⟨hrun', -⟩ := run_of_enter henter
    obtain rfl : s.loop ctx = t' := congrArg Prod.snd (hrun'.symm.trans hrun)
    obtain ⟨hbooks, hseeded, hblank⟩ := books_seeded h henter
    have hsize : pq.size s.queue ≤ 1 := by
      have hcases := enter_cases ctx h.toFresh
      rw [henter] at hcases
      cases hcases with
      | seeded _ _ _ htidy => exact (seeded_queue h.toFresh htidy).2
    have hkept' : (Lib.Turns.run (Traversal.turn ctx) (fuel ctx) s).truncated = false := by
      rw [← Bool.not_eq_true]
      intro htrunc
      have htidy : Tidy ctx.topo (Lib.Turns.run (Traversal.turn ctx) (fuel ctx) s) (s.loop ctx) :=
        tidy_flushOrTruncate
      exact absurd ((htidy.truncated htrunc).symm.trans hkept) (by decide)
    have hloop := books_loop hwired hsize hbooks hkept'
    obtain ⟨id, reasons, hwindow, hdue⟩ := hloop.due
    have hflushed : Flushed id reasons _ (s.loop ctx) := flushed_of_kept hwindow hkept
    refine ⟨?_, ?_⟩
    · have hall := (hseeded.trans hloop.toTallied).trans hflushed.toTallied
      rw [List.append_nil, Nat.zero_add, List.nil_append] at hall
      exact hall
    · rw [hflushed.suppressed, hdue, hblank]
      rfl

end Loop

end Traversal

end Backpressure
