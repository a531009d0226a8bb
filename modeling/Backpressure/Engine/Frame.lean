import Backpressure.Engine.Visits

/-!
# The frame of a traversal

The accumulators, the counters and the truncation flag are shared by the traversals of a request.
A traversal writes them and never reads them, so two traversals of one signal that start on
different outputs go through the same states, and the outputs stay related by whatever the single
writes keep.
-/

namespace Backpressure

/-- Counters after a share of traversal work. The decisions on signals are not among it. -/
def EngineCounters.add (c k : EngineCounters) : EngineCounters :=
  { c with
    nodesSettled := c.nodesSettled + k.nodesSettled
    hopsConsidered := c.hopsConsidered + k.hopsConsidered
    hopsPropagated := c.hopsPropagated + k.hopsPropagated
    hopsSuppressed := c.hopsSuppressed + k.hopsSuppressed
    loopPreventions := c.loopPreventions + k.loopPreventions
    staleRejections := c.staleRejections + k.staleRejections
    fenceRejections := c.fenceRejections + k.fenceRejections
    unauthorizedRejections := c.unauthorizedRejections + k.unauthorizedRejections
    amplifications := c.amplifications + k.amplifications
    budgetExhaustions := c.budgetExhaustions + k.budgetExhaustions
    recordTruncations := c.recordTruncations + k.recordTruncations
    peakDepth := max c.peakDepth k.peakDepth }

theorem EngineCounters.add_empty (c : EngineCounters) : c.add {} = c := by
  simp [add]

theorem EngineCounters.add_assoc (c k l : EngineCounters) : (c.add k).add l = c.add (k.add l) := by
  simp [add, Nat.add_assoc, Nat.max_assoc]

/-- What the traversals of a request share. -/
structure Outputs where
  acc : Accumulators
  counters : EngineCounters
  truncated : Bool

/-- A single write of a traversal to its outputs. -/
inductive Write
  | update (i : Nat) (id : ResourceId) (f : NodeAccumulator → NodeAccumulator)
  | count (share : EngineCounters)
  | truncate

namespace Outputs

def apply (o : Outputs) : Write → Outputs
  | .update i id f => { o with acc := o.acc.update i id f }
  | .count share => { o with counters := o.counters.add share }
  | .truncate => { o with truncated := true }

def write (o : Outputs) (ws : List Write) : Outputs := ws.foldl apply o

theorem write_append (o : Outputs) (ws ws' : List Write) :
    o.write (ws ++ ws') = (o.write ws).write ws' := List.foldl_append

/-- A relation that every single write keeps is kept by all of them. -/
theorem write_invariant {R : Outputs → Outputs → Prop}
    (keep : ∀ o o' w, R o o' → R (o.apply w) (o'.apply w)) {o o' : Outputs} (h : R o o')
    (ws : List Write) : R (o.write ws) (o'.write ws) := by
  unfold write
  induction ws generalizing o o' with
  | nil => exact h
  | cons w rest ih => exact ih (keep o o' w h)

/-- No write decides about a signal. -/
theorem signalsIdempotent_write (o : Outputs) (ws : List Write) :
    (o.write ws).counters.signalsIdempotent = o.counters.signalsIdempotent := by
  unfold write
  refine List.foldlRecOn (motive := fun o' : Outputs =>
    o'.counters.signalsIdempotent = o.counters.signalsIdempotent) _ _ rfl fun o' ho' w _ => ?_
  cases w <;> exact ho'

end Outputs

namespace Traversal

open Lib.Turns (Turn)

variable {pq : EntryQueue} {ctx : TraversalContext} {t u : Traversal pq} {α : Type}

def outputs (t : Traversal pq) : Outputs := ⟨t.acc, t.counters, t.truncated⟩

/-- The same traversal on other outputs. -/
def withOutputs (t : Traversal pq) (o : Outputs) : Traversal pq :=
  { t with acc := o.acc, counters := o.counters, truncated := o.truncated }

def EdgeStep.withOutputs (r : EdgeStep pq) (o : Outputs) : EdgeStep pq :=
  match r with
  | .refused t stop => .refused (t.withOutputs o) stop
  | .crossed t => .crossed (t.withOutputs o)
  | .exhausted t => .exhausted (t.withOutputs o)

def turnWithOutputs (r : Turn (Traversal pq)) (o : Outputs) : Turn (Traversal pq) :=
  match r with
  | .again t => .again (t.withOutputs o)
  | .stop t => .stop (t.withOutputs o)

def flushWithOutputs (r : Traversal pq × Bool) (o : Outputs) : Traversal pq × Bool :=
  (r.1.withOutputs o, r.2)

/-- On all outputs the step comes to the same result and makes the same writes. -/
def Scribes (put : α → Outputs → α) (f : Traversal pq → α) (t : Traversal pq) : Prop :=
  ∃ ws r, ∀ o, f (t.withOutputs o) = put r (o.write ws)

variable {put : α → Outputs → α} {f : Traversal pq → Traversal pq} {g : Traversal pq → α}

theorem Scribes.comp (hf : Scribes withOutputs f t) (hg : ∀ u, Scribes put g u) :
    Scribes put (fun t => g (f t)) t := by
  obtain ⟨ws, u, hu⟩ := hf
  obtain ⟨ws', r, hr⟩ := hg u
  refine ⟨ws ++ ws', r, fun o => ?_⟩
  dsimp only
  rw [hu, hr, Outputs.write_append]

theorem Scribes.foldl {β : Type} {f : Traversal pq → β → Traversal pq}
    (hf : ∀ b u, Scribes withOutputs (f · b) u) (l : List β) (t : Traversal pq) :
    Scribes withOutputs (fun t => l.foldl f t) t := by
  induction l generalizing t with
  | nil => exact ⟨[], t, fun o => rfl⟩
  | cons b rest ih => exact (hf b t).comp fun u => ih u

/-- A step whose writes are counted in the counters alone. -/
theorem scribes_count (share : EngineCounters) (u : Traversal pq)
    (h : ∀ o, f (t.withOutputs o) =
      u.withOutputs { o with counters := o.counters.add share }) : Scribes withOutputs f t :=
  ⟨[.count share], u, h⟩

theorem scribes_countConsidered (t : Traversal pq) : Scribes withOutputs countConsidered t :=
  scribes_count { hopsConsidered := 1 } t fun o => by
    simp [countConsidered, withOutputs, EngineCounters.add]

theorem scribes_noteTruncation (t : Traversal pq) : Scribes withOutputs noteTruncation t :=
  ⟨[.truncate, .count { recordTruncations := 1 }], t, fun o => by
    simp [noteTruncation, withOutputs, EngineCounters.add, Outputs.write, Outputs.apply]⟩

theorem scribes_reject (edge : DependencyEdge) (depth : Nat) (reason : SuppressionReason)
    (verdict : HopVerdict) (t : Traversal pq) :
    Scribes withOutputs (fun t => t.reject edge depth reason verdict) t := by
  refine scribes_count (EngineCounters.countRefusal {} reason verdict)
    { t with pending := Function.update t.pending reason ((t.pending reason).add edge depth) }
    fun o => ?_
  simp [reject, withOutputs, EngineCounters.add, EngineCounters.countRefusal]

theorem flushSlot_withOutputs (s : Traversal pq × Bool) (slot : SuppressionReason) (o : Outputs) :
    flushSlot (flushWithOutputs s o) slot = flushWithOutputs (flushSlot s slot) o := by
  obtain ⟨t, b⟩ := s
  unfold flushSlot flushWithOutputs
  dsimp only [withOutputs]
  split
  · rfl
  · split <;> rfl

/-- A flush writes none of the outputs. -/
theorem flushSuppressions_withOutputs (t : Traversal pq) (o : Outputs) :
    (t.withOutputs o).flushSuppressions = flushWithOutputs t.flushSuppressions o := by
  have hfold : ∀ (l : List SuppressionReason) (s : Traversal pq × Bool),
      l.foldl flushSlot (flushWithOutputs s o) = flushWithOutputs (l.foldl flushSlot s) o := by
    intro l
    induction l with
    | nil => exact fun s => rfl
    | cons slot rest ih =>
      intro s
      rw [List.foldl_cons, flushSlot_withOutputs, ih, List.foldl_cons]
  unfold flushSuppressions
  exact hfold _ (t, true)

theorem scribes_flushOrTruncate (t : Traversal pq) : Scribes withOutputs flushOrTruncate t := by
  obtain ⟨ws, u, hu⟩ := scribes_noteTruncation t.flushSuppressions.1
  by_cases hflushed : t.flushSuppressions.2 = true
  · refine ⟨[], t.flushSuppressions.1, fun o => ?_⟩
    unfold flushOrTruncate
    rw [flushSuppressions_withOutputs]
    exact if_pos hflushed
  · refine ⟨ws, u, fun o => ?_⟩
    unfold flushOrTruncate
    rw [flushSuppressions_withOutputs]
    exact (if_neg hflushed).trans (hu o)

theorem beginNode_withOutputs (t : Traversal pq) (node : Nat) (o : Outputs) :
    (t.withOutputs o).beginNode node = flushWithOutputs (t.beginNode node) o := by
  unfold beginNode
  rw [flushSuppressions_withOutputs]
  change (if t.currentNode = some node then _ else _) = _
  split <;> rfl

theorem scribes_suppressEdge (ctx : TraversalContext) (depth : Nat) (reason : SuppressionReason)
    (edgeIndex : Nat) (t : Traversal pq) :
    Scribes withOutputs (fun t => suppressEdge ctx depth reason t edgeIndex) t := by
  unfold suppressEdge
  cases ctx.topo.edgeAt edgeIndex with
  | none => exact scribes_countConsidered t
  | some edge => exact (scribes_countConsidered t).comp (scribes_reject edge depth reason .suppressed)

theorem scribes_suppressAll (ctx : TraversalContext) (node depth : Nat)
    (reason : SuppressionReason) (t : Traversal pq) :
    Scribes withOutputs (fun t => t.suppressAll ctx node depth reason) t :=
  (Scribes.foldl (scribes_suppressEdge ctx depth reason) _ t).comp scribes_flushOrTruncate

theorem scribes_block (node : Nat) (res : Resource) (reason : SuppressionReason)
    (t : Traversal pq) : Scribes withOutputs (fun t => t.block node res reason) t :=
  ⟨[.update node res.id fun a => { a with blockedReason := reason }], t, fun _ => rfl⟩

theorem scribes_fenceOff (node : Nat) (res : Resource) (fence : Fence) (t : Traversal pq) :
    Scribes withOutputs (fun t => t.fenceOff node res fence) t :=
  ⟨[.update node res.id fun a => { a with blockedReason := .fenced, governingFence := fence.id },
    .count { fenceRejections := 1 }], t, fun o => by
      simp [fenceOff, withOutputs, EngineCounters.add, Outputs.write, Outputs.apply]⟩

theorem scribes_countSettlement (depth : Nat) (t : Traversal pq) :
    Scribes withOutputs (fun t => t.countSettlement depth) t :=
  scribes_count { nodesSettled := 1, peakDepth := depth } (t.countSettlement depth) fun o => by
    simp [countSettlement, withOutputs, EngineCounters.add]

theorem scribes_recordSettlement (ctx : TraversalContext) (entry : QueueEntry) (res : Resource)
    (t : Traversal pq) : Scribes withOutputs (fun t => t.recordSettlement ctx entry res) t :=
  ⟨[.update entry.node res.id (settleAccumulator ctx entry)], t, fun _ => rfl⟩

theorem scribes_noteAmplification (t : Traversal pq) : Scribes withOutputs noteAmplification t :=
  scribes_count { amplifications := 1 } t.noteAmplification fun o => by
    simp [noteAmplification, withOutputs, EngineCounters.add]

theorem scribes_cross (entry : QueueEntry) (res : Resource) (edgeIndex toIndex : Nat)
    (carried : TraversalContext.Carried) (t : Traversal pq) :
    Scribes withOutputs (fun t => t.cross entry res edgeIndex toIndex carried) t := by
  refine ⟨[.update entry.node res.id fun a => { a with forwarded := true },
    .count { hopsPropagated := 1 }], t.cross entry res edgeIndex toIndex carried, fun o => ?_⟩
  unfold cross pushQueue
  dsimp only [withOutputs]
  split <;> simp [EngineCounters.add, Outputs.write, Outputs.apply]

theorem scribes_noteEdge (edge : DependencyEdge) (t : Traversal pq) :
    Scribes withOutputs (noteEdge edge) t := by
  unfold noteEdge
  by_cases hamp : edge.isAmplifying = true
  · simp only [if_pos hamp]
    exact (scribes_countConsidered t).comp scribes_noteAmplification
  · simp only [if_neg hamp]
    exact scribes_countConsidered t

theorem pushHop_withOutputs (t : Traversal pq) (hop : HopRecord) (o : Outputs) :
    (t.withOutputs o).pushHop hop = (t.pushHop hop).map (withOutputs · o) := by
  unfold pushHop withOutputs
  dsimp only
  split <;> rfl

theorem pushQueue_withOutputs (t : Traversal pq) (entry : QueueEntry) (o : Outputs) :
    (t.withOutputs o).pushQueue entry = (t.pushQueue entry).withOutputs o := by
  unfold pushQueue withOutputs
  dsimp only
  split <;> rfl

theorem scribes_expandEdge (ctx : TraversalContext) (entry : QueueEntry) (res : Resource)
    (fanout edgeIndex : Nat) (t : Traversal pq) :
    Scribes EdgeStep.withOutputs (fun t => expandEdge ctx entry res fanout t edgeIndex) t := by
  -- what decides about the edge is not among the outputs
  cases hedge : ctx.topo.edgeAt edgeIndex with
  | none =>
    obtain ⟨ws, u, hu⟩ := scribes_countConsidered t
    refine ⟨ws, .refused u false, fun o => ?_⟩
    exact (expandEdge_missing (t := t.withOutputs o) hedge).trans (congrArg (EdgeStep.refused · false) (hu o))
  | some edge =>
    cases hadm : ctx.admits t.settled t.expansions fanout entry edgeIndex edge with
    | error refusal =>
      obtain ⟨reason, verdict⟩ := refusal
      obtain ⟨ws, u, hu⟩ :=
        (scribes_countConsidered t).comp (scribes_reject edge entry.depth reason verdict)
      refine ⟨ws, .refused u (reason == .expansionBudgetExhausted), fun o => ?_⟩
      exact (expandEdge_inadmissible (t := t.withOutputs o) hedge hadm).trans
        (congrArg (EdgeStep.refused · _) (hu o))
    | ok toIndex =>
      cases hcar : ctx.carries entry edge with
      | error refusal =>
        obtain ⟨reason, verdict⟩ := refusal
        obtain ⟨ws, u, hu⟩ :=
          (scribes_countConsidered t).comp (scribes_reject edge entry.depth reason verdict)
        refine ⟨ws, .refused u false, fun o => ?_⟩
        exact (expandEdge_uncarried (t := t.withOutputs o) hedge hadm hcar).trans
          (congrArg (EdgeStep.refused · _) (hu o))
      | ok carried =>
        cases hdamp : ctx.damps edge carried.next with
        | some reason =>
          obtain ⟨ws, u, hu⟩ :=
            (scribes_noteEdge edge t).comp (scribes_reject edge entry.depth reason .suppressed)
          refine ⟨ws, .refused u false, fun o => ?_⟩
          exact (expandEdge_damped (t := t.withOutputs o) hedge hadm hcar hdamp).trans
            (congrArg (EdgeStep.refused · _) (hu o))
        | none =>
          obtain ⟨ws, u, hu⟩ := scribes_noteEdge edge t
          have hpushed : ∀ o, (noteEdge edge (t.withOutputs o)).pushHop
              (acceptedHop entry res edge carried) =
                (u.pushHop (acceptedHop entry res edge carried)).map
                  (withOutputs · (o.write ws)) := fun o => by rw [hu, pushHop_withOutputs]
          cases hpush : u.pushHop (acceptedHop entry res edge carried) with
          | none =>
            obtain ⟨ws', v, hv⟩ := scribes_noteTruncation u
            refine ⟨ws ++ ws', .exhausted v, fun o => ?_⟩
            have hnone := hpushed o
            rw [hpush, Option.map_none] at hnone
            refine (expandEdge_exhausted (t := t.withOutputs o) hedge hadm hcar hdamp hnone).trans ?_
            rw [hu, hv, ← Outputs.write_append]
            rfl
          | some v =>
            obtain ⟨ws', w, hw⟩ := scribes_cross entry res edgeIndex toIndex carried v
            refine ⟨ws ++ ws', .crossed w, fun o => ?_⟩
            have hsome := hpushed o
            rw [hpush, Option.map_some] at hsome
            refine (expandEdge_crossed (t := t.withOutputs o) hedge hadm hcar hdamp hsome).trans ?_
            rw [Outputs.write_append]
            exact congrArg EdgeStep.crossed (hw _)

theorem scribes_expandEdges (ctx : TraversalContext) (entry : QueueEntry) (res : Resource)
    (l : List Nat) (fanout : Nat) (budgetStop : Bool) (t : Traversal pq) :
    Scribes turnWithOutputs (expandEdges ctx entry res l fanout budgetStop) t := by
  induction l generalizing fanout budgetStop t with
  | nil =>
    refine ⟨[], if budgetStop then .stop t else .again t, fun o => ?_⟩
    rw [expandEdges]
    cases budgetStop <;> rfl
  | cons i rest ih =>
    obtain ⟨ws, r, hr⟩ := scribes_expandEdge ctx entry res fanout i t
    dsimp only at hr
    cases r with
    | refused u stop =>
      obtain ⟨ws', r', hr'⟩ := ih fanout (budgetStop || stop) u
      refine ⟨ws ++ ws', r', fun o => ?_⟩
      rw [expandEdges, hr, Outputs.write_append]
      exact hr' _
    | crossed u =>
      obtain ⟨ws', r', hr'⟩ := ih (fanout + 1) budgetStop u
      refine ⟨ws ++ ws', r', fun o => ?_⟩
      rw [expandEdges, hr, Outputs.write_append]
      exact hr' _
    | exhausted u =>
      refine ⟨ws, .stop u, fun o => ?_⟩
      rw [expandEdges, hr]
      rfl

theorem scribes_expand (ctx : TraversalContext) (entry : QueueEntry) (res : Resource)
    (t : Traversal pq) : Scribes turnWithOutputs (fun t => t.expand ctx entry res) t := by
  have hagain : ∀ {f : Traversal pq → Traversal pq} {t : Traversal pq},
      Scribes withOutputs f t → Scribes turnWithOutputs (fun t => .again (f t)) t := by
    rintro f t ⟨ws, u, hu⟩
    exact ⟨ws, .again u, fun o => congrArg Turn.again (hu o)⟩
  unfold expand
  by_cases hdepth : ctx.authorityHops ≤ entry.depth
  · simp only [if_pos hdepth]
    exact hagain (scribes_suppressAll ctx entry.node entry.depth .maxHops t)
  · simp only [if_neg hdepth]
    by_cases hforward : (!res.canForward) = true
    · simp only [if_pos hforward]
      exact hagain ((scribes_block entry.node res .protectedBoundary t).comp
        (scribes_suppressAll ctx entry.node entry.depth .protectedBoundary))
    · simp only [if_neg hforward]
      cases ctx.egressFence res.id with
      | some fence =>
        exact hagain ((scribes_fenceOff entry.node res fence t).comp
          (scribes_suppressAll ctx entry.node entry.depth .fenced))
      | none => exact scribes_expandEdges ctx entry res _ 0 false t

theorem scribes_openTurn (ctx : TraversalContext) (entry : QueueEntry) (res : Resource)
    (t : Traversal pq) : Scribes turnWithOutputs (openTurn ctx entry res) t := by
  obtain ⟨ws, r, hr⟩ := ((scribes_countSettlement entry.depth (t.beginNode entry.node).1).comp
    (scribes_recordSettlement ctx entry res)).comp (scribes_expand ctx entry res)
  obtain ⟨ws', u, hu⟩ := scribes_noteTruncation (t.beginNode entry.node).1
  have hbegun := beginNode_withOutputs t entry.node
  by_cases hfull : (!(t.beginNode entry.node).2) = true
  · refine ⟨ws', .stop u, fun o => ?_⟩
    unfold openTurn
    rw [hbegun]
    exact (if_pos hfull).trans (congrArg Turn.stop (hu o))
  · refine ⟨ws, r, fun o => ?_⟩
    unfold openTurn
    rw [hbegun]
    exact (if_neg hfull).trans (hr o)

theorem scribes_turn (ctx : TraversalContext) (t : Traversal pq) :
    Scribes turnWithOutputs (turn ctx) t := by
  cases hpop : pq.pop t.queue with
  | none => exact ⟨[], .stop t, fun o => turn_empty (t := t.withOutputs o) hpop⟩
  | some popped =>
    obtain ⟨entry, queue⟩ := popped
    by_cases hvisited : ctx.policy.maxVisited.toNat ≤ t.visited
    · refine ⟨[.count { budgetExhaustions := 1 }], .stop t, fun o => ?_⟩
      rw [turn_visited (t := t.withOutputs o) hpop hvisited]
      simp [turnWithOutputs, withOutputs, EngineCounters.add, Outputs.write, Outputs.apply]
    by_cases hskip : ctx.topo.resources.length ≤ entry.node ∨ entry.node ∈ t.settled
    · exact ⟨[], .again { t with queue }, fun o =>
        turn_skip (t := t.withOutputs o) hpop (Nat.lt_of_not_le hvisited) hskip⟩
    obtain ⟨hlen, hset⟩ := not_or.mp hskip
    have hres : ctx.topo.resourceAt entry.node = some ctx.topo.resources[entry.node] :=
      List.getElem?_eq_getElem (Nat.lt_of_not_le hlen)
    obtain ⟨ws, r, hr⟩ := scribes_openTurn ctx entry ctx.topo.resources[entry.node]
      { t with queue, settled := entry.node :: t.settled }
    refine ⟨ws, r, fun o => ?_⟩
    exact (turn_open (t := t.withOutputs o) hpop (Nat.lt_of_not_le hvisited) hset hres).trans (hr o)

/-! ## The whole traversal -/

theorem scribes_turns (ctx : TraversalContext) (n : Nat) (t : Traversal pq) :
    Scribes withOutputs (Lib.Turns.run (turn ctx) n) t := by
  induction n generalizing t with
  | zero => exact ⟨[], t, fun o => rfl⟩
  | succ n ih =>
    obtain ⟨ws, r, hr⟩ := scribes_turn ctx t
    cases r with
    | stop u =>
      refine ⟨ws, u, fun o => ?_⟩
      rw [Lib.Turns.run, hr]
      rfl
    | again u =>
      obtain ⟨ws', v, hv⟩ := ih u
      refine ⟨ws ++ ws', v, fun o => ?_⟩
      rw [Lib.Turns.run, hr, Outputs.write_append]
      exact hv _

theorem scribes_loop (ctx : TraversalContext) (t : Traversal pq) :
    Scribes withOutputs (loop ctx) t :=
  (scribes_turns ctx (fuel ctx) t).comp scribes_flushOrTruncate

def enterWithOutputs (r : Except (Status × Traversal pq) (Traversal pq)) (o : Outputs) :
    Except (Status × Traversal pq) (Traversal pq) :=
  match r with
  | .error (st, t) => .error (st, t.withOutputs o)
  | .ok t => .ok (t.withOutputs o)

theorem scribes_blockOrigin (ctx : TraversalContext) (i : Nat) (origin : Resource)
    (reason : SuppressionReason) (t : Traversal pq) :
    Scribes withOutputs (fun t => t.blockOrigin ctx i origin reason) t := by
  have hmark : Scribes withOutputs (fun t : Traversal pq => { t with
      acc := t.acc.update i origin.id fun a => { a with received := false, blockedReason := reason } })
      t := ⟨[.update i origin.id fun a => { a with received := false, blockedReason := reason }], t,
    fun _ => rfl⟩
  exact hmark.comp (scribes_suppressAll ctx i 0 reason)

theorem scribes_enter (ctx : TraversalContext) (t : Traversal pq) :
    Scribes enterWithOutputs (enter ctx) t := by
  unfold enter
  cases ctx.topo.indexOf ctx.signal.origin with
  | none => exact ⟨[], .error (_, t), fun o => rfl⟩
  | some i =>
    dsimp only
    cases ctx.topo.resourceAt i with
    | none => exact ⟨[], .error (_, t), fun o => rfl⟩
    | some origin =>
      by_cases hzero : ctx.seed.isZero = true
      · simp only [if_pos hzero]
        exact ⟨[], .error (_, t), fun o => rfl⟩
      have hdone : ∀ {f : Traversal pq → Traversal pq}, Scribes withOutputs f t →
          Scribes enterWithOutputs (fun t => .error (.success, f t)) t := by
        rintro f ⟨ws, u, hu⟩
        exact ⟨ws, .error (.success, u), fun o => congrArg (fun v => Except.error (Status.success, v)) (hu o)⟩
      have htouch : Scribes withOutputs (fun t : Traversal pq => { noteGrants ctx t with
          acc := (noteGrants ctx t).acc.update i origin.id id }) t :=
        ⟨[.update i origin.id id], noteGrants ctx t, fun _ => rfl⟩
      simp only [if_neg hzero]
      cases ctx.ingressFence origin.id with
      | some fence =>
        have hfence : ∀ u : Traversal pq, Scribes withOutputs (fun u : Traversal pq => { u with
            acc := u.acc.update i origin.id fun a => { a with governingFence := fence.id }
            counters := { u.counters with fenceRejections := u.counters.fenceRejections + 1 } }) u :=
          fun u => ⟨[.update i origin.id fun a => { a with governingFence := fence.id },
            .count { fenceRejections := 1 }], u, fun o => by
              simp [withOutputs, EngineCounters.add, Outputs.write, Outputs.apply]⟩
        exact hdone ((htouch.comp hfence).comp (scribes_blockOrigin ctx i origin .fenced))
      | none =>
        by_cases hrecv : (!origin.canReceive) = true
        · simp only [if_pos hrecv]
          exact hdone (htouch.comp (scribes_blockOrigin ctx i origin origin.blockReason))
        · simp only [if_neg hrecv]
          exact ⟨[.update i origin.id id], .ok ((noteGrants ctx t).pushQueue (originEntry ctx i)),
            fun o => congrArg Except.ok (pushQueue_withOutputs (noteGrants ctx t)
              (originEntry ctx i) (o.write [.update i origin.id id]))⟩

/-- A traversal on other outputs: the same end, with the same writes. -/
theorem run_withOutputs (ctx : TraversalContext) (t : Traversal pq) :
    ∃ ws st, ∃ u : Traversal pq, ∀ o,
      (t.withOutputs o).run ctx = (st, u.withOutputs (o.write ws)) := by
  obtain ⟨ws, r, hr⟩ := scribes_enter ctx t
  cases r with
  | error done =>
    refine ⟨ws, done.1, done.2, fun o => ?_⟩
    unfold run
    rw [hr]
    rfl
  | ok u =>
    obtain ⟨ws', v, hv⟩ := scribes_loop ctx u
    refine ⟨ws ++ ws', .success, v, fun o => ?_⟩
    unfold run
    rw [hr, Outputs.write_append]
    exact congrArg (Prod.mk Status.success) (hv _)

theorem signalsIdempotent_run (ctx : TraversalContext) (t : Traversal pq) :
    (t.run ctx).2.counters.signalsIdempotent = t.counters.signalsIdempotent := by
  obtain ⟨ws, st, u, hrun⟩ := run_withOutputs ctx t
  have ht : t.run ctx = (st, u.withOutputs (t.outputs.write ws)) := hrun t.outputs
  rw [ht]
  exact Outputs.signalsIdempotent_write t.outputs ws

theorem settling_withOutputs (ctx : TraversalContext) (t : Traversal pq) (o : Outputs) :
    settling ctx (t.withOutputs o) = settling ctx t := by
  have hbegun : ∀ (entry : QueueEntry) (queue : pq.Carrier),
      (({ t with queue, settled := entry.node :: t.settled }.withOutputs o).beginNode
        entry.node).2 =
          ({ t with queue, settled := entry.node :: t.settled }.beginNode entry.node).2 := by
    intro entry queue
    rw [beginNode_withOutputs]
    rfl
  unfold settling
  unfold withOutputs at hbegun ⊢
  dsimp only at hbegun ⊢
  cases pq.pop t.queue with
  | none => rfl
  | some popped =>
    obtain ⟨entry, queue⟩ := popped
    dsimp only
    rw [hbegun]

theorem log_withOutputs (ctx : TraversalContext) (n : Nat) (t : Traversal pq) (o : Outputs) :
    Lib.Turns.log (settling ctx) (turn ctx) n (t.withOutputs o) =
      Lib.Turns.log (settling ctx) (turn ctx) n t := by
  induction n generalizing t o with
  | zero => rfl
  | succ n ih =>
    obtain ⟨ws, r, hr⟩ := scribes_turn ctx t
    have ht : turn ctx t = turnWithOutputs r (t.outputs.write ws) := hr t.outputs
    rw [Lib.Turns.log, Lib.Turns.log, settling_withOutputs, hr, ht]
    cases r with
    | stop u => rfl
    | again u =>
      dsimp only [turnWithOutputs]
      rw [ih, ih]

/-- The settlements of a traversal do not depend on the outputs it starts from. -/
theorem settlements_withOutputs (ctx : TraversalContext) (t : Traversal pq) (o : Outputs) :
    settlements ctx (t.withOutputs o) = settlements ctx t := by
  obtain ⟨ws, r, hr⟩ := scribes_enter ctx t
  have ht : t.enter ctx = enterWithOutputs r (t.outputs.write ws) := hr t.outputs
  unfold settlements
  rw [hr, ht]
  cases r with
  | error done => rfl
  | ok u =>
    dsimp only [enterWithOutputs]
    rw [log_withOutputs, log_withOutputs]

end Traversal

end Backpressure
