import Backpressure.Engine.Traversal
import Mathlib.Logic.Relation

/-!
# The traversal as a step machine

What one step of a traversal can do to the state that decides where pressure goes: the
queue, the settled resources, the accepted hops and the accumulated contributions.
Everything else a step does is bookkeeping. The loop of the traversal is a chain of steps,
so an invariant needs one case for each kind of step.
-/

namespace Backpressure

open Lib.Turns (Turn Stops)

/-! ## Bookkeeping -/

/-- Equal but for the reason, the fence and the forwarding mark of the resource. -/
def NodeAccumulator.Alike (a b : NodeAccumulator) : Prop :=
  { a with blockedReason := .noReason, governingFence := {}, forwarded := false } =
    { b with blockedReason := .noReason, governingFence := {}, forwarded := false }

namespace NodeAccumulator.Alike

variable {a b c : NodeAccumulator}

theorem refl (a : NodeAccumulator) : a.Alike a := rfl

theorem symm (h : a.Alike b) : b.Alike a := Eq.symm h

theorem trans (h₁ : a.Alike b) (h₂ : b.Alike c) : a.Alike c := Eq.trans h₁ h₂

theorem resource (h : a.Alike b) : b.resource = a.resource :=
  (congrArg NodeAccumulator.resource h).symm

theorem received (h : a.Alike b) : b.received = a.received :=
  (congrArg NodeAccumulator.received h).symm

theorem contributions (h : a.Alike b) : b.contributions = a.contributions :=
  (congrArg NodeAccumulator.contributions h).symm

theorem contributionsTruncated (h : a.Alike b) :
    b.contributionsTruncated = a.contributionsTruncated :=
  (congrArg NodeAccumulator.contributionsTruncated h).symm

end NodeAccumulator.Alike

namespace Accumulators

variable {acc acc' acc'' : Accumulators} {i j : Nat} {id : ResourceId}
  {a : NodeAccumulator} {f : NodeAccumulator → NodeAccumulator}

theorem lookup_update_self : (acc.update i id f).lookup i = some (f (acc.at' i id)) :=
  AList.lookup_insert _

theorem lookup_update_ne (h : j ≠ i) : (acc.update i id f).lookup j = acc.lookup j :=
  AList.lookup_insert_ne h

theorem at'_of_lookup (h : acc.lookup i = some a) : acc.at' i id = a := by simp [at', h]

theorem at'_of_none (h : acc.lookup i = none) : acc.at' i id = { resource := id } := by
  simp [at', h]

/-- The accumulators differ in marks only, but for fresh ones of existing resources. -/
structure Alike (topo : Topology) (acc acc' : Accumulators) : Prop where
  keeps : ∀ i a, acc.lookup i = some a → ∃ a', acc'.lookup i = some a' ∧ a.Alike a'
  adds : ∀ i a', acc'.lookup i = some a' →
    (∃ a, acc.lookup i = some a ∧ a.Alike a') ∨
      ∃ r, topo.resourceAt i = some r ∧ NodeAccumulator.Alike { resource := r.id } a'

namespace Alike

variable {topo : Topology}

theorem refl (acc : Accumulators) : acc.Alike topo acc :=
  ⟨fun _ a h => ⟨a, h, .refl a⟩, fun _ a h => .inl ⟨a, h, .refl a⟩⟩

theorem trans (h₁ : acc.Alike topo acc') (h₂ : acc'.Alike topo acc'') : acc.Alike topo acc'' where
  keeps i a h := by
    obtain ⟨a', h', ha⟩ := h₁.keeps i a h
    obtain ⟨a'', h'', ha'⟩ := h₂.keeps i a' h'
    exact ⟨a'', h'', ha.trans ha'⟩
  adds i a'' h'' := by
    rcases h₂.adds i a'' h'' with ⟨a', h', ha'⟩ | hnew
    · rcases h₁.adds i a' h' with ⟨a, h, ha⟩ | ⟨r, hr, ha⟩
      · exact .inl ⟨a, h, ha.trans ha'⟩
      · exact .inr ⟨r, hr, ha.trans ha'⟩
    · exact .inr hnew

/-- A mark on the accumulator of an existing resource. -/
theorem update {r : Resource} (hr : topo.resourceAt i = some r)
    (hf : ∀ a : NodeAccumulator, a.Alike (f a)) :
    acc.Alike topo (acc.update i r.id f) where
  keeps j a h := by
    by_cases hj : j = i
    · subst hj
      exact ⟨_, lookup_update_self, by rw [at'_of_lookup h]; exact hf a⟩
    · exact ⟨a, by rw [lookup_update_ne hj, h], .refl a⟩
  adds j a' h := by
    by_cases hj : j = i
    · subst hj
      rw [lookup_update_self] at h
      obtain rfl := Option.some.inj h
      cases hl : acc.lookup j with
      | none => exact .inr ⟨r, hr, by rw [at'_of_none hl]; exact hf _⟩
      | some a => exact .inl ⟨a, rfl, by rw [at'_of_lookup hl]; exact hf a⟩
    · rw [lookup_update_ne hj] at h
      exact .inl ⟨a', h, .refl a'⟩

/-- Two updates of one accumulator that differ in marks only. -/
theorem update_congr {g : NodeAccumulator → NodeAccumulator}
    (h : ∀ a : NodeAccumulator, (f a).Alike (g a)) :
    (acc.update i id f).Alike topo (acc.update i id g) where
  keeps j a ha := by
    by_cases hj : j = i
    · subst hj
      rw [lookup_update_self] at ha
      obtain rfl := Option.some.inj ha
      exact ⟨_, lookup_update_self, h _⟩
    · rw [lookup_update_ne hj] at ha
      exact ⟨a, by rw [lookup_update_ne hj, ha], .refl a⟩
  adds j a' ha := by
    by_cases hj : j = i
    · subst hj
      rw [lookup_update_self] at ha
      obtain rfl := Option.some.inj ha
      exact .inl ⟨_, lookup_update_self, h _⟩
    · rw [lookup_update_ne hj] at ha
      exact .inl ⟨a', by rw [lookup_update_ne hj, ha], .refl a'⟩

end Alike

/-- Every accumulator belongs to the resource at its index. -/
def Keyed (topo : Topology) (acc : Accumulators) : Prop :=
  ∀ i a, acc.lookup i = some a → ∃ r, topo.resourceAt i = some r ∧ a.resource = r.id

namespace Keyed

variable {topo : Topology}

theorem empty : Keyed topo ∅ := fun i a h => by
  rw [AList.lookup_empty] at h
  cases h

theorem alike (h : acc.Keyed topo) (halike : acc.Alike topo acc') : acc'.Keyed topo := by
  intro i a' ha'
  rcases halike.adds i a' ha' with ⟨a, ha, hsame⟩ | ⟨r, hr, hsame⟩
  · obtain ⟨r, hr, hid⟩ := h i a ha
    exact ⟨r, hr, hsame.resource.trans hid⟩
  · exact ⟨r, hr, hsame.resource⟩

theorem at' {r : Resource} (h : acc.Keyed topo) (hr : topo.resourceAt i = some r) :
    (acc.at' i r.id).resource = r.id := by
  cases hl : acc.lookup i with
  | none => rw [at'_of_none hl]
  | some a =>
    obtain ⟨r', hr', hid⟩ := h i a hl
    rw [at'_of_lookup hl, hid, Option.some.inj (hr.symm.trans hr')]

theorem update {r : Resource} (h : acc.Keyed topo) (hr : topo.resourceAt i = some r)
    (hf : ∀ a : NodeAccumulator, (f a).resource = a.resource) : (acc.update i r.id f).Keyed topo := by
  intro j a ha
  by_cases hj : j = i
  · subst hj
    rw [lookup_update_self] at ha
    obtain rfl := Option.some.inj ha
    exact ⟨r, hr, (hf _).trans (h.at' hr)⟩
  · rw [lookup_update_ne hj] at ha
    exact h j a ha

end Keyed

theorem update_update {g : NodeAccumulator → NodeAccumulator} :
    (acc.update i id f).update i id g = acc.update i id (g ∘ f) := by
  rw [update, at'_of_lookup lookup_update_self, update, AList.insert_insert]
  rfl

end Accumulators

namespace Traversal

variable {pq : EntryQueue} {ctx : TraversalContext} {t t' t'' u : Traversal pq}

/-- Nothing that decides where pressure goes has changed. -/
structure Tidy (topo : Topology) (t t' : Traversal pq) : Prop where
  queue : t'.queue = t.queue
  settled : t'.settled = t.settled
  visited : t'.visited = t.visited
  expansions : t'.expansions = t.expansions
  hops : t'.expl.hops = t.expl.hops
  source : t'.expl.source = t.expl.source
  accepted : t'.counters.signalsAccepted = t.counters.signalsAccepted
  acc : t.acc.Alike topo t'.acc
  truncated : t.truncated = true → t'.truncated = true

namespace Tidy

variable {topo : Topology}

theorem refl (t : Traversal pq) : t.Tidy topo t :=
  ⟨rfl, rfl, rfl, rfl, rfl, rfl, rfl, .refl _, id⟩

theorem trans (h₁ : t.Tidy topo t') (h₂ : t'.Tidy topo t'') : t.Tidy topo t'' where
  queue := h₂.queue.trans h₁.queue
  settled := h₂.settled.trans h₁.settled
  visited := h₂.visited.trans h₁.visited
  expansions := h₂.expansions.trans h₁.expansions
  hops := h₂.hops.trans h₁.hops
  source := h₂.source.trans h₁.source
  accepted := h₂.accepted.trans h₁.accepted
  acc := h₁.acc.trans h₂.acc
  truncated := h₂.truncated ∘ h₁.truncated

/-- A fold of bookkeeping is bookkeeping. -/
theorem foldl {α : Type} {f : Traversal pq → α → Traversal pq}
    (hf : ∀ (t : Traversal pq) (a : α), t.Tidy topo (f t a)) (l : List α) (t : Traversal pq) : t.Tidy topo (l.foldl f t) := by
  induction l generalizing t with
  | nil => exact refl t
  | cons a rest ih => exact (hf t a).trans (ih (f t a))

end Tidy

variable {topo : Topology}

theorem tidy_noteTruncation : t.Tidy topo t.noteTruncation :=
  ⟨rfl, rfl, rfl, rfl, rfl, rfl, rfl, .refl _, fun _ => rfl⟩

theorem tidy_countConsidered : t.Tidy topo t.countConsidered :=
  ⟨rfl, rfl, rfl, rfl, rfl, rfl, rfl, .refl _, id⟩

theorem tidy_noteAmplification : t.Tidy topo t.noteAmplification :=
  ⟨rfl, rfl, rfl, rfl, rfl, rfl, rfl, .refl _, id⟩

theorem tidy_reject {edge : DependencyEdge} {depth : Nat} {reason : SuppressionReason}
    {verdict : HopVerdict} : t.Tidy topo (t.reject edge depth reason verdict) :=
  ⟨rfl, rfl, rfl, rfl, rfl, rfl, rfl, .refl _, id⟩

theorem tidy_block {node : Nat} {res : Resource} {reason : SuppressionReason}
    (hres : topo.resourceAt node = some res) : t.Tidy topo (t.block node res reason) := by
  refine ⟨rfl, rfl, rfl, rfl, rfl, rfl, rfl, ?_, id⟩
  change t.acc.Alike topo (t.acc.update node res.id fun a => { a with blockedReason := reason })
  exact .update hres fun a => rfl

theorem tidy_fenceOff {node : Nat} {res : Resource} {fence : Fence}
    (hres : topo.resourceAt node = some res) : t.Tidy topo (t.fenceOff node res fence) := by
  refine ⟨rfl, rfl, rfl, rfl, rfl, rfl, rfl, ?_, id⟩
  change t.acc.Alike topo (t.acc.update node res.id fun a =>
    { a with blockedReason := .fenced, governingFence := fence.id })
  exact .update hres fun a => rfl

theorem tidy_flushSlot {s : Traversal pq × Bool} {slot : SuppressionReason} :
    s.1.Tidy topo (flushSlot s slot).1 := by
  unfold flushSlot
  dsimp only
  split
  · exact .refl _
  · split <;> exact ⟨rfl, rfl, rfl, rfl, rfl, rfl, rfl, .refl _, id⟩

theorem tidy_flushSuppressions : t.Tidy topo t.flushSuppressions.1 := by
  unfold flushSuppressions
  suffices h : ∀ (l : List SuppressionReason) (s : Traversal pq × Bool),
      s.1.Tidy topo (l.foldl flushSlot s).1 from h _ (t, true)
  intro l
  induction l with
  | nil => exact fun s => .refl _
  | cons slot rest ih => exact fun s => tidy_flushSlot.trans (ih (flushSlot s slot))

theorem tidy_flushOrTruncate : t.Tidy topo t.flushOrTruncate := by
  unfold flushOrTruncate
  dsimp only
  split
  · exact tidy_flushSuppressions
  · exact tidy_flushSuppressions.trans tidy_noteTruncation

theorem tidy_beginNode {node : Nat} : t.Tidy topo (t.beginNode node).1 := by
  unfold beginNode
  dsimp only
  split
  · exact .refl _
  · exact tidy_flushSuppressions.trans ⟨rfl, rfl, rfl, rfl, rfl, rfl, rfl, .refl _, id⟩

theorem acc_flushSuppressions : t.flushSuppressions.1.acc = t.acc := by
  unfold flushSuppressions
  suffices h : ∀ (l : List SuppressionReason) (s : Traversal pq × Bool),
      (l.foldl flushSlot s).1.acc = s.1.acc from h _ (t, true)
  intro l
  induction l with
  | nil => exact fun s => rfl
  | cons slot rest ih =>
    intro s
    rw [List.foldl_cons, ih]
    unfold flushSlot
    dsimp only
    split
    · rfl
    · split <;> rfl

theorem acc_beginNode {node : Nat} : (t.beginNode node).1.acc = t.acc := by
  unfold beginNode
  split
  · rfl
  · exact acc_flushSuppressions

theorem foldl_flushSlot_idle {l : List SuppressionReason} {s : Traversal pq × Bool}
    (h : ∀ r, (s.1.pending r).count = 0) : l.foldl flushSlot s = s := by
  induction l with
  | nil => rfl
  | cons slot rest ih =>
    have hslot : flushSlot s slot = s := if_pos (h slot)
    rw [List.foldl_cons, hslot, ih]

/-- Without pending refusals a flush does nothing. -/
theorem flushSuppressions_idle (h : ∀ r, (t.pending r).count = 0) :
    t.flushSuppressions = (t, true) := by
  unfold flushSuppressions
  exact foldl_flushSlot_idle h

theorem tidy_suppressEdge {depth : Nat} {reason : SuppressionReason} {edgeIndex : Nat} :
    t.Tidy topo (suppressEdge ctx depth reason t edgeIndex) := by
  unfold suppressEdge
  dsimp only
  split
  · exact tidy_countConsidered
  · exact tidy_countConsidered.trans tidy_reject

theorem tidy_suppressAll {node depth : Nat} {reason : SuppressionReason} :
    t.Tidy topo (t.suppressAll ctx node depth reason) := by
  have hedge : ∀ (u : Traversal pq) (i : Nat), u.Tidy topo (suppressEdge ctx depth reason u i) :=
    fun _ _ => tidy_suppressEdge
  have hfold := Tidy.foldl hedge (ctx.topo.outEdgeIndicesAt node) t
  unfold suppressAll
  exact hfold.trans tidy_flushOrTruncate

/-! ## Steps -/

/-- Between two turns, or expanding the resource just settled. -/
inductive Control
  | idle
  | expanding (entry : QueueEntry) (res : Resource)

/-- A property of the entry and the resource being expanded, if any. -/
def Control.All (P : QueueEntry → Resource → Prop) : Control → Prop
  | .idle => True
  | .expanding entry res => P entry res

/-- A resource that has been settled: out of the queue, with the signal's contribution. -/
def settle (ctx : TraversalContext) (t : Traversal pq) (entry : QueueEntry) (queue : pq.Carrier)
    (res : Resource) : Traversal pq :=
  { t with
    queue
    settled := entry.node :: t.settled
    visited := t.visited + 1
    acc := t.acc.update entry.node res.id (settleAccumulator ctx entry) }

/-- An accepted hop: reported, and its arrival queued. -/
def accept (t : Traversal pq) (entry : QueueEntry) (res : Resource) (edgeIndex : Nat)
    (edge : DependencyEdge) (toIndex : Nat) (carried : TraversalContext.Carried) : Traversal pq :=
  { t with
    queue := pq.push t.queue (arrival entry edgeIndex toIndex carried)
    expansions := t.expansions + 1
    expl := { t.expl with hops := t.expl.hops ++ [acceptedHop entry res edge carried] } }

/-- The resource may be expanded under this entry. -/
structure Expandable (ctx : TraversalContext) (entry : QueueEntry) (res : Resource) : Prop where
  resourceAt : ctx.topo.resourceAt entry.node = some res
  depth : entry.depth < ctx.authorityHops
  forwards : res.canForward = true
  egress : ctx.egressFence res.id = none

/-- Every gate that an accepted edge has passed. -/
structure Crossing (ctx : TraversalContext) (t : Traversal pq) (entry : QueueEntry)
    (edgeIndex : Nat) (edge : DependencyEdge) (toIndex : Nat)
    (carried : TraversalContext.Carried) : Prop where
  outEdge : edgeIndex ∈ ctx.topo.outEdgeIndicesAt entry.node
  edgeAt : ctx.topo.edgeAt edgeIndex = some edge
  admitted : ∃ fanout, ctx.admits t.settled t.expansions fanout entry edgeIndex edge = .ok toIndex
  carries : ctx.carries entry edge = .ok carried
  undamped : ctx.damps edge carried.next = none

/-- One step of a traversal. -/
inductive Step (ctx : TraversalContext) : Control → Traversal pq → Control → Traversal pq → Prop
  /-- Bookkeeping. -/
  | tidy {c : Control} {t t' : Traversal pq} : t.Tidy ctx.topo t' → Step ctx c t c t'
  /-- A popped entry of a resource that is settled already. -/
  | skip {t : Traversal pq} {entry : QueueEntry} {queue : pq.Carrier} :
      pq.pop t.queue = some (entry, queue) →
      (ctx.topo.resources.length ≤ entry.node ∨ entry.node ∈ t.settled) →
      Step ctx .idle t .idle { t with queue }
  /-- A popped entry settles its resource. -/
  | settle {t : Traversal pq} {entry : QueueEntry} {queue : pq.Carrier} {res : Resource} :
      pq.pop t.queue = some (entry, queue) → entry.node ∉ t.settled →
      t.visited < ctx.policy.maxVisited.toNat → ctx.topo.resourceAt entry.node = some res →
      Step ctx .idle t (.expanding entry res) (t.settle ctx entry queue res)
  /-- The record budget ends the traversal at a popped entry. -/
  | abandon {t : Traversal pq} {entry : QueueEntry} {queue : pq.Carrier} {t' : Traversal pq} :
      pq.pop t.queue = some (entry, queue) → entry.node ∉ t.settled →
      Tidy ctx.topo { t with queue, settled := entry.node :: t.settled } t' → t'.truncated = true →
      Step ctx .idle t .idle t'
  /-- An edge of the resource being expanded is crossed. -/
  | accept {t : Traversal pq} {entry : QueueEntry} {res : Resource} {edgeIndex : Nat}
      {edge : DependencyEdge} {toIndex : Nat} {carried : TraversalContext.Carried} :
      Expandable ctx entry res → Crossing ctx t entry edgeIndex edge toIndex carried →
      Step ctx (.expanding entry res) t (.expanding entry res)
        (t.accept entry res edgeIndex edge toIndex carried)
  /-- The resource is done with. -/
  | leave {t : Traversal pq} {entry : QueueEntry} {res : Resource} :
      Step ctx (.expanding entry res) t .idle t

/-- A chain of steps. -/
def Steps (ctx : TraversalContext) (c : Control) (t : Traversal pq) (c' : Control)
    (t' : Traversal pq) : Prop :=
  Relation.ReflTransGen (fun x y : Control × Traversal pq => Step ctx x.1 x.2 y.1 y.2)
    (c, t) (c', t')

variable {c c' c'' : Control}

theorem Steps.refl : Steps ctx c t c t := Relation.ReflTransGen.refl

theorem Step.steps (h : Step ctx c t c' t') : Steps ctx c t c' t' := Relation.ReflTransGen.single h

theorem Steps.trans (h₁ : Steps ctx c t c' t') (h₂ : Steps ctx c' t' c'' t'') :
    Steps ctx c t c'' t'' :=
  Relation.ReflTransGen.trans h₁ h₂

theorem Tidy.steps (h : t.Tidy ctx.topo t') : Steps ctx c t c t' := (Step.tidy h).steps

/-- What every step keeps, a chain of steps keeps. -/
theorem Steps.invariant {P : Control → Traversal pq → Prop} (h : Steps ctx c t c' t')
    (init : P c t) (step : ∀ c t c' t', P c t → Step ctx c t c' t' → P c' t') : P c' t' := by
  suffices hP : ∀ y : Control × Traversal pq, Relation.ReflTransGen
      (fun x y : Control × Traversal pq => Step ctx x.1 x.2 y.1 y.2) (c, t) y → P y.1 y.2 from
    hP _ h
  intro y hy
  induction hy with
  | refl => exact init
  | tail _ hstep ih => exact step _ _ _ _ ih hstep

/-! ## The loop is a chain of steps -/

/-- The gates that an admitted edge has passed. -/
structure Admitted (ctx : TraversalContext) (settled : List Nat) (expansions fanout : Nat)
    (entry : QueueEntry) (edgeIndex : Nat) (edge : DependencyEdge) (toIndex : Nat)
    (toRes : Resource) : Prop where
  fanout : fanout < ctx.policy.maxFanout.toNat
  expansions : expansions < ctx.policy.maxExpansions.toNat
  pin : ctx.pinRefuses edgeIndex edge = false
  attenuation : edge.attenuation.isZero = false
  pressure : edge.flags.has .recoveryOnly = false
  resourceAt : ctx.topo.resourceAt toIndex = some toRes
  target : toRes.id = edge.dst
  receives : toRes.canReceive = true
  unsettled : toIndex ∉ settled
  covered : ctx.signal.authority.covers edge.dst = true
  ingress : ctx.ingressFence edge.dst = none
  hops : entry.depth + 1 ≤ ctx.hopBound edge

theorem of_admits {settled : List Nat} {expansions fanout : Nat} {entry : QueueEntry}
    {edgeIndex : Nat} {edge : DependencyEdge} {toIndex : Nat}
    (h : ctx.admits settled expansions fanout entry edgeIndex edge = .ok toIndex) :
    ∃ toRes, Admitted ctx settled expansions fanout entry edgeIndex edge toIndex toRes := by
  simp only [TraversalContext.admits, guard_eq_ok, not_le, Bool.not_eq_true] at h
  obtain ⟨hfan, hexp, hpin, hatt, hrec, h⟩ := h
  split at h
  · cases h
  case h_2 i hindex =>
    obtain ⟨r, hr, hid⟩ := Topology.resourceAt_of_indexOf hindex
    rw [hr] at h
    simp only [guard_eq_ok, Bool.not_eq_true', Bool.not_eq_false, not_lt, Option.isSome_iff_ne_none,
      ne_eq, not_not, Except.ok.injEq] at h
    obtain ⟨hrecv, hset, hcov, hfence, hhops, rfl⟩ := h
    exact ⟨r, hfan, hexp, hpin, hatt, hrec, hr, hid, hrecv, hset, hcov, hfence, hhops⟩

theorem pushHop_eq_some {hop : HopRecord} (h : t.pushHop hop = some u) :
    t.recordBudget ≠ 0 ∧ u = { t with
      recordBudget := t.recordBudget - 1
      expl := { t.expl with hops := t.expl.hops ++ [hop] } } := by
  unfold pushHop at h
  split at h
  · cases h
  case isFalse hne => exact ⟨hne, (Option.some.inj h).symm⟩

/-- An amplifying edge is noted before it is crossed. -/
def noteEdge (edge : DependencyEdge) (t : Traversal pq) : Traversal pq :=
  if edge.isAmplifying then t.countConsidered.noteAmplification else t.countConsidered

section ExpandEdge

variable {entry : QueueEntry} {res : Resource} {fanout edgeIndex toIndex : Nat}
  {edge : DependencyEdge} {carried : TraversalContext.Carried} {reason : SuppressionReason}
  {verdict : HopVerdict}

theorem expandEdge_missing (hedge : ctx.topo.edgeAt edgeIndex = none) :
    expandEdge ctx entry res fanout t edgeIndex = .refused t.countConsidered false := by
  unfold expandEdge
  rw [hedge]

theorem expandEdge_inadmissible (hedge : ctx.topo.edgeAt edgeIndex = some edge)
    (hadm : ctx.admits t.settled t.expansions fanout entry edgeIndex edge =
      .error (reason, verdict)) :
    expandEdge ctx entry res fanout t edgeIndex =
      .refused (t.countConsidered.reject edge entry.depth reason verdict)
        (reason == .expansionBudgetExhausted) := by
  unfold expandEdge
  rw [hedge]
  dsimp only [countConsidered]
  rw [hadm]

theorem expandEdge_uncarried (hedge : ctx.topo.edgeAt edgeIndex = some edge)
    (hadm : ctx.admits t.settled t.expansions fanout entry edgeIndex edge = .ok toIndex)
    (hcar : ctx.carries entry edge = .error (reason, verdict)) :
    expandEdge ctx entry res fanout t edgeIndex =
      .refused (t.countConsidered.reject edge entry.depth reason verdict) false := by
  unfold expandEdge
  rw [hedge]
  dsimp only [countConsidered]
  rw [hadm]
  dsimp only
  rw [hcar]

theorem expandEdge_damped (hedge : ctx.topo.edgeAt edgeIndex = some edge)
    (hadm : ctx.admits t.settled t.expansions fanout entry edgeIndex edge = .ok toIndex)
    (hcar : ctx.carries entry edge = .ok carried)
    (hdamp : ctx.damps edge carried.next = some reason) :
    expandEdge ctx entry res fanout t edgeIndex =
      .refused ((noteEdge edge t).reject edge entry.depth reason .suppressed) false := by
  unfold expandEdge noteEdge
  rw [hedge]
  dsimp only [countConsidered]
  rw [hadm]
  dsimp only
  rw [hcar]
  dsimp only
  rw [hdamp]

theorem expandEdge_crossed (hedge : ctx.topo.edgeAt edgeIndex = some edge)
    (hadm : ctx.admits t.settled t.expansions fanout entry edgeIndex edge = .ok toIndex)
    (hcar : ctx.carries entry edge = .ok carried) (hdamp : ctx.damps edge carried.next = none)
    (hpush : (noteEdge edge t).pushHop (acceptedHop entry res edge carried) = some u) :
    expandEdge ctx entry res fanout t edgeIndex =
      .crossed (u.cross entry res edgeIndex toIndex carried) := by
  unfold noteEdge at hpush
  unfold expandEdge
  rw [hedge]
  dsimp only [countConsidered] at hpush ⊢
  rw [hadm]
  dsimp only
  rw [hcar]
  dsimp only
  rw [hdamp]
  dsimp only
  rw [hpush]

theorem expandEdge_exhausted (hedge : ctx.topo.edgeAt edgeIndex = some edge)
    (hadm : ctx.admits t.settled t.expansions fanout entry edgeIndex edge = .ok toIndex)
    (hcar : ctx.carries entry edge = .ok carried) (hdamp : ctx.damps edge carried.next = none)
    (hpush : (noteEdge edge t).pushHop (acceptedHop entry res edge carried) = none) :
    expandEdge ctx entry res fanout t edgeIndex = .exhausted (noteEdge edge t).noteTruncation := by
  unfold noteEdge at hpush ⊢
  unfold expandEdge
  rw [hedge]
  dsimp only [countConsidered] at hpush ⊢
  rw [hadm]
  dsimp only
  rw [hcar]
  dsimp only
  rw [hdamp]
  dsimp only
  rw [hpush]

end ExpandEdge

/-- Crossing an edge is an accepted hop and bookkeeping. -/
theorem tidy_accept_cross {entry : QueueEntry} {res : Resource} (edgeIndex : Nat) {toIndex : Nat}
    {edge : DependencyEdge} {carried : TraversalContext.Carried}
    (hres : ctx.topo.resourceAt entry.node = some res) (hset : toIndex ∉ t.settled)
    (hpush : t.pushHop (acceptedHop entry res edge carried) = some u) :
    Tidy ctx.topo (t.accept entry res edgeIndex edge toIndex carried)
      (u.cross entry res edgeIndex toIndex carried) := by
  obtain ⟨-, rfl⟩ := pushHop_eq_some hpush
  have hnode : (arrival entry edgeIndex toIndex carried).node ∉ t.settled := hset
  refine ⟨?_, ?_, ?_, ?_, ?_, ?_, ?_, ?_, ?_⟩ <;>
    simp only [cross, pushQueue, accept, if_neg hnode, imp_self]
  exact .update hres fun a => rfl

theorem expandEdge_steps {entry : QueueEntry} {res : Resource} {fanout edgeIndex : Nat}
    (hexp : Expandable ctx entry res) (hmem : edgeIndex ∈ ctx.topo.outEdgeIndicesAt entry.node) :
    match expandEdge ctx entry res fanout t edgeIndex with
    | .refused u _ => t.Tidy ctx.topo u
    | .exhausted u => t.Tidy ctx.topo u ∧ u.truncated = true
    | .crossed u => Steps ctx (.expanding entry res) t (.expanding entry res) u := by
  unfold expandEdge
  dsimp only
  cases hedge : ctx.topo.edgeAt edgeIndex with
  | none => exact tidy_countConsidered
  | some edge =>
    dsimp only
    cases hadm : ctx.admits t.countConsidered.settled t.countConsidered.expansions fanout entry
        edgeIndex edge with
    | error refusal => exact tidy_countConsidered.trans tidy_reject
    | ok toIndex =>
      cases hcar : ctx.carries entry edge with
      | error refusal => exact tidy_countConsidered.trans tidy_reject
      | ok carried =>
        -- an amplifying edge is noted before the floor and the damping are looked at
        have hnoted : t.Tidy ctx.topo
            (if edge.isAmplifying then t.countConsidered.noteAmplification
              else t.countConsidered) := by
          split
          · exact tidy_countConsidered.trans tidy_noteAmplification
          · exact tidy_countConsidered
        dsimp only
        revert hnoted
        generalize (if edge.isAmplifying then t.countConsidered.noteAmplification
          else t.countConsidered) = noted
        intro hnoted
        cases hdamp : ctx.damps edge carried.next with
        | some reason => exact hnoted.trans tidy_reject
        | none =>
          dsimp only
          cases hpush : noted.pushHop (acceptedHop entry res edge carried) with
          | none => exact ⟨hnoted.trans tidy_noteTruncation, rfl⟩
          | some v =>
            obtain ⟨toRes, hadmitted⟩ := of_admits hadm
            have hset : toIndex ∉ noted.settled := hnoted.settled ▸ hadmitted.unsettled
            have hcross : Crossing ctx noted entry edgeIndex edge toIndex carried :=
              ⟨hmem, hedge, ⟨fanout, by rw [hnoted.settled, hnoted.expansions]; exact hadm⟩, hcar,
                hdamp⟩
            exact (hnoted.steps.trans (Step.accept hexp hcross).steps).trans
              (tidy_accept_cross edgeIndex hexp.resourceAt hset hpush).steps

theorem expandEdges_steps {entry : QueueEntry} {res : Resource} (hexp : Expandable ctx entry res)
    (l : List Nat) (hl : ∀ i ∈ l, i ∈ ctx.topo.outEdgeIndicesAt entry.node) (fanout : Nat)
    (budgetStop : Bool) (t : Traversal pq) :
    Steps ctx (.expanding entry res) t (.expanding entry res)
      (expandEdges ctx entry res l fanout budgetStop t).state := by
  induction l generalizing fanout budgetStop t with
  | nil =>
    rw [expandEdges]
    split <;> exact .refl
  | cons i rest ih =>
    have hstep := @expandEdge_steps pq ctx t entry res fanout i hexp (hl i List.mem_cons_self)
    have hrest : ∀ j ∈ rest, j ∈ ctx.topo.outEdgeIndicesAt entry.node :=
      fun j hj => hl j (List.mem_cons_of_mem i hj)
    rw [expandEdges]
    cases hedge : expandEdge ctx entry res fanout t i with
    | refused u stop =>
      rw [hedge] at hstep
      exact hstep.steps.trans (ih hrest _ _ u)
    | crossed u =>
      rw [hedge] at hstep
      exact hstep.trans (ih hrest _ _ u)
    | exhausted u =>
      rw [hedge] at hstep
      exact hstep.1.steps

theorem expand_steps {entry : QueueEntry} {res : Resource}
    (hres : ctx.topo.resourceAt entry.node = some res) :
    Steps ctx (.expanding entry res) t .idle (t.expand ctx entry res).state := by
  unfold expand
  split
  · exact tidy_suppressAll.steps.trans Step.leave.steps
  case isFalse hdepth =>
    split
    · exact ((tidy_block hres).trans tidy_suppressAll).steps.trans Step.leave.steps
    case isFalse hforward =>
      cases hfence : ctx.egressFence res.id with
      | some fence => exact ((tidy_fenceOff hres).trans tidy_suppressAll).steps.trans Step.leave.steps
      | none =>
        have hexp : Expandable ctx entry res :=
          ⟨hres, Nat.lt_of_not_le hdepth, by simpa using hforward, hfence⟩
        exact (expandEdges_steps hexp _ (fun _ h => h) 0 false t).trans Step.leave.steps

/-- Settling a popped entry, with the bookkeeping that surrounds it. -/
theorem tidy_settle {entry : QueueEntry} {queue : pq.Carrier} {res : Resource} :
    Tidy ctx.topo (t.settle ctx entry queue res)
      (((({ t with queue, settled := entry.node :: t.settled }.beginNode
        entry.node).1.countSettlement entry.depth).recordSettlement ctx entry res)) := by
  have h : Tidy ctx.topo { t with queue, settled := entry.node :: t.settled }
      ({ t with queue, settled := entry.node :: t.settled }.beginNode entry.node).1 :=
    tidy_beginNode
  have hacc : ({ t with queue, settled := entry.node :: t.settled }.beginNode entry.node).1.acc =
      t.acc := acc_beginNode
  refine ⟨h.queue, h.settled, ?_, h.expansions, h.hops, h.source, h.accepted, ?_, h.truncated⟩
  · exact congrArg (· + 1) h.visited
  · change (t.acc.update _ _ _).Alike ctx.topo
      ((({ t with queue, settled := entry.node :: t.settled }.beginNode entry.node).1.acc.update
        _ _ _))
    rw [hacc]
    exact .refl _

/-- The turn that settles a resource, once the resource is marked. -/
def openTurn (ctx : TraversalContext) (entry : QueueEntry) (res : Resource) (t : Traversal pq) :
    Turn (Traversal pq) :=
  if !(t.beginNode entry.node).2 then .stop (t.beginNode entry.node).1.noteTruncation
  else (((t.beginNode entry.node).1.countSettlement entry.depth).recordSettlement ctx entry
    res).expand ctx entry res

section Turn

variable {entry : QueueEntry} {queue : pq.Carrier} {res : Resource}

theorem turn_empty (hpop : pq.pop t.queue = none) : turn ctx t = .stop t := by
  unfold turn
  rw [hpop]

theorem turn_visited (hpop : pq.pop t.queue = some (entry, queue))
    (hvisited : ctx.policy.maxVisited.toNat ≤ t.visited) :
    turn ctx t = .stop { t with
      counters := { t.counters with budgetExhaustions := t.counters.budgetExhaustions + 1 } } := by
  unfold turn
  rw [hpop]
  exact if_pos hvisited

theorem turn_skip (hpop : pq.pop t.queue = some (entry, queue))
    (hvisited : t.visited < ctx.policy.maxVisited.toNat)
    (hskip : ctx.topo.resources.length ≤ entry.node ∨ entry.node ∈ t.settled) :
    turn ctx t = .again { t with queue } := by
  unfold turn
  rw [hpop]
  dsimp only
  rw [if_neg (Nat.not_le_of_lt hvisited)]
  rcases hskip with hlen | hset
  · exact if_pos hlen
  · rw [if_pos hset]
    exact ite_self _

theorem turn_open (hpop : pq.pop t.queue = some (entry, queue))
    (hvisited : t.visited < ctx.policy.maxVisited.toNat) (hset : entry.node ∉ t.settled)
    (hres : ctx.topo.resourceAt entry.node = some res) :
    turn ctx t = openTurn ctx entry res { t with queue, settled := entry.node :: t.settled } := by
  have hlen : ¬ctx.topo.resources.length ≤ entry.node :=
    Nat.not_le_of_lt (List.getElem?_eq_some_iff.mp hres).1
  unfold turn openTurn
  rw [hpop]
  dsimp only
  rw [if_neg (Nat.not_le_of_lt hvisited), if_neg hlen, if_neg hset, hres]

end Turn

/-- What one turn of the main loop does. -/
inductive TurnCase (ctx : TraversalContext) (t : Traversal pq) : Turn (Traversal pq) → Prop
  | empty : pq.pop t.queue = none → TurnCase ctx t (.stop t)
  | visited {entry : QueueEntry} {queue : pq.Carrier} {t' : Traversal pq} :
      pq.pop t.queue = some (entry, queue) → ctx.policy.maxVisited.toNat ≤ t.visited →
      t.Tidy ctx.topo t' → t'.truncated = t.truncated → TurnCase ctx t (.stop t')
  | skip {entry : QueueEntry} {queue : pq.Carrier} :
      pq.pop t.queue = some (entry, queue) →
      (ctx.topo.resources.length ≤ entry.node ∨ entry.node ∈ t.settled) →
      TurnCase ctx t (.again { t with queue })
  | abandon {entry : QueueEntry} {queue : pq.Carrier} {t' : Traversal pq} :
      pq.pop t.queue = some (entry, queue) → entry.node ∉ t.settled →
      ({ t with queue, settled := entry.node :: t.settled }.beginNode entry.node).2 = false →
      Tidy ctx.topo { t with queue, settled := entry.node :: t.settled } t' → t'.truncated = true →
      TurnCase ctx t (.stop t')
  | settle {entry : QueueEntry} {queue : pq.Carrier} {res : Resource} {r : Turn (Traversal pq)} :
      pq.pop t.queue = some (entry, queue) → entry.node ∉ t.settled →
      t.visited < ctx.policy.maxVisited.toNat → ctx.topo.resourceAt entry.node = some res →
      Steps ctx (.expanding entry res) (t.settle ctx entry queue res) .idle r.state →
      TurnCase ctx t r

theorem turn_cases (ctx : TraversalContext) (t : Traversal pq) : TurnCase ctx t (turn ctx t) := by
  unfold turn
  cases hpop : pq.pop t.queue with
  | none => exact .empty hpop
  | some popped =>
    obtain ⟨entry, queue⟩ := popped
    dsimp only
    split
    case isTrue hvis =>
      exact .visited hpop hvis ⟨rfl, rfl, rfl, rfl, rfl, rfl, rfl, .refl _, id⟩ rfl
    case isFalse hvis =>
      split
      case isTrue hlen => exact .skip hpop (.inl hlen)
      case isFalse hlen =>
        split
        case isTrue hset => exact .skip hpop (.inr hset)
        case isFalse hset =>
          split
          case isTrue hfull =>
            exact .abandon hpop hset (by simpa using hfull)
              (tidy_beginNode.trans tidy_noteTruncation) rfl
          case isFalse =>
            have hlt : entry.node < ctx.topo.resources.length := Nat.lt_of_not_le hlen
            have hres : ctx.topo.resourceAt entry.node = some ctx.topo.resources[entry.node] :=
              List.getElem?_eq_getElem hlt
            rw [hres]
            exact .settle hpop hset (Nat.lt_of_not_le hvis) hres
              (tidy_settle.steps.trans (expand_steps hres))

theorem turn_steps (ctx : TraversalContext) (t : Traversal pq) :
    Steps ctx .idle t .idle (turn ctx t).state := by
  have hcases := turn_cases ctx t
  revert hcases
  generalize turn ctx t = r
  intro hcases
  cases hcases with
  | empty => exact .refl
  | visited _ _ htidy => exact htidy.steps
  | skip hpop h => exact (Step.skip hpop h).steps
  | abandon hpop hset _ htidy htrunc => exact (Step.abandon hpop hset htidy htrunc).steps
  | settle hpop hset hvis hres hsteps => exact (Step.settle hpop hset hvis hres).steps.trans hsteps

/-! ## Accumulators stay with their resources -/

theorem resource_settle {entry : QueueEntry} {a : NodeAccumulator} :
    (settleAccumulator ctx entry a).resource = a.resource := by
  unfold settleAccumulator
  dsimp only
  split <;> split <;> rfl

theorem keyed_step (h : t.acc.Keyed ctx.topo) (hstep : Step ctx c t c' t') :
    t'.acc.Keyed ctx.topo := by
  cases hstep with
  | tidy htidy => exact h.alike htidy.acc
  | settle _ _ _ hres => exact h.update hres fun _ => resource_settle
  | abandon _ _ htidy => exact h.alike htidy.acc
  | _ => exact h

theorem keyed_steps (h : t.acc.Keyed ctx.topo) (hsteps : Steps ctx c t c' t') :
    t'.acc.Keyed ctx.topo :=
  hsteps.invariant (P := fun _ u => u.acc.Keyed ctx.topo) h fun _ _ _ _ => keyed_step

/-! ## What a chain of steps leaves alone -/

/-- A traversal does not count itself as accepted. -/
theorem accepted_steps (h : Steps ctx c t c' t') :
    t'.counters.signalsAccepted = t.counters.signalsAccepted := by
  refine h.invariant (P := fun _ u => u.counters.signalsAccepted = t.counters.signalsAccepted) rfl
    fun c u c' u' hu hstep => ?_
  cases hstep with
  | tidy htidy => exact htidy.accepted.trans hu
  | abandon _ _ htidy => exact htidy.accepted.trans hu
  | _ => exact hu

theorem source_steps (h : Steps ctx c t c' t') : t'.expl.source = t.expl.source := by
  refine h.invariant (P := fun _ u => u.expl.source = t.expl.source) rfl
    fun c u c' u' hu hstep => ?_
  cases hstep with
  | tidy htidy => exact htidy.source.trans hu
  | abandon _ _ htidy => exact htidy.source.trans hu
  | _ => exact hu

theorem truncated_steps (h : Steps ctx c t c' t') (ht : t.truncated = true) :
    t'.truncated = true := by
  refine h.invariant (P := fun _ u => u.truncated = true) ht fun c u c' u' hu hstep => ?_
  cases hstep with
  | tidy htidy => exact htidy.truncated hu
  | abandon _ _ _ htrunc => exact htrunc
  | _ => exact hu

/-! ## Termination -/

/-- Queued entries and edges that may still be expanded. -/
def measure (ctx : TraversalContext) (t : Traversal pq) : Nat :=
  pq.size t.queue + (ctx.policy.maxExpansions.toNat - t.expansions)

theorem measure_step (h : Step ctx c t c' t') : measure ctx t' ≤ measure ctx t := by
  unfold measure
  cases h with
  | tidy h => rw [h.queue, h.expansions]
  | skip hpop =>
    rw [Lib.PriorityQueue.size_pop hpop]
    dsimp only
    omega
  | settle hpop =>
    rw [Lib.PriorityQueue.size_pop hpop]
    dsimp only [settle]
    omega
  | abandon hpop _ htidy =>
    rw [Lib.PriorityQueue.size_pop hpop, htidy.queue, htidy.expansions]
    dsimp only
    omega
  | accept _ hcross =>
    obtain ⟨fanout, hadm⟩ := hcross.admitted
    obtain ⟨_, hadmitted⟩ := of_admits hadm
    have := hadmitted.expansions
    dsimp only [accept]
    rw [Lib.PriorityQueue.size_push]
    omega
  | leave => exact Nat.le_refl _

theorem measure_steps (h : Steps ctx c t c' t') : measure ctx t' ≤ measure ctx t :=
  h.invariant (P := fun _ u => measure ctx u ≤ measure ctx t) (Nat.le_refl _)
    fun _ _ _ _ hle hstep => (measure_step hstep).trans hle

/-- Every turn that goes on takes an entry out for good. -/
theorem measure_turn (h : turn ctx t = .again t') : measure ctx t' < measure ctx t := by
  have hcases := turn_cases ctx t
  rw [h] at hcases
  cases hcases with
  | skip hpop =>
    unfold measure
    rw [Lib.PriorityQueue.size_pop hpop]
    dsimp only
    omega
  | settle hpop _ _ _ hsteps =>
    refine (measure_steps hsteps).trans_lt ?_
    unfold measure
    rw [Lib.PriorityQueue.size_pop hpop]
    dsimp only [settle]
    omega

/-- The loop of a traversal stops by itself. -/
theorem loop_stops (hsize : pq.size t.queue ≤ 1) :
    Stops (turn ctx) t (Lib.Turns.run (turn ctx) (fuel ctx) t) :=
  Lib.Turns.stops_run (m := measure ctx) (fun _ _ => measure_turn) (by unfold measure fuel; omega)

theorem stops_steps (h : Stops (turn ctx) t u) : Steps ctx .idle t .idle u := by
  refine h.invariant (P := fun v => Steps ctx .idle t .idle v) .refl (fun v v' hv hturn => ?_)
    fun v v' hv hturn => ?_
  all_goals
    have hstep := turn_steps ctx v
    rw [hturn] at hstep
    exact hv.trans hstep

/-! ## The whole traversal -/

/-- Nothing has been traversed yet. -/
structure Fresh (t : Traversal pq) : Prop where
  queue : t.queue = pq.empty
  settled : t.settled = []
  visited : t.visited = 0
  expansions : t.expansions = 0
  hops : t.expl.hops = []
  pending : ∀ r, (t.pending r).count = 0

/-- The origin of the signal. -/
structure Origin (ctx : TraversalContext) (i : Nat) (origin : Resource) : Prop where
  indexOf : ctx.topo.indexOf ctx.signal.origin = some i
  resourceAt : ctx.topo.resourceAt i = some origin
  id : origin.id = ctx.signal.origin

/-- The signal has an origin in the topology and pressure to start with. -/
structure Startable (ctx : TraversalContext) : Prop where
  origin : ∃ i origin, Origin ctx i origin
  seed : ctx.seed.isZero = false

/-- The three ways in which a traversal starts. -/
inductive EnterCase (ctx : TraversalContext) (t : Traversal pq) :
    Except (Status × Traversal pq) (Traversal pq) → Prop
  | refused {st : Status} : st.ok = false → ¬Startable ctx → EnterCase ctx t (.error (st, t))
  | blocked {i : Nat} {origin : Resource} {t' : Traversal pq} :
      Origin ctx i origin → (ctx.ingressFence origin.id ≠ none ∨ origin.canReceive = false) →
      Tidy ctx.topo
        { t with acc := t.acc.update i origin.id fun a => { a with received := false } } t' →
      EnterCase ctx t (.error (.success, t'))
  | seeded {i : Nat} {origin : Resource} {s : Traversal pq} :
      Origin ctx i origin → ctx.ingressFence origin.id = none → origin.canReceive = true →
      Tidy ctx.topo { t with queue := pq.push t.queue (originEntry ctx i) } s →
      s.pending = t.pending → s.truncated = t.truncated → EnterCase ctx t (.ok s)

theorem pushQueue_of_not_mem {entry : QueueEntry} (h : entry.node ∉ t.settled) :
    t.pushQueue entry = { t with queue := pq.push t.queue entry } := if_neg h

theorem enter_cases (ctx : TraversalContext) (fresh : t.Fresh) : EnterCase ctx t (t.enter ctx) := by
  unfold enter
  cases hindex : ctx.topo.indexOf ctx.signal.origin with
  | none =>
    refine .refused rfl fun hstart => ?_
    obtain ⟨i, origin, horigin⟩ := hstart.origin
    exact absurd horigin.indexOf (by simp [hindex])
  | some i =>
    obtain ⟨origin, hres, hid⟩ := Topology.resourceAt_of_indexOf hindex
    have horigin : Origin ctx i origin := ⟨hindex, hres, hid⟩
    dsimp only
    rw [hres]
    dsimp only
    split
    case isTrue hzero => exact .refused rfl fun hstart => by simp [hstart.seed] at hzero
    case isFalse hseed =>
      cases hfence : ctx.ingressFence origin.id with
      | some fence =>
        refine .blocked horigin (.inl (by simp [hfence])) (Tidy.trans ?_ tidy_suppressAll)
        refine ⟨rfl, rfl, rfl, rfl, rfl, rfl, rfl, ?_, id⟩
        dsimp only [noteGrants]
        rw [Accumulators.update_update, Accumulators.update_update]
        exact .update_congr fun a => rfl
      | none =>
        dsimp only
        split
        case isTrue hrecv =>
          refine .blocked horigin (.inr (by simpa using hrecv)) (Tidy.trans ?_ tidy_suppressAll)
          refine ⟨rfl, rfl, rfl, rfl, rfl, rfl, rfl, ?_, id⟩
          dsimp only [noteGrants]
          rw [Accumulators.update_update]
          exact .update_congr fun a => rfl
        case isFalse hrecv =>
          have hnode : (originEntry ctx i).node ∉ t.settled := by simp [fresh.settled]
          have hpush : pushQueue { noteGrants ctx t with acc := t.acc.update i origin.id id }
              (originEntry ctx i) = { noteGrants ctx t with
                acc := t.acc.update i origin.id id
                queue := pq.push t.queue (originEntry ctx i) } := pushQueue_of_not_mem hnode
          change EnterCase ctx t (.ok (pushQueue
            { noteGrants ctx t with acc := t.acc.update i origin.id id } (originEntry ctx i)))
          rw [hpush]
          exact .seeded horigin hfence (by simpa using hrecv)
            ⟨rfl, rfl, rfl, rfl, rfl, rfl, rfl, .update hres .refl, fun h => h⟩ rfl rfl

/-- The three ways in which the traversal of a signal ends. -/
inductive RunCase (ctx : TraversalContext) (t : Traversal pq) : Status × Traversal pq → Prop
  | refused {st : Status} : st.ok = false → ¬Startable ctx → RunCase ctx t (st, t)
  | blocked {i : Nat} {origin : Resource} {t' : Traversal pq} :
      Origin ctx i origin → (ctx.ingressFence origin.id ≠ none ∨ origin.canReceive = false) →
      Tidy ctx.topo
        { t with acc := t.acc.update i origin.id fun a => { a with received := false } } t' →
      RunCase ctx t (.success, t')
  | traversed {i : Nat} {origin : Resource} {s u : Traversal pq} :
      Origin ctx i origin → ctx.ingressFence origin.id = none → origin.canReceive = true →
      t.enter ctx = .ok s →
      Tidy ctx.topo { t with queue := pq.push t.queue (originEntry ctx i) } s →
      s.pending = t.pending → s.truncated = t.truncated → Stops (turn ctx) s u →
      RunCase ctx t (.success, u.flushOrTruncate)

theorem run_cases (ctx : TraversalContext) (fresh : t.Fresh) : RunCase ctx t (t.run ctx) := by
  have hcases := enter_cases ctx fresh
  unfold run
  revert hcases
  generalize henter : t.enter ctx = r
  intro hcases
  cases hcases with
  | refused hst hstart => exact .refused hst hstart
  | blocked horigin hclosed htidy => exact .blocked horigin hclosed htidy
  | seeded horigin hfence hrecv htidy hpending htrunc =>
    refine .traversed horigin hfence hrecv henter htidy hpending htrunc (loop_stops ?_)
    rw [htidy.queue]
    change pq.size (pq.push t.queue _) ≤ 1
    rw [Lib.PriorityQueue.size_push, fresh.queue, Lib.PriorityQueue.size_empty]

theorem final_steps {s : Traversal pq} (htidy : Tidy ctx.topo t s) (hstops : Stops (turn ctx) s u) :
    Steps ctx .idle t .idle u.flushOrTruncate :=
  (htidy.steps.trans (stops_steps hstops)).trans tidy_flushOrTruncate.steps

theorem keyed_run {st : Status} (h : t.acc.Keyed ctx.topo) (hrun : RunCase ctx t (st, t')) :
    t'.acc.Keyed ctx.topo := by
  cases hrun with
  | refused => exact h
  | blocked horigin _ htidy =>
    refine Accumulators.Keyed.alike ?_ htidy.acc
    exact h.update horigin.resourceAt fun _ => rfl
  | @traversed i _ _ _ _ _ _ _ htidy _ _ hstops =>
    have hseeded : { t with queue := pq.push t.queue (originEntry ctx i) }.acc.Keyed ctx.topo := h
    exact keyed_steps hseeded (final_steps htidy hstops)

theorem runCase_source {st : Status} (h : RunCase ctx t (st, t')) :
    t'.expl.source = t.expl.source ∧
      t'.counters.signalsAccepted = t.counters.signalsAccepted := by
  cases h with
  | refused => exact ⟨rfl, rfl⟩
  | blocked _ _ htidy => exact ⟨htidy.source, htidy.accepted⟩
  | traversed _ _ _ _ htidy _ _ hstops =>
    have hsteps := (stops_steps hstops).trans tidy_flushOrTruncate.steps
    exact ⟨(source_steps hsteps).trans htidy.source, (accepted_steps hsteps).trans htidy.accepted⟩

theorem runCase_truncated {st : Status} (h : RunCase ctx t (st, t')) (ht : t.truncated = true) :
    t'.truncated = true := by
  cases h with
  | refused => exact ht
  | blocked _ _ htidy => exact htidy.truncated ht
  | traversed _ _ _ _ _ _ htrunc hstops =>
    exact truncated_steps ((stops_steps hstops).trans tidy_flushOrTruncate.steps) (htrunc.trans ht)

end Traversal

end Backpressure
