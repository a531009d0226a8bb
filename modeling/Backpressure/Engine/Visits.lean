import Backpressure.Engine.Machine

/-!
# The visits of a traversal

A traversal settles resources one after the other, each through the entry popped for it, and
expands the edges of each. What one turn does is said here once: which entry settles, which
edges are crossed, which refusals are noted. Everything known about whole traversals follows by
the log of the loop.
-/

namespace Backpressure

open Lib.Turns (Turn)

namespace Traversal

variable {pq : EntryQueue} {ctx : TraversalContext} {t t' u : Traversal pq}

/-- The entry with which a turn settles its resource, if it settles one. -/
def settling (ctx : TraversalContext) (t : Traversal pq) : Option QueueEntry :=
  match pq.pop t.queue with
  | none => none
  | some (entry, queue) =>
    if ctx.policy.maxVisited.toNat ≤ t.visited then none
    else if ctx.topo.resources.length ≤ entry.node then none
    else if entry.node ∈ t.settled then none
    else if ({ t with queue, settled := entry.node :: t.settled }.beginNode entry.node).2 then
      some entry
    else none

/-- The entries with which the traversal of a signal settles resources, in order. -/
def settlements (ctx : TraversalContext) (t : Traversal pq) : List QueueEntry :=
  match t.enter ctx with
  | .error _ => []
  | .ok seeded => Lib.Turns.log (settling ctx) (turn ctx) (fuel ctx) seeded

/-! ## Noted refusals -/

/-- A refusal for the reason is pending or reported, or the explanation is truncated. -/
def Noted (reason : SuppressionReason) (t : Traversal pq) : Prop :=
  t.truncated = true ∨ (t.pending reason).count ≠ 0 ∨ ∃ r ∈ t.expl.suppressed, r.reason = reason

/-- No noted refusal is forgotten. -/
def Heeds (t t' : Traversal pq) : Prop := ∀ reason, Noted reason t → Noted reason t'

namespace Heeds

theorem refl (t : Traversal pq) : t.Heeds t := fun _ h => h

theorem trans (h₁ : t.Heeds t') (h₂ : t'.Heeds u) : t.Heeds u := fun r h => h₂ r (h₁ r h)

/-- Nothing that notes refusals has changed. -/
theorem of_eq (htrunc : t.truncated = true → t'.truncated = true) (hpending : t'.pending = t.pending)
    (hsuppressed : t'.expl.suppressed = t.expl.suppressed) : t.Heeds t' := by
  intro reason h
  rcases h with h | h | h
  · exact .inl (htrunc h)
  · exact .inr (.inl (hpending ▸ h))
  · exact .inr (.inr (hsuppressed ▸ h))

theorem foldl {α : Type} {f : Traversal pq → α → Traversal pq}
    (hf : ∀ (t : Traversal pq) (a : α), t.Heeds (f t a)) (l : List α) (t : Traversal pq) :
    t.Heeds (l.foldl f t) := by
  induction l generalizing t with
  | nil => exact refl t
  | cons a rest ih => exact (hf t a).trans (ih (f t a))

end Heeds

theorem heeds_noteTruncation : t.Heeds t.noteTruncation := fun _ _ => .inl rfl

theorem count_add {a : SuppressionAggregate} {edge : DependencyEdge} {depth : Nat} :
    (a.add edge depth).count ≠ 0 := by
  unfold SuppressionAggregate.add
  dsimp only
  split_ifs <;> simp_all

theorem noted_reject {edge : DependencyEdge} {depth : Nat} {reason : SuppressionReason}
    {verdict : HopVerdict} : Noted reason (t.reject edge depth reason verdict) := by
  refine .inr (.inl ?_)
  change (Function.update t.pending reason ((t.pending reason).add edge depth) reason).count ≠ 0
  rw [Function.update_self]
  exact count_add

theorem heeds_reject {edge : DependencyEdge} {depth : Nat} {reason : SuppressionReason}
    {verdict : HopVerdict} : t.Heeds (t.reject edge depth reason verdict) := by
  intro r h
  by_cases hr : r = reason
  · subst hr
    exact noted_reject
  · rcases h with h | h | h
    · exact .inl h
    · refine .inr (.inl ?_)
      change (Function.update t.pending reason _ r).count ≠ 0
      rwa [Function.update_of_ne hr]
    · exact .inr (.inr h)

/-- What flushing one slot keeps of every refusal, as long as no record is missing. -/
theorem flushSlot_keeps {s : Traversal pq × Bool} {slot reason : SuppressionReason}
    (hok : (flushSlot s slot).2 = true) (h : Noted reason s.1) :
    s.2 = true ∧ Noted reason (flushSlot s slot).1 ∧
      (slot = reason → (flushSlot s slot).1.truncated = true ∨
        ∃ r ∈ (flushSlot s slot).1.expl.suppressed, r.reason = reason) := by
  unfold flushSlot at hok ⊢
  dsimp only at hok ⊢
  split at hok
  case isTrue hzero =>
    rw [if_pos hzero]
    refine ⟨hok, h, ?_⟩
    rintro rfl
    rcases h with h | h | h
    · exact .inl h
    · exact absurd hzero h
    · exact .inr h
  case isFalse hcount =>
    split at hok
    · cases hok
    case isFalse hbudget =>
      rw [if_neg hcount, if_neg hbudget]
      refine ⟨hok, ?_, ?_⟩
      · rcases h with h | h | ⟨r, hr, hreason⟩
        · exact .inl h
        · by_cases hr : reason = slot
          · subst hr
            exact .inr (.inr ⟨_, List.mem_append_right _ List.mem_cons_self, rfl⟩)
          · refine .inr (.inl ?_)
            dsimp only
            rwa [Function.update_of_ne hr]
        · exact .inr (.inr ⟨r, List.mem_append_left _ hr, hreason⟩)
      · rintro rfl
        exact .inr ⟨_, List.mem_append_right _ List.mem_cons_self, rfl⟩

theorem flushSlot_reported {s : Traversal pq × Bool} {slot reason : SuppressionReason}
    (h : s.1.truncated = true ∨ ∃ r ∈ s.1.expl.suppressed, r.reason = reason) :
    (flushSlot s slot).1.truncated = true ∨
      ∃ r ∈ (flushSlot s slot).1.expl.suppressed, r.reason = reason := by
  unfold flushSlot
  dsimp only
  split_ifs
  · exact h
  · exact h
  · exact h.imp_right fun ⟨r, hr, hreason⟩ => ⟨r, List.mem_append_left _ hr, hreason⟩

/-- A missing record is not made up for by later slots. -/
theorem flushSlots_ok {l : List SuppressionReason} {s : Traversal pq × Bool}
    (h : (l.foldl flushSlot s).2 = true) : s.2 = true := by
  induction l generalizing s with
  | nil => exact h
  | cons slot rest ih =>
    have hslot := ih h
    unfold flushSlot at hslot
    dsimp only at hslot
    split_ifs at hslot
    · exact hslot
    · exact hslot

/-- A flush that has a record for every slot reports every noted refusal. -/
theorem flushSuppressions_reports {reason : SuppressionReason} (hok : t.flushSuppressions.2 = true)
    (h : Noted reason t) : t.flushSuppressions.1.truncated = true ∨
      ∃ r ∈ t.flushSuppressions.1.expl.suppressed, r.reason = reason := by
  unfold flushSuppressions at hok ⊢
  have hkept : ∀ (l : List SuppressionReason) (s : Traversal pq × Bool),
      (l.foldl flushSlot s).2 = true → Noted reason s.1 →
      (reason ∈ l ∨ s.1.truncated = true ∨ ∃ r ∈ s.1.expl.suppressed, r.reason = reason) →
      (l.foldl flushSlot s).1.truncated = true ∨
        ∃ r ∈ (l.foldl flushSlot s).1.expl.suppressed, r.reason = reason := by
    intro l
    induction l with
    | nil =>
      intro s _ _ hmem
      exact hmem.resolve_left List.not_mem_nil
    | cons slot rest ih =>
      intro s hok hnoted hmem
      rw [List.foldl_cons] at hok ⊢
      obtain ⟨-, hnoted', hslot⟩ := flushSlot_keeps (flushSlots_ok hok) hnoted
      refine ih _ hok hnoted' ?_
      rcases hmem with hmem | hmem
      · rcases List.mem_cons.mp hmem with rfl | hmem
        · exact .inr (hslot rfl)
        · exact .inl hmem
      · exact .inr (flushSlot_reported hmem)
  exact hkept _ _ hok h (.inl (SuppressionReason.mem_slots reason))

theorem heeds_flushSuppressions (hok : t.flushSuppressions.2 = true) :
    t.Heeds t.flushSuppressions.1 := by
  intro reason h
  rcases flushSuppressions_reports hok h with h | h
  · exact .inl h
  · exact .inr (.inr h)

/-- After the last flush a noted refusal is reported, or the explanation is truncated. -/
theorem flushOrTruncate_reports {reason : SuppressionReason} (h : Noted reason t) :
    t.flushOrTruncate.truncated = true ∨
      ∃ r ∈ t.flushOrTruncate.expl.suppressed, r.reason = reason := by
  unfold flushOrTruncate
  dsimp only
  split
  case isTrue hok => exact flushSuppressions_reports hok h
  case isFalse => exact .inl rfl

theorem heeds_flushOrTruncate : t.Heeds t.flushOrTruncate := by
  intro reason h
  rcases flushOrTruncate_reports h with h | h
  · exact .inl h
  · exact .inr (.inr h)

theorem heeds_beginNode {node : Nat} (hok : (t.beginNode node).2 = true) :
    t.Heeds (t.beginNode node).1 := by
  unfold beginNode at hok ⊢
  split at hok
  case isTrue h =>
    rw [if_pos h]
    exact .refl t
  case isFalse h =>
    rw [if_neg h]
    exact (heeds_flushSuppressions hok).trans (.of_eq id rfl rfl)

theorem heeds_suppressEdge {depth : Nat} {reason : SuppressionReason} {i : Nat} :
    t.Heeds (suppressEdge ctx depth reason t i) := by
  unfold suppressEdge
  dsimp only
  have hconsidered : t.Heeds t.countConsidered := .of_eq id rfl rfl
  split
  · exact hconsidered
  · exact hconsidered.trans heeds_reject

theorem heeds_suppressAll {node depth : Nat} {reason : SuppressionReason} :
    t.Heeds (t.suppressAll ctx node depth reason) := by
  have hfold : t.Heeds ((ctx.topo.outEdgeIndicesAt node).foldl (suppressEdge ctx depth reason) t) :=
    .foldl (fun _ _ => heeds_suppressEdge) _ t
  unfold suppressAll
  exact hfold.trans heeds_flushOrTruncate

/-- A closed resource notes its reason as soon as it has an edge. -/
theorem noted_suppressAll {node depth : Nat} {reason : SuppressionReason} {i : Nat}
    (hi : i ∈ ctx.topo.outEdgeIndicesAt node) (hedge : ctx.topo.edgeAt i ≠ none) :
    Noted reason (t.suppressAll ctx node depth reason) := by
  have hfold : ∀ (l : List Nat) (t : Traversal pq), i ∈ l →
      Noted reason (l.foldl (suppressEdge ctx depth reason) t) := by
    intro l
    induction l with
    | nil => intro t h; cases h
    | cons j rest ih =>
      intro t hmem
      rw [List.foldl_cons]
      rcases List.mem_cons.mp hmem with rfl | hmem
      · have hhead : Noted reason (suppressEdge ctx depth reason t i) := by
          unfold suppressEdge
          cases hedge' : ctx.topo.edgeAt i with
          | none => exact absurd hedge' hedge
          | some edge => exact noted_reject
        exact Heeds.foldl (fun _ _ => heeds_suppressEdge) rest _ reason hhead
      · exact ih _ hmem
  unfold suppressAll
  exact heeds_flushOrTruncate reason (hfold _ t hi)

/-! ## Crossed edges -/

/-- An edge over which pressure was passed on. -/
structure CrossedEdge where
  edgeIndex : Nat
  edge : DependencyEdge
  toIndex : Nat
  carried : TraversalContext.Carried

namespace CrossedEdge

/-- The hop that reports the crossing. -/
def hop (entry : QueueEntry) (res : Resource) (c : CrossedEdge) : HopRecord :=
  acceptedHop entry res c.edge c.carried

/-- The queued arrival of the crossing. -/
def arrival (entry : QueueEntry) (c : CrossedEdge) : QueueEntry :=
  Traversal.arrival entry c.edgeIndex c.toIndex c.carried

/-- The edge has passed every gate. -/
structure Passed (ctx : TraversalContext) (settled : List Nat) (entry : QueueEntry)
    (c : CrossedEdge) : Prop where
  edgeAt : ctx.topo.edgeAt c.edgeIndex = some c.edge
  admitted : ∃ expansions fanout,
    ctx.admits settled expansions fanout entry c.edgeIndex c.edge = .ok c.toIndex
  carries : ctx.carries entry c.edge = .ok c.carried
  undamped : ctx.damps c.edge c.carried.next = none

end CrossedEdge

/-- The crossing of an edge from an entry, whatever the gates say. -/
def crossingOf (ctx : TraversalContext) (entry : QueueEntry) (i : Nat) : Option CrossedEdge :=
  (ctx.topo.edgeAt i).bind fun edge =>
    (ctx.topo.indexOf edge.dst).bind fun toIndex =>
      (ctx.carries entry edge).toOption.map fun carried => ⟨i, edge, toIndex, carried⟩

/-- The edges that an expansion crosses, of those given. -/
def crossedOf (ctx : TraversalContext) (entry : QueueEntry) (res : Resource) :
    List Nat → Nat → Traversal pq → List CrossedEdge
  | [], _, _ => []
  | i :: rest, fanout, t =>
    match expandEdge ctx entry res fanout t i with
    | .refused t _ => crossedOf ctx entry res rest fanout t
    | .crossed t => (crossingOf ctx entry i).toList ++ crossedOf ctx entry res rest (fanout + 1) t
    | .exhausted _ => []

theorem indexOf_of_admits {settled : List Nat} {expansions fanout : Nat} {entry : QueueEntry}
    {i : Nat} {edge : DependencyEdge} {toIndex : Nat}
    (h : ctx.admits settled expansions fanout entry i edge = .ok toIndex) :
    ctx.topo.indexOf edge.dst = some toIndex := by
  simp only [TraversalContext.admits, guard_eq_ok] at h
  obtain ⟨-, -, -, -, -, h⟩ := h
  split at h
  · cases h
  case h_2 j hindex =>
    split at h
    · cases h
    · simp only [guard_eq_ok, Except.ok.injEq] at h
      obtain ⟨-, -, -, -, -, rfl⟩ := h
      exact hindex

theorem CrossedEdge.Passed.crossingOf {settled : List Nat} {entry : QueueEntry} {c : CrossedEdge}
    (h : c.Passed ctx settled entry) : crossingOf ctx entry c.edgeIndex = some c := by
  obtain ⟨expansions, fanout, hadm⟩ := h.admitted
  unfold Traversal.crossingOf
  rw [h.edgeAt, Option.bind_some, indexOf_of_admits hadm, Option.bind_some, h.carries]
  rfl

/-- Some gate refuses the edge for the reason. -/
def Refuses (ctx : TraversalContext) (settled : List Nat) (entry : QueueEntry) (edgeIndex : Nat)
    (edge : DependencyEdge) (reason : SuppressionReason) : Prop :=
  (∃ expansions fanout verdict,
    ctx.admits settled expansions fanout entry edgeIndex edge = .error (reason, verdict)) ∨
  (∃ verdict, ctx.carries entry edge = .error (reason, verdict)) ∨
  ∃ carried, ctx.carries entry edge = .ok carried ∧ ctx.damps edge carried.next = some reason

/-- What the expansion of some edges of a resource does. -/
structure Expanded (ctx : TraversalContext) (entry : QueueEntry) (res : Resource) (l : List Nat)
    (fanout : Nat) (t : Traversal pq) (crossed : List CrossedEdge) (t' : Traversal pq) : Prop where
  indices : (crossed.map CrossedEdge.edgeIndex).Sublist l
  passed : ∀ c ∈ crossed, c.Passed ctx t.settled entry
  queue : (pq.contents t'.queue).Perm
    (crossed.map (CrossedEdge.arrival entry) ++ pq.contents t.queue)
  hops : t'.expl.hops = t.expl.hops ++ crossed.map (CrossedEdge.hop entry res)
  settled : t'.settled = t.settled
  visited : t'.visited = t.visited
  expansions : t'.expansions = t.expansions + crossed.length
  budget : crossed ≠ [] → t'.expansions ≤ ctx.policy.maxExpansions.toNat
  fanout : crossed ≠ [] → fanout + crossed.length ≤ ctx.policy.maxFanout.toNat
  heeds : t.Heeds t'
  refused : ∀ i ∈ l, i ∈ crossed.map CrossedEdge.edgeIndex ∨ ctx.topo.edgeAt i = none ∨
    t'.truncated = true ∨ ∃ edge reason, ctx.topo.edgeAt i = some edge ∧
      Refuses ctx t.settled entry i edge reason ∧ Noted reason t'

/-- What happens to one out-edge. -/
inductive EdgeCase (ctx : TraversalContext) (entry : QueueEntry) (res : Resource) (fanout : Nat)
    (t : Traversal pq) (i : Nat) : EdgeStep pq → Prop
  | refused {u : Traversal pq} {stop : Bool} : t.Tidy ctx.topo u → t.Heeds u →
      (ctx.topo.edgeAt i = none ∨ ∃ edge reason, ctx.topo.edgeAt i = some edge ∧
        Refuses ctx t.settled entry i edge reason ∧ Noted reason u) →
      EdgeCase ctx entry res fanout t i (.refused u stop)
  | exhausted {u : Traversal pq} : t.Tidy ctx.topo u → t.Heeds u → u.truncated = true →
      EdgeCase ctx entry res fanout t i (.exhausted u)
  | crossed {c : CrossedEdge} {u : Traversal pq} : c.edgeIndex = i → c.Passed ctx t.settled entry →
      fanout < ctx.policy.maxFanout.toNat → t.expansions < ctx.policy.maxExpansions.toNat →
      Tidy ctx.topo (t.accept entry res c.edgeIndex c.edge c.toIndex c.carried) u → t.Heeds u →
      EdgeCase ctx entry res fanout t i (.crossed u)

theorem tidy_accept {entry : QueueEntry} {res : Resource} {i toIndex : Nat} {edge : DependencyEdge}
    {carried : TraversalContext.Carried} (h : t.Tidy ctx.topo u) :
    Tidy ctx.topo (t.accept entry res i edge toIndex carried)
      (u.accept entry res i edge toIndex carried) := by
  refine ⟨?_, h.settled, h.visited, ?_, ?_, h.source, h.accepted, h.acc, h.truncated⟩
  · exact congrArg (fun q => pq.push q (Traversal.arrival entry i toIndex carried)) h.queue
  · exact congrArg (· + 1) h.expansions
  · exact congrArg (· ++ [acceptedHop entry res edge carried]) h.hops

theorem expandEdge_cases {entry : QueueEntry} {res : Resource} (fanout i : Nat)
    (t : Traversal pq) (hres : ctx.topo.resourceAt entry.node = some res) :
    EdgeCase ctx entry res fanout t i (expandEdge ctx entry res fanout t i) := by
  have hconsidered : t.Heeds t.countConsidered := .of_eq id rfl rfl
  unfold expandEdge
  dsimp only
  cases hedge : ctx.topo.edgeAt i with
  | none => exact .refused tidy_countConsidered hconsidered (.inl hedge)
  | some edge =>
    dsimp only
    cases hadm : ctx.admits t.countConsidered.settled t.countConsidered.expansions fanout entry i
        edge with
    | error refusal =>
      refine .refused (tidy_countConsidered.trans tidy_reject) (hconsidered.trans heeds_reject)
        (.inr ⟨edge, refusal.1, hedge, .inl ⟨_, _, refusal.2, hadm⟩, noted_reject⟩)
    | ok toIndex =>
      dsimp only
      cases hcar : ctx.carries entry edge with
      | error refusal =>
        refine .refused (tidy_countConsidered.trans tidy_reject) (hconsidered.trans heeds_reject)
          (.inr ⟨edge, refusal.1, hedge, .inr (.inl ⟨refusal.2, hcar⟩), noted_reject⟩)
      | ok carried =>
        have hnoted : t.Tidy ctx.topo
            (if edge.isAmplifying then t.countConsidered.noteAmplification
              else t.countConsidered) ∧
            t.Heeds (if edge.isAmplifying then t.countConsidered.noteAmplification
              else t.countConsidered) := by
          split
          · exact ⟨tidy_countConsidered.trans tidy_noteAmplification,
              hconsidered.trans (.of_eq id rfl rfl)⟩
          · exact ⟨tidy_countConsidered, hconsidered⟩
        dsimp only
        revert hnoted
        generalize (if edge.isAmplifying then t.countConsidered.noteAmplification
          else t.countConsidered) = noted
        rintro ⟨htidy, hheeds⟩
        cases hdamp : ctx.damps edge carried.next with
        | some reason =>
          refine .refused (htidy.trans tidy_reject) (hheeds.trans heeds_reject)
            (.inr ⟨edge, reason, hedge, .inr (.inr ⟨carried, hcar, hdamp⟩), noted_reject⟩)
        | none =>
          dsimp only
          cases hpush : noted.pushHop (acceptedHop entry res edge carried) with
          | none =>
            exact .exhausted (htidy.trans tidy_noteTruncation)
              (hheeds.trans heeds_noteTruncation) rfl
          | some v =>
            obtain ⟨toRes, hadmitted⟩ := of_admits hadm
            have hset : toIndex ∉ noted.settled := htidy.settled ▸ hadmitted.unsettled
            have hcross := tidy_accept_cross i hres hset hpush
            refine .crossed (c := ⟨i, edge, toIndex, carried⟩) rfl
              ⟨hedge, ⟨_, _, hadm⟩, hcar, hdamp⟩ hadmitted.fanout hadmitted.expansions
              ((tidy_accept htidy).trans hcross) (hheeds.trans ?_)
            obtain ⟨-, rfl⟩ := pushHop_eq_some hpush
            have hnode : (Traversal.arrival entry i toIndex carried).node ∉ noted.settled := hset
            refine .of_eq ?_ ?_ ?_ <;> simp only [cross, pushQueue, if_neg hnode, imp_self]

theorem Expanded.nil {entry : QueueEntry} {res : Resource} {l : List Nat} {fanout : Nat}
    (htidy : t.Tidy ctx.topo u) (hheeds : t.Heeds u)
    (hrefused : ∀ i ∈ l, ctx.topo.edgeAt i = none ∨ u.truncated = true) :
    Expanded ctx entry res l fanout t [] u where
  indices := List.nil_sublist l
  passed c hc := by cases hc
  queue := by rw [htidy.queue]; exact List.Perm.refl _
  hops := by rw [htidy.hops]; exact (List.append_nil _).symm
  settled := htidy.settled
  visited := htidy.visited
  expansions := htidy.expansions
  budget h := absurd rfl h
  fanout h := absurd rfl h
  heeds := hheeds
  refused i hi := .inr ((hrefused i hi).imp_right .inl)

/-- One refused edge before the others. -/
theorem Expanded.refuse {entry : QueueEntry} {res : Resource} {l : List Nat} {fanout i : Nat}
    {crossed : List CrossedEdge} (htidy : t.Tidy ctx.topo u) (hheeds : t.Heeds u)
    (hi : ctx.topo.edgeAt i = none ∨ ∃ edge reason, ctx.topo.edgeAt i = some edge ∧
      Refuses ctx t.settled entry i edge reason ∧ Noted reason u)
    (h : Expanded ctx entry res l fanout u crossed t') :
    Expanded ctx entry res (i :: l) fanout t crossed t' where
  indices := h.indices.cons i
  passed c hc := htidy.settled ▸ h.passed c hc
  queue := htidy.queue ▸ h.queue
  hops := htidy.hops ▸ h.hops
  settled := h.settled.trans htidy.settled
  visited := h.visited.trans htidy.visited
  expansions := htidy.expansions ▸ h.expansions
  budget := h.budget
  fanout := h.fanout
  heeds := hheeds.trans h.heeds
  refused j hj := by
    rcases List.mem_cons.mp hj with rfl | hj
    · rcases hi with hnone | ⟨edge, reason, hedge, href, hnoted⟩
      · exact .inr (.inl hnone)
      · exact .inr (.inr (.inr ⟨edge, reason, hedge, href, h.heeds reason hnoted⟩))
    · rw [← htidy.settled]
      exact h.refused j hj

/-- One crossed edge before the others. -/
theorem Expanded.cross {entry : QueueEntry} {res : Resource} {l : List Nat} {fanout : Nat}
    {c : CrossedEdge} {crossed : List CrossedEdge} (hpassed : c.Passed ctx t.settled entry)
    (hfan : fanout < ctx.policy.maxFanout.toNat)
    (hexp : t.expansions < ctx.policy.maxExpansions.toNat)
    (htidy : Tidy ctx.topo (t.accept entry res c.edgeIndex c.edge c.toIndex c.carried) u)
    (hheeds : t.Heeds u) (h : Expanded ctx entry res l (fanout + 1) u crossed t') :
    Expanded ctx entry res (c.edgeIndex :: l) fanout t (c :: crossed) t' := by
  have hsettled : u.settled = t.settled := htidy.settled
  have hexpansions : u.expansions = t.expansions + 1 := htidy.expansions
  have hqueue : u.queue = pq.push t.queue (c.arrival entry) := htidy.queue
  have hhops : u.expl.hops = t.expl.hops ++ [c.hop entry res] := htidy.hops
  have htotal := h.expansions
  refine ⟨h.indices.cons_cons c.edgeIndex, fun d hd => ?_, ?_, ?_, h.settled.trans hsettled,
    h.visited.trans htidy.visited, ?_, fun _ => ?_, fun _ => ?_, hheeds.trans h.heeds,
    fun i hi => ?_⟩
  · rcases List.mem_cons.mp hd with rfl | hd
    · exact hpassed
    · exact hsettled ▸ h.passed d hd
  · have hperm := h.queue
    rw [hqueue] at hperm
    exact hperm.trans (((pq.contents_push _ _).append_left _).trans List.perm_middle)
  · rw [h.hops, hhops, List.append_assoc]
    rfl
  · rw [List.length_cons]
    omega
  · by_cases hnil : crossed = []
    · rw [hnil, List.length_nil] at htotal
      omega
    · exact h.budget hnil
  · by_cases hnil : crossed = []
    · rw [hnil]
      exact hfan
    · have hrest := h.fanout hnil
      rw [List.length_cons]
      omega
  · rcases List.mem_cons.mp hi with rfl | hi
    · exact .inl List.mem_cons_self
    · rcases h.refused i hi with hmem | hrest
      · exact .inl (List.mem_cons_of_mem _ hmem)
      · rw [← hsettled]
        exact .inr hrest

theorem expandEdges_expanded {entry : QueueEntry} {res : Resource}
    (hres : ctx.topo.resourceAt entry.node = some res) (l : List Nat) (fanout : Nat)
    (budgetStop : Bool) (t : Traversal pq) :
    Expanded ctx entry res l fanout t (crossedOf ctx entry res l fanout t)
      (expandEdges ctx entry res l fanout budgetStop t).state := by
  induction l generalizing fanout budgetStop t with
  | nil =>
    refine .nil ?_ ?_ (by simp)
    · rw [expandEdges]
      split <;> exact .refl t
    · rw [expandEdges]
      split <;> exact .refl t
  | cons i rest ih =>
    have hcase := expandEdge_cases fanout i t hres
    rw [expandEdges, crossedOf]
    generalize expandEdge ctx entry res fanout t i = step at hcase ⊢
    cases hcase with
    | @refused u stop htidy hheeds hrefused =>
      exact (ih fanout (budgetStop || stop) u).refuse htidy hheeds hrefused
    | exhausted htidy hheeds htrunc => exact .nil htidy hheeds fun _ _ => .inr htrunc
    | @crossed c u hindex hpassed hfan hexp htidy hheeds =>
      subst hindex
      dsimp only
      rw [hpassed.crossingOf]
      exact .cross hpassed hfan hexp htidy hheeds (ih (fanout + 1) budgetStop u)

/-! ## Visits -/

/-- A settled resource: the entry that settled it and the edges crossed from it. -/
structure Visit where
  entry : QueueEntry
  res : Resource
  crossed : List CrossedEdge

def Visit.hops (x : Visit) : List HopRecord := x.crossed.map (CrossedEdge.hop x.entry x.res)

def Visit.arrivals (x : Visit) : List QueueEntry := x.crossed.map (CrossedEdge.arrival x.entry)

/-- The turn that makes a visit. -/
structure Visit.Made (ctx : TraversalContext) (x : Visit) (t : Traversal pq) (queue : pq.Carrier)
    (t' : Traversal pq) : Prop where
  popped : pq.pop t.queue = some (x.entry, queue)
  resourceAt : ctx.topo.resourceAt x.entry.node = some x.res
  unsettled : x.entry.node ∉ t.settled
  room : t.visited < ctx.policy.maxVisited.toNat
  indices : (x.crossed.map CrossedEdge.edgeIndex).Sublist (ctx.topo.outEdgeIndicesAt x.entry.node)
  passed : ∀ c ∈ x.crossed, c.Passed ctx (x.entry.node :: t.settled) x.entry
  expandable : x.crossed ≠ [] → Expandable ctx x.entry x.res
  queue : (pq.contents t'.queue).Perm (x.arrivals ++ pq.contents queue)
  hops : t'.expl.hops = t.expl.hops ++ x.hops
  settled : t'.settled = x.entry.node :: t.settled
  visited : t'.visited = t.visited + 1
  expansions : t'.expansions = t.expansions + x.crossed.length
  budget : x.crossed ≠ [] → t'.expansions ≤ ctx.policy.maxExpansions.toNat
  fanout : x.crossed.length ≤ ctx.policy.maxFanout.toNat
  heeds : t.Heeds t'
  refused : Expandable ctx x.entry x.res → ∀ i ∈ ctx.topo.outEdgeIndicesAt x.entry.node,
    i ∈ x.crossed.map CrossedEdge.edgeIndex ∨ ctx.topo.edgeAt i = none ∨ t'.truncated = true ∨
      ∃ edge reason, ctx.topo.edgeAt i = some edge ∧
        Refuses ctx (x.entry.node :: t.settled) x.entry i edge reason ∧ Noted reason t'
  closed : ctx.authorityHops ≤ x.entry.depth → ∀ i ∈ ctx.topo.outEdgeIndicesAt x.entry.node,
    ctx.topo.edgeAt i ≠ none → Noted .maxHops t'

/-- The edges crossed from a settled resource; none when it is closed. -/
def crossedFrom (ctx : TraversalContext) (t : Traversal pq) (entry : QueueEntry) (res : Resource) :
    List CrossedEdge :=
  if ctx.authorityHops ≤ entry.depth then []
  else if !res.canForward then []
  else match ctx.egressFence res.id with
  | some _ => []
  | none => crossedOf ctx entry res (ctx.topo.outEdgeIndicesAt entry.node) 0 t

/-- A settled resource is closed, or its out-edges are gone through. -/
inductive ExpandCase (ctx : TraversalContext) (entry : QueueEntry) (res : Resource)
    (t : Traversal pq) : List CrossedEdge → Turn (Traversal pq) → Prop
  | closed {u : Traversal pq} : ¬Expandable ctx entry res → t.Tidy ctx.topo u → t.Heeds u →
      (ctx.authorityHops ≤ entry.depth → ∀ i ∈ ctx.topo.outEdgeIndicesAt entry.node,
        ctx.topo.edgeAt i ≠ none → Noted .maxHops u) →
      ExpandCase ctx entry res t [] (.again u)
  | expanded {crossed : List CrossedEdge} {r : Turn (Traversal pq)} : Expandable ctx entry res →
      Expanded ctx entry res (ctx.topo.outEdgeIndicesAt entry.node) 0 t crossed r.state →
      ExpandCase ctx entry res t crossed r

theorem expand_cases {entry : QueueEntry} {res : Resource}
    (hres : ctx.topo.resourceAt entry.node = some res) :
    ExpandCase ctx entry res t (t.crossedFrom ctx entry res) (t.expand ctx entry res) := by
  unfold expand crossedFrom
  by_cases hdepth : ctx.authorityHops ≤ entry.depth
  · rw [if_pos hdepth, if_pos hdepth]
    refine .closed (fun h => ?_) tidy_suppressAll heeds_suppressAll
      fun _ i hi hedge => noted_suppressAll hi hedge
    have := h.depth
    omega
  · rw [if_neg hdepth, if_neg hdepth]
    by_cases hforward : (!res.canForward) = true
    · rw [if_pos hforward, if_pos hforward]
      have hblock : t.Heeds (t.block entry.node res .protectedBoundary) := .of_eq id rfl rfl
      refine .closed (fun h => ?_) ((tidy_block hres).trans tidy_suppressAll)
        (hblock.trans heeds_suppressAll) fun h => absurd h hdepth
      simp [h.forwards] at hforward
    · rw [if_neg hforward, if_neg hforward]
      cases hfence : ctx.egressFence res.id with
      | some fence =>
        have hfenceOff : t.Heeds (t.fenceOff entry.node res fence) := .of_eq id rfl rfl
        refine .closed (fun h => ?_) ((tidy_fenceOff hres).trans tidy_suppressAll)
          (hfenceOff.trans heeds_suppressAll) fun h => absurd h hdepth
        simp [h.egress] at hfence
      | none =>
        have hexp : Expandable ctx entry res :=
          ⟨hres, Nat.lt_of_not_le hdepth, by simpa using hforward, hfence⟩
        exact .expanded hexp (expandEdges_expanded hres _ 0 false t)

/-- The visit that a settling turn makes. -/
theorem made_of_expand {entry : QueueEntry} {res : Resource} {queue : pq.Carrier}
    (hpop : pq.pop t.queue = some (entry, queue))
    (hres : ctx.topo.resourceAt entry.node = some res) (hset : entry.node ∉ t.settled)
    (hroom : t.visited < ctx.policy.maxVisited.toNat)
    (htidy : Tidy ctx.topo (t.settle ctx entry queue res) u) (hheeds : t.Heeds u) :
    Visit.Made ctx ⟨entry, res, u.crossedFrom ctx entry res⟩ t queue
      (u.expand ctx entry res).state := by
  have hsettled : u.settled = entry.node :: t.settled := htidy.settled
  have hvisited : u.visited = t.visited + 1 := htidy.visited
  have hexpansions : u.expansions = t.expansions := htidy.expansions
  have hhops : u.expl.hops = t.expl.hops := htidy.hops
  have hqueue : u.queue = queue := htidy.queue
  have hcase := expand_cases (t := u) hres
  revert hcase
  generalize u.expand ctx entry res = r
  generalize u.crossedFrom ctx entry res = crossed
  intro hcase
  cases hcase with
  | @closed v hclosed htidy' hheeds' hnoted =>
    refine ⟨hpop, hres, hset, hroom, List.nil_sublist _, by simp, fun h => absurd rfl h, ?_, ?_,
      htidy'.settled.trans hsettled, htidy'.visited.trans hvisited,
      htidy'.expansions.trans hexpansions, fun h => absurd rfl h, Nat.zero_le _,
      hheeds.trans hheeds', fun h => absurd h hclosed, hnoted⟩
    · rw [Turn.state, htidy'.queue, hqueue]
      exact List.Perm.refl _
    · rw [Turn.state, htidy'.hops, hhops]
      exact (List.append_nil _).symm
  | expanded hexp h =>
    refine ⟨hpop, hres, hset, hroom, h.indices, ?_, fun _ => hexp, ?_, ?_,
      h.settled.trans hsettled, h.visited.trans hvisited, ?_, h.budget, ?_, hheeds.trans h.heeds,
      fun _ => ?_, fun hdepth => ?_⟩
    · rw [← hsettled]
      exact h.passed
    · have hperm := h.queue
      rwa [hqueue] at hperm
    · rw [h.hops, hhops]
      rfl
    · rw [h.expansions, hexpansions]
    · by_cases hnil : crossed = []
      · rw [hnil]
        exact Nat.zero_le _
      · have hfan := h.fanout hnil
        rwa [Nat.zero_add] at hfan
    · rw [← hsettled]
      exact h.refused
    · have hlt := hexp.depth
      dsimp only at hdepth
      omega

/-- A resource that is settled and about to be expanded. -/
def opened (ctx : TraversalContext) (t : Traversal pq) (entry : QueueEntry) (queue : pq.Carrier)
    (res : Resource) : Traversal pq :=
  (({ t with queue, settled := entry.node :: t.settled }.beginNode entry.node).1.countSettlement
    entry.depth).recordSettlement ctx entry res

/-- A turn that settles goes on to expand the resource. -/
theorem turn_of_settling {entry : QueueEntry} (h : settling ctx t = some entry) :
    ∃ queue res, pq.pop t.queue = some (entry, queue) ∧
      ctx.topo.resourceAt entry.node = some res ∧ entry.node ∉ t.settled ∧
      t.visited < ctx.policy.maxVisited.toNat ∧
      ({ t with queue, settled := entry.node :: t.settled }.beginNode entry.node).2 = true ∧
      turn ctx t = (t.opened ctx entry queue res).expand ctx entry res := by
  unfold settling at h
  split at h
  · cases h
  case h_2 popped queue hpop =>
    split at h
    · cases h
    case isFalse hvis =>
      split at h
      · cases h
      case isFalse hlen =>
        split at h
        · cases h
        case isFalse hset =>
          split at h
          case isFalse => cases h
          case isTrue hbegun =>
            obtain rfl := Option.some.inj h
            have hlt : popped.node < ctx.topo.resources.length := Nat.lt_of_not_le hlen
            have hres : ctx.topo.resourceAt popped.node = some ctx.topo.resources[popped.node] :=
              List.getElem?_eq_getElem hlt
            refine ⟨queue, _, hpop, hres, hset, Nat.lt_of_not_le hvis, hbegun, ?_⟩
            unfold turn
            rw [hpop]
            dsimp only
            rw [if_neg hvis, if_neg hlen, if_neg hset, if_neg (by simp [hbegun]), hres]
            rfl

/-- The visit that a turn makes, if it settles a resource. -/
def visiting (ctx : TraversalContext) (t : Traversal pq) : Option Visit :=
  (settling ctx t).bind fun entry =>
    (pq.pop t.queue).bind fun popped =>
      (ctx.topo.resourceAt entry.node).map fun res =>
        ⟨entry, res, (t.opened ctx entry popped.2 res).crossedFrom ctx entry res⟩

/-- A turn that settles makes its visit. -/
theorem visiting_of_settling {entry : QueueEntry} (h : settling ctx t = some entry) :
    ∃ x queue, visiting ctx t = some x ∧ x.entry = entry ∧
      Visit.Made ctx x t queue (turn ctx t).state := by
  obtain ⟨queue, res, hpop, hres, hset, hroom, hbegun, hturn⟩ := turn_of_settling h
  have hheeds : t.Heeds (t.opened ctx entry queue res) := by
    have hbegin : t.Heeds
        ({ t with queue, settled := entry.node :: t.settled }.beginNode entry.node).1 :=
      Heeds.trans (.of_eq id rfl rfl) (heeds_beginNode hbegun)
    exact hbegin.trans (.of_eq id rfl rfl)
  refine ⟨⟨entry, res, (t.opened ctx entry queue res).crossedFrom ctx entry res⟩, queue, ?_, rfl, ?_⟩
  · unfold visiting
    rw [h, Option.bind_some, hpop, Option.bind_some, hres]
    rfl
  · rw [hturn]
    exact made_of_expand hpop hres hset hroom tidy_settle hheeds

theorem visiting_of_idle (h : settling ctx t = none) : visiting ctx t = none := by
  unfold visiting
  rw [h]
  rfl

theorem entry_visiting : (visiting ctx t).map Visit.entry = settling ctx t := by
  cases h : settling ctx t with
  | none => rw [visiting_of_idle h, Option.map_none]
  | some entry =>
    obtain ⟨x, -, hx, rfl, -⟩ := visiting_of_settling h
    rw [hx, Option.map_some]

theorem turn_visits {entry : QueueEntry} (h : settling ctx t = some entry) :
    ∃ res crossed queue, Visit.Made ctx ⟨entry, res, crossed⟩ t queue (turn ctx t).state := by
  obtain ⟨x, queue, -, rfl, hmade⟩ := visiting_of_settling h
  exact ⟨x.res, x.crossed, queue, hmade⟩

/-- The resources that the traversal of a signal settles, with the edges crossed from them. -/
def visits (ctx : TraversalContext) (t : Traversal pq) : List Visit :=
  match t.enter ctx with
  | .error _ => []
  | .ok seeded => Lib.Turns.log (visiting ctx) (turn ctx) (fuel ctx) seeded

theorem entries_visits : (visits ctx t).map Visit.entry = settlements ctx t := by
  unfold visits settlements
  cases t.enter ctx with
  | error => rfl
  | ok seeded =>
    dsimp only
    rw [Lib.Turns.map_log]
    exact congrArg (fun emit => Lib.Turns.log emit (turn ctx) (fuel ctx) seeded)
      (funext fun _ => entry_visiting)

/-- What a turn does that settles nothing. -/
inductive IdleCase (ctx : TraversalContext) (t : Traversal pq) : Turn (Traversal pq) → Prop
  | empty : pq.pop t.queue = none → IdleCase ctx t (.stop t)
  | visited {entry : QueueEntry} {queue : pq.Carrier} {t' : Traversal pq} :
      pq.pop t.queue = some (entry, queue) → ctx.policy.maxVisited.toNat ≤ t.visited →
      t.Tidy ctx.topo t' → IdleCase ctx t (.stop t')
  | skip {entry : QueueEntry} {queue : pq.Carrier} :
      pq.pop t.queue = some (entry, queue) →
      (ctx.topo.resources.length ≤ entry.node ∨ entry.node ∈ t.settled) →
      IdleCase ctx t (.again { t with queue })
  | abandon {entry : QueueEntry} {queue : pq.Carrier} {t' : Traversal pq} :
      pq.pop t.queue = some (entry, queue) → entry.node ∉ t.settled →
      entry.node < ctx.topo.resources.length → t.visited < ctx.policy.maxVisited.toNat →
      Tidy ctx.topo { t with queue, settled := entry.node :: t.settled } t' → t'.truncated = true →
      IdleCase ctx t (.stop t')

theorem turn_idles (h : settling ctx t = none) : IdleCase ctx t (turn ctx t) := by
  unfold settling at h
  unfold turn
  cases hpop : pq.pop t.queue with
  | none => exact .empty hpop
  | some popped =>
    obtain ⟨entry, queue⟩ := popped
    rw [hpop] at h
    dsimp only at h ⊢
    split at h
    case isTrue hvis =>
      rw [if_pos hvis]
      exact .visited hpop hvis ⟨rfl, rfl, rfl, rfl, rfl, rfl, rfl, .refl _, id⟩
    case isFalse hvis =>
      rw [if_neg hvis]
      split at h
      case isTrue hlen =>
        rw [if_pos hlen]
        exact .skip hpop (.inl hlen)
      case isFalse hlen =>
        rw [if_neg hlen]
        split at h
        case isTrue hset =>
          rw [if_pos hset]
          exact .skip hpop (.inr hset)
        case isFalse hset =>
          split at h
          case isTrue => cases h
          case isFalse hbegun =>
            rw [if_neg hset, if_pos (by simpa using hbegun)]
            exact .abandon hpop hset (Nat.lt_of_not_le hlen) (Nat.lt_of_not_le hvis)
              (tidy_beginNode.trans tidy_noteTruncation) rfl

/-! ## Tours -/

/-- What visits and skipped entries keep, a turn that goes on keeps. -/
theorem keeps_turn {P : List Visit → Traversal pq → Prop}
    (visit : ∀ xs x t queue t', P xs t → Visit.Made ctx x t queue t' → P (xs ++ [x]) t')
    (skip : ∀ xs t t', P xs t → IdleCase ctx t (.again t') → P xs t') {xs : List Visit}
    (h : P xs t) (hturn : turn ctx t = .again t') : P (xs ++ (visiting ctx t).toList) t' := by
  cases hs : settling ctx t with
  | none =>
    have hidle := turn_idles hs
    rw [hturn] at hidle
    rw [visiting_of_idle hs, Option.toList_none, List.append_nil]
    exact skip _ _ _ h hidle
  | some entry =>
    obtain ⟨x, queue, hx, -, hmade⟩ := visiting_of_settling hs
    rw [hturn] at hmade
    rw [hx, Option.toList_some]
    exact visit _ _ _ _ _ h hmade

/-- A relation between the visits so far and the state, kept by visits and skipped entries, and
turned into `Q` when the loop ends, gives `Q` of all visits. -/
theorem tour_invariant {P Q : List Visit → Traversal pq → Prop}
    (visit : ∀ xs x t queue t', P xs t → Visit.Made ctx x t queue t' → P (xs ++ [x]) t')
    (skip : ∀ xs t t', P xs t → IdleCase ctx t (.again t') → P xs t')
    (stop : ∀ xs t t', P xs t → IdleCase ctx t (.stop t') → Q xs t')
    (last : ∀ xs t, P xs t → Q xs t) (init : P [] t) (hsize : pq.size t.queue ≤ 1) :
    Q (Lib.Turns.log (visiting ctx) (turn ctx) (fuel ctx) t)
      (Lib.Turns.run (turn ctx) (fuel ctx) t) := by
  have hlog := Lib.Turns.log_invariant (visiting ctx) (turn ctx) (m := measure ctx) (P := P) (Q := Q)
    (fun _ _ => measure_turn) (fun _ _ _ hp hturn => keeps_turn visit skip hp hturn) ?_ (fuel ctx)
    (s := t) (by unfold measure fuel; omega) (l := []) init
  · rwa [List.nil_append] at hlog
  · intro xs v v' hp hturn
    cases hs : settling ctx v with
    | none =>
      have hidle := turn_idles hs
      rw [hturn] at hidle
      rw [visiting_of_idle hs, Option.toList_none, List.append_nil]
      exact stop xs v v' hp hidle
    | some entry =>
      obtain ⟨x, queue, hx, -, hmade⟩ := visiting_of_settling hs
      rw [hturn] at hmade
      rw [hx, Option.toList_some]
      exact last _ _ (visit _ _ _ _ _ hp hmade)

/-- The entry seeds the traversal, or is the arrival of a crossed edge. -/
def Comes (ctx : TraversalContext) (i : Nat) (xs : List Visit) (e : QueueEntry) : Prop :=
  e = originEntry ctx i ∨ ∃ x ∈ xs, ∃ c ∈ x.crossed, e = c.arrival x.entry

theorem Comes.append {i : Nat} {xs ys : List Visit} {e : QueueEntry} (h : Comes ctx i xs e) :
    Comes ctx i (xs ++ ys) e :=
  h.imp_right fun ⟨x, hx, hc⟩ => ⟨x, List.mem_append_left _ hx, hc⟩

/-- A visit keeps to the gates and to the fan-out. -/
structure Visit.Lawful (ctx : TraversalContext) (x : Visit) : Prop where
  resourceAt : ctx.topo.resourceAt x.entry.node = some x.res
  indices : (x.crossed.map CrossedEdge.edgeIndex).Sublist (ctx.topo.outEdgeIndicesAt x.entry.node)
  passed : ∀ c ∈ x.crossed, ∃ settled, x.entry.node ∈ settled ∧ c.Passed ctx settled x.entry
  expandable : x.crossed ≠ [] → Expandable ctx x.entry x.res
  fanout : x.crossed.length ≤ ctx.policy.maxFanout.toNat

theorem Visit.Made.lawful {x : Visit} {queue : pq.Carrier} (h : Visit.Made ctx x t queue t') :
    x.Lawful ctx where
  resourceAt := h.resourceAt
  indices := h.indices
  passed c hc := ⟨_, List.mem_cons_self, h.passed c hc⟩
  expandable := h.expandable
  fanout := h.fanout

/-- What the visits of a traversal account for. -/
structure Tour (ctx : TraversalContext) (i : Nat) (xs : List Visit) (t : Traversal pq) : Prop where
  lawful : ∀ x ∈ xs, x.Lawful ctx
  entries : ∀ x ∈ xs, Comes ctx i xs x.entry
  queue : ∀ e ∈ pq.contents t.queue, Comes ctx i xs e
  nodup : (xs.map fun x => x.entry.node).Nodup
  visits : xs.length ≤ ctx.policy.maxVisited.toNat
  hops : t.expl.hops = xs.flatMap Visit.hops
  expansions : t.expansions = (xs.map fun x => x.crossed.length).sum
  budget : t.expansions ≤ ctx.policy.maxExpansions.toNat

/-- A tour in which exactly the visited resources are settled. -/
structure Touring (ctx : TraversalContext) (i : Nat) (xs : List Visit) (t : Traversal pq) : Prop
    extends Tour ctx i xs t where
  settled : t.settled = (xs.map fun x => x.entry.node).reverse
  visited : t.visited = xs.length

/-- A finished tour: a truncated one may have settled one more resource without a visit. -/
structure Toured (ctx : TraversalContext) (i : Nat) (xs : List Visit) (t : Traversal pq) : Prop
    extends Tour ctx i xs t where
  settled : t.settled.Nodup
  located : ∀ n ∈ t.settled, n < ctx.topo.resources.length
  bounded : t.settled.length ≤ ctx.policy.maxVisited.toNat
  mem_settled : ∀ x ∈ xs, x.entry.node ∈ t.settled
  visited : t.truncated = false → t.settled = (xs.map fun x => x.entry.node).reverse

section Tour

variable {i : Nat} {xs : List Visit} {x : Visit} {queue : pq.Carrier}

theorem Tour.tidy (h : Tour ctx i xs t) (htidy : t.Tidy ctx.topo u) : Tour ctx i xs u where
  lawful := h.lawful
  entries := h.entries
  queue := htidy.queue ▸ h.queue
  nodup := h.nodup
  visits := h.visits
  hops := htidy.hops.trans h.hops
  expansions := htidy.expansions.trans h.expansions
  budget := htidy.expansions.trans_le h.budget

theorem Tour.pop {entry : QueueEntry} (h : Tour ctx i xs t)
    (hpop : pq.pop t.queue = some (entry, queue)) : Tour ctx i xs { t with queue } where
  lawful := h.lawful
  entries := h.entries
  queue e he := h.queue e ((Lib.PriorityQueue.mem_pop hpop).mpr (.inr he))
  nodup := h.nodup
  visits := h.visits
  hops := h.hops
  expansions := h.expansions
  budget := h.budget

theorem Touring.located (h : Touring ctx i xs t) : ∀ n ∈ t.settled, n < ctx.topo.resources.length := by
  intro n hn
  rw [h.settled, List.mem_reverse] at hn
  obtain ⟨x, hx, rfl⟩ := List.mem_map.mp hn
  exact (List.getElem?_eq_some_iff.mp (h.lawful x hx).resourceAt).1

theorem Touring.toured (h : Touring ctx i xs t) : Toured ctx i xs t where
  toTour := h.toTour
  settled := by
    rw [h.settled]
    exact List.nodup_reverse.mpr h.nodup
  located := h.located
  bounded := by
    rw [h.settled, List.length_reverse, List.length_map]
    exact h.visits
  mem_settled x hx := by
    rw [h.settled, List.mem_reverse]
    exact List.mem_map_of_mem hx
  visited _ := h.settled

theorem Toured.tidy (h : Toured ctx i xs t) (htidy : t.Tidy ctx.topo u) : Toured ctx i xs u where
  toTour := h.toTour.tidy htidy
  settled := htidy.settled ▸ h.settled
  located := htidy.settled ▸ h.located
  bounded := htidy.settled ▸ h.bounded
  mem_settled := htidy.settled ▸ h.mem_settled
  visited hkept := by
    rw [htidy.settled]
    refine h.visited ?_
    cases htrunc : t.truncated with
    | false => rfl
    | true => exact absurd (htidy.truncated htrunc) (by simp [hkept])

theorem Touring.visit (h : Touring ctx i xs t) (hmade : Visit.Made ctx x t queue t') :
    Touring ctx i (xs ++ [x]) t' := by
  have hnew : x.entry.node ∉ xs.map fun x => x.entry.node := by
    have hunsettled := hmade.unsettled
    rwa [h.settled, List.mem_reverse] at hunsettled
  have hcomes : ∀ y ∈ xs ++ [x], Comes ctx i (xs ++ [x]) y.entry := by
    intro y hy
    rcases List.mem_append.mp hy with hy | hy
    · exact (h.entries y hy).append
    · rw [List.mem_singleton.mp hy]
      exact (h.queue _ (Lib.PriorityQueue.top_mem hmade.popped)).append
  refine ⟨⟨fun y hy => ?_, hcomes, fun e he => ?_, ?_, ?_, ?_, ?_, ?_⟩, ?_, ?_⟩
  · rcases List.mem_append.mp hy with hy | hy
    · exact h.lawful y hy
    · rw [List.mem_singleton.mp hy]
      exact hmade.lawful
  · rcases List.mem_append.mp (hmade.queue.mem_iff.mp he) with he | he
    · obtain ⟨c, hc, rfl⟩ := List.mem_map.mp he
      exact .inr ⟨x, List.mem_append_right _ List.mem_cons_self, c, hc, rfl⟩
    · exact (h.queue e ((Lib.PriorityQueue.mem_pop hmade.popped).mpr (.inr he))).append
  · rw [List.map_append, List.map_singleton]
    exact List.nodup_append.mpr ⟨h.nodup, by simp, by
      rintro a ha b hb rfl
      rw [List.mem_singleton.mp hb] at ha
      exact hnew ha⟩
  · have hroom := hmade.room
    rw [h.visited] at hroom
    rw [List.length_append, List.length_singleton]
    omega
  · rw [hmade.hops, h.hops, List.flatMap_append, List.flatMap_singleton]
  · rw [hmade.expansions, h.expansions, List.map_append, List.sum_append]
    simp
  · by_cases hnil : x.crossed = []
    · rw [hmade.expansions, hnil]
      exact h.budget
    · exact hmade.budget hnil
  · rw [hmade.settled, h.settled, List.map_append, List.reverse_append]
    rfl
  · rw [hmade.visited, h.visited, List.length_append, List.length_singleton]

theorem Touring.skip {entry : QueueEntry} (h : Touring ctx i xs t)
    (hpop : pq.pop t.queue = some (entry, queue)) : Touring ctx i xs { t with queue } where
  toTour := h.toTour.pop hpop
  settled := h.settled
  visited := h.visited

theorem Touring.stop (h : Touring ctx i xs t) (hidle : IdleCase ctx t (.stop t')) :
    Toured ctx i xs t' := by
  cases hidle with
  | empty => exact h.toured
  | visited _ _ htidy => exact h.toured.tidy htidy
  | @abandon entry queue _ hpop hnew hlen hroom htidy htrunc =>
    have htour : Tour ctx i xs { t with queue, settled := entry.node :: t.settled } := by
      have hpopped := h.toTour.pop hpop
      exact ⟨hpopped.lawful, hpopped.entries, hpopped.queue, hpopped.nodup, hpopped.visits,
        hpopped.hops, hpopped.expansions, hpopped.budget⟩
    refine ⟨htour.tidy htidy, ?_, fun n hn => ?_, ?_, fun x hx => ?_, fun hkept => ?_⟩
    · rw [htidy.settled]
      exact List.nodup_cons.mpr ⟨hnew, h.toured.settled⟩
    · rw [htidy.settled] at hn
      rcases List.mem_cons.mp hn with rfl | hn
      · exact hlen
      · exact h.located n hn
    · rw [htidy.settled, List.length_cons, h.settled, List.length_reverse, List.length_map]
      rw [h.visited] at hroom
      exact hroom
    · rw [htidy.settled]
      exact List.mem_cons_of_mem _ (h.toured.mem_settled x hx)
    · rw [htrunc] at hkept
      cases hkept

end Tour

/-- What the origin has and every crossing passes on, every entry of a tour has. -/
theorem Tour.induction {i : Nat} {xs : List Visit} {P : QueueEntry → Prop} (h : Tour ctx i xs t)
    (origin : P (originEntry ctx i))
    (crossing : ∀ x ∈ xs, ∀ c ∈ x.crossed, ∀ settled, c.Passed ctx settled x.entry →
      P x.entry → P (c.arrival x.entry)) {e : QueueEntry} (he : Comes ctx i xs e) : P e := by
  -- an arrival is one hop deeper than the entry of its visit
  induction hdepth : e.depth generalizing e with
  | zero =>
    rcases he with rfl | ⟨x, hx, c, hc, rfl⟩
    · exact origin
    · cases hdepth
  | succ depth ih =>
    rcases he with rfl | ⟨x, hx, c, hc, rfl⟩
    · exact origin
    · obtain ⟨settled, -, hpassed⟩ := (h.lawful x hx).passed c hc
      exact crossing x hx c hc settled hpassed (ih (h.entries x hx) (Nat.succ.inj hdepth))

/-- A loop that starts with the origin queued makes a tour. -/
theorem toured_loop (ctx : TraversalContext) {i : Nat} (hqueue : ∀ e ∈ pq.contents t.queue, e = originEntry ctx i)
    (hsize : pq.size t.queue ≤ 1) (hsettled : t.settled = []) (hvisited : t.visited = 0)
    (hexpansions : t.expansions = 0) (hhops : t.expl.hops = []) :
    Toured ctx i (Lib.Turns.log (visiting ctx) (turn ctx) (fuel ctx) t)
      (Lib.Turns.run (turn ctx) (fuel ctx) t) := by
  refine tour_invariant (P := Touring ctx i) (Q := Toured ctx i) (fun _ _ _ _ _ h => h.visit)
    (fun xs v v' h hidle => ?_) (fun _ _ _ h => h.stop) (fun _ _ h => h.toured) ?_ hsize
  · cases hidle with
    | skip hpop => exact h.skip hpop
  · exact ⟨⟨by simp, by simp, fun e he => .inl (hqueue e he), List.nodup_nil, Nat.zero_le _, hhops,
      hexpansions, by omega⟩, hsettled, hvisited⟩

/-- The loop of a seeded traversal starts with the origin queued. -/
theorem seeded_queue {i : Nat} {s : Traversal pq} (fresh : t.Fresh)
    (htidy : Tidy ctx.topo { t with queue := pq.push t.queue (originEntry ctx i) } s) :
    (∀ e, e ∈ pq.contents s.queue ↔ e = originEntry ctx i) ∧ pq.size s.queue ≤ 1 := by
  have hqueue : s.queue = pq.push pq.empty (originEntry ctx i) := by
    rw [htidy.queue]
    change pq.push t.queue _ = _
    rw [fresh.queue]
  rw [hqueue, Lib.PriorityQueue.size_push, Lib.PriorityQueue.size_empty]
  refine ⟨fun e => ?_, Nat.le_refl _⟩
  rw [Lib.PriorityQueue.mem_push]
  exact or_iff_left Lib.PriorityQueue.not_mem_empty

/-- The loop of a seeded traversal, with the records due after it. -/
theorem run_of_enter {s : Traversal pq} (h : t.enter ctx = .ok s) :
    t.run ctx = (.success, s.loop ctx) ∧
      settlements ctx t = Lib.Turns.log (settling ctx) (turn ctx) (fuel ctx) s := by
  unfold run settlements
  rw [h]
  exact ⟨rfl, rfl⟩

theorem settlements_of_error {r : Status × Traversal pq} (h : t.enter ctx = .error r) :
    settlements ctx t = [] := by
  unfold settlements
  rw [h]

/-- A traversal is refused and does nothing, or it succeeds. -/
theorem run_settles (ctx : TraversalContext) (fresh : t.Fresh) :
    (t.run ctx).1.ok = false ∧ (t.run ctx).2 = t ∧ settlements ctx t = [] ∨
      ∃ t', t.run ctx = (.success, t') := by
  have hcases := enter_cases ctx fresh
  unfold run settlements
  generalize t.enter ctx = r at hcases ⊢
  cases hcases with
  | refused hst => exact .inl ⟨hst, rfl, rfl⟩
  | blocked => exact .inr ⟨_, rfl⟩
  | seeded => exact .inr ⟨_, rfl⟩

/-- A traversal that is not refused makes a tour from its origin. -/
theorem visits_run (fresh : t.Fresh) (h : t.run ctx = (.success, t')) :
    ∃ i origin, Origin ctx i origin ∧ Toured ctx i (visits ctx t) t' := by
  have hcases := enter_cases ctx fresh
  unfold visits
  revert hcases
  generalize henter : t.enter ctx = r
  intro hcases
  cases hcases with
  | @refused st hst =>
    unfold run at h
    rw [henter] at h
    cases h
    cases hst
  | @blocked i origin u horigin _ htidy =>
    have hrun : t.run ctx = (.success, u) := by
      unfold run
      rw [henter]
    obtain rfl : u = t' := congrArg Prod.snd (hrun.symm.trans h)
    refine ⟨i, origin, horigin, Toured.tidy ?_ htidy⟩
    have hempty : pq.contents t.queue = [] := by rw [fresh.queue, pq.contents_empty]
    refine Touring.toured ⟨⟨by simp, by simp, fun e he => ?_, List.nodup_nil, Nat.zero_le _,
      fresh.hops, fresh.expansions, ?_⟩, fresh.settled, fresh.visited⟩
    · rw [hempty] at he
      cases he
    · exact fresh.expansions.trans_le (Nat.zero_le _)
  | @seeded i origin s horigin _ _ htidy =>
    obtain ⟨hrun, -⟩ := run_of_enter henter
    obtain rfl : s.loop ctx = t' := congrArg Prod.snd (hrun.symm.trans h)
    obtain ⟨hqueue, hsize⟩ := seeded_queue fresh htidy
    have htoured := toured_loop ctx (fun e he => (hqueue e).mp he) hsize
      (htidy.settled.trans fresh.settled) (htidy.visited.trans fresh.visited)
      (htidy.expansions.trans fresh.expansions) (htidy.hops.trans fresh.hops)
    exact ⟨i, origin, horigin, htoured.tidy tidy_flushOrTruncate⟩

theorem toured_run (fresh : t.Fresh) (h : t.run ctx = (.success, t')) :
    ∃ i origin xs, Origin ctx i origin ∧ settlements ctx t = xs.map Visit.entry ∧
      Toured ctx i xs t' := by
  obtain ⟨i, origin, horigin, htoured⟩ := visits_run fresh h
  exact ⟨i, origin, visits ctx t, horigin, entries_visits.symm, htoured⟩

/-- Every resource is settled once. -/
theorem nodup_settlements (ctx : TraversalContext) (fresh : t.Fresh) :
    ((settlements ctx t).map QueueEntry.node).Nodup := by
  rcases run_settles ctx fresh with ⟨-, -, hnone⟩ | ⟨t', hrun⟩
  · rw [hnone]
    exact List.nodup_nil
  · obtain ⟨i, origin, xs, -, hsettlements, htoured⟩ := toured_run fresh hrun
    rw [hsettlements, List.map_map]
    exact htoured.toTour.nodup

end Traversal

end Backpressure
