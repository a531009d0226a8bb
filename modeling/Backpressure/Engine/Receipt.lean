import Backpressure.Engine.Outcome

/-!
# What a settlement leaves behind

A settled resource has received the pressure of the signal. Nothing that a traversal does
later, of this signal or of another, takes that back.
-/

namespace Backpressure

namespace Traversal

variable {pq : EntryQueue} {ctx : TraversalContext} {t t' u : Traversal pq} {c c' : Control}
  {signal : PressureSignal} {m : Magnitude} {i : Nat}

/-- Neither the resource at the index nor its governing fence keeps pressure out. -/
def Enterable (ctx : TraversalContext) (i : Nat) : Prop :=
  ∃ r, ctx.topo.resourceAt i = some r ∧ r.canReceive = true ∧ ctx.ingressFence r.id = none

/-- The signal has arrived with at least this magnitude. -/
structure Delivered (signal : PressureSignal) (m : Magnitude) (a : NodeAccumulator) : Prop where
  received : a.received = true
  contributed : a.contributionsTruncated = true ∨ ∃ x ∈ a.contributions,
    x.source = signal.source ∧ x.signal = signal.id ∧ m.raw ≤ x.magnitude.raw

/-- The signal has arrived at the resource of the index. -/
def DeliveredAt (signal : PressureSignal) (m : Magnitude) (i : Nat) (acc : Accumulators) : Prop :=
  ∃ a, acc.lookup i = some a ∧ Delivered signal m a

theorem Delivered.alike {a b : NodeAccumulator} (h : Delivered signal m a) (halike : a.Alike b) :
    Delivered signal m b := by
  refine ⟨halike.received.trans h.received, ?_⟩
  rw [halike.contributions, halike.contributionsTruncated]
  exact h.contributed

theorem DeliveredAt.alike {topo : Topology} {acc acc' : Accumulators}
    (h : DeliveredAt signal m i acc) (halike : acc.Alike topo acc') :
    DeliveredAt signal m i acc' := by
  obtain ⟨a, ha, hdel⟩ := h
  obtain ⟨a', ha', hsame⟩ := halike.keeps i a ha
  exact ⟨a', ha', hdel.alike hsame⟩

theorem DeliveredAt.update {acc : Accumulators} {j : Nat} {id : ResourceId}
    {f : NodeAccumulator → NodeAccumulator} (h : DeliveredAt signal m i acc)
    (hf : ∀ a, Delivered signal m a → Delivered signal m (f a)) :
    DeliveredAt signal m i (acc.update j id f) := by
  obtain ⟨a, ha, hdel⟩ := h
  by_cases hij : i = j
  · subst hij
    refine ⟨_, Accumulators.lookup_update_self, ?_⟩
    rw [Accumulators.at'_of_lookup ha]
    exact hf a hdel
  · exact ⟨a, by rw [Accumulators.lookup_update_ne hij, ha], hdel⟩

/-- What a settlement does to its accumulator, whether or not the arrival is the best yet. -/
inductive SettleCase (ctx : TraversalContext) (entry : QueueEntry) (a b : NodeAccumulator) : Prop
  | appended : b.received = true → b.contributions = a.contributions ++ [contributionOf ctx entry] →
      b.contributionsTruncated = a.contributionsTruncated → SettleCase ctx entry a b
  | truncated : b.received = true → b.contributions = a.contributions →
      b.contributionsTruncated = true → SettleCase ctx entry a b

theorem settle_cases (ctx : TraversalContext) (entry : QueueEntry) (a : NodeAccumulator) :
    SettleCase ctx entry a (settleAccumulator ctx entry a) := by
  unfold settleAccumulator
  dsimp only
  split
  case isTrue hbetter =>
    split
    · exact .appended rfl rfl rfl
    · exact .truncated rfl rfl rfl
  case isFalse hbetter =>
    have hreceived : a.received = true := by
      by_contra hnot
      exact hbetter (by simp [hnot])
    split
    · exact .appended hreceived rfl rfl
    · exact .truncated hreceived rfl rfl

/-- A settlement takes back no earlier arrival. -/
theorem Delivered.settle {entry : QueueEntry} {a : NodeAccumulator} (h : Delivered signal m a) :
    Delivered signal m (settleAccumulator ctx entry a) := by
  cases settle_cases ctx entry a with
  | appended hrecv hcontrib htrunc =>
    refine ⟨hrecv, ?_⟩
    rw [hcontrib, htrunc]
    rcases h.contributed with hlist | ⟨x, hx, hcontributed⟩
    · exact .inl hlist
    · exact .inr ⟨x, List.mem_append_left _ hx, hcontributed⟩
  | truncated hrecv _ htrunc => exact ⟨hrecv, .inl htrunc⟩

/-- The entry that settles a resource is delivered there. -/
theorem delivered_settle {entry : QueueEntry} {a : NodeAccumulator}
    (hm : m.raw ≤ entry.potential.toMagnitude.raw) :
    Delivered ctx.signal m (settleAccumulator ctx entry a) := by
  cases settle_cases ctx entry a with
  | appended hrecv hcontrib =>
    refine ⟨hrecv, .inr ⟨contributionOf ctx entry, ?_, rfl, rfl, hm⟩⟩
    rw [hcontrib]
    exact List.mem_append_right _ List.mem_cons_self
  | truncated hrecv _ htrunc => exact ⟨hrecv, .inl htrunc⟩

theorem delivered_step (h : DeliveredAt signal m i t.acc) (hstep : Step ctx c t c' t') :
    DeliveredAt signal m i t'.acc := by
  cases hstep with
  | tidy htidy => exact h.alike htidy.acc
  | skip => exact h
  | settle => exact h.update fun a => Delivered.settle
  | abandon _ _ htidy => exact h.alike htidy.acc
  | accept => exact h
  | leave => exact h

theorem delivered_steps (h : DeliveredAt signal m i t.acc) (hsteps : Steps ctx c t c' t') :
    DeliveredAt signal m i t'.acc :=
  hsteps.invariant (P := fun _ u => DeliveredAt signal m i u.acc) h
    fun _ _ _ _ => delivered_step

theorem delivered_run (hdel : DeliveredAt signal m i t.acc) {t' : Traversal pq}
    (hadm : ∀ j a, t.acc.lookup j = some a → a.received = true → Enterable ctx j)
    (h : RunCase ctx t (.success, t')) : DeliveredAt signal m i t'.acc := by
  cases h with
  | refused hst => cases hst
  | @blocked j origin _ horigin hclosed htidy =>
    refine DeliveredAt.alike ?_ htidy.acc
    obtain ⟨a, ha, hd⟩ := hdel
    -- a closed origin has never received, so clearing the mark changes nothing elsewhere
    have hij : i ≠ j := by
      rintro rfl
      obtain ⟨r, hr, hcan, hin⟩ := hadm i a ha hd.received
      obtain rfl := Option.some.inj (hr.symm.trans horigin.resourceAt)
      rcases hclosed with hfence | hrefuses
      · exact hfence hin
      · rw [hcan] at hrefuses
        cases hrefuses
    exact ⟨a, by rw [Accumulators.lookup_update_ne hij, ha], hd⟩
  | @traversed j _ _ _ _ _ _ _ htidy _ _ hstops =>
    have hseeded : DeliveredAt signal m i
        { t with queue := pq.push t.queue (originEntry ctx j) }.acc := hdel
    exact delivered_steps hseeded (final_steps htidy hstops)

/-! ## The origin -/

theorem beginNode_idle {node : Nat} (h : ∀ r, (t.pending r).count = 0) :
    (t.beginNode node).2 = true := by
  unfold beginNode
  rw [flushSuppressions_idle h]
  split <;> rfl

/-- An open origin receives the observed magnitude of its signal. -/
theorem delivered_origin (fresh : t.Fresh) (hvisited : 0 < ctx.policy.maxVisited.toNat)
    {origin : Resource} (horigin : Origin ctx i origin)
    (hopen : ctx.ingressFence origin.id = none) (hcan : origin.canReceive = true)
    (h : RunCase ctx t (.success, t')) :
    DeliveredAt ctx.signal ctx.signal.observation.magnitude i t'.acc := by
  cases h with
  | refused hst => cases hst
  | blocked horigin' hclosed =>
    have hindex := Option.some.inj (horigin'.indexOf.symm.trans horigin.indexOf)
    subst hindex
    obtain rfl := Option.some.inj (horigin'.resourceAt.symm.trans horigin.resourceAt)
    rcases hclosed with hfence | hrefuses
    · exact absurd hopen hfence
    · rw [hcan] at hrefuses
      cases hrefuses
  | @traversed i' origin' s u horigin' _ _ _ htidy hpending _ hstops =>
    obtain rfl := Option.some.inj (horigin.indexOf.symm.trans horigin'.indexOf)
    have hflush : Tidy ctx.topo u u.flushOrTruncate := tidy_flushOrTruncate
    refine DeliveredAt.alike ?_ hflush.acc
    -- the first turn pops the origin and settles it
    have hfirst : ∀ r, TurnCase ctx s r → DeliveredAt ctx.signal ctx.signal.observation.magnitude i
        r.state.acc := by
      intro r hcase
      have htop : ∀ {entry : QueueEntry} {queue : pq.Carrier},
          pq.pop s.queue = some (entry, queue) → entry = originEntry ctx i := by
        intro entry queue hpop
        have hmem := Lib.PriorityQueue.top_mem hpop
        rw [htidy.queue] at hmem
        change entry ∈ pq.contents (pq.push t.queue (originEntry ctx i)) at hmem
        rw [fresh.queue] at hmem
        exact (Lib.PriorityQueue.mem_push.mp hmem).resolve_right Lib.PriorityQueue.not_mem_empty
      have hsettled : s.settled = [] := htidy.settled.trans fresh.settled
      have hvis : s.visited = 0 := htidy.visited.trans fresh.visited
      cases hcase with
      | empty hnone =>
        have hnil := Lib.PriorityQueue.pop_eq_none_iff.mp hnone
        rw [htidy.queue] at hnil
        have hmem : originEntry ctx i ∈ pq.contents (pq.push t.queue (originEntry ctx i)) :=
          Lib.PriorityQueue.mem_push.mpr (.inl rfl)
        rw [show pq.contents (pq.push t.queue (originEntry ctx i)) = [] from hnil] at hmem
        cases hmem
      | visited _ hstop => omega
      | skip hpop hskip =>
        obtain rfl := htop hpop
        rcases hskip with hlen | hset
        · obtain ⟨hlt, -⟩ := List.getElem?_eq_some_iff.mp horigin.resourceAt
          exact absurd hlen (Nat.not_le_of_lt hlt)
        · rw [hsettled] at hset
          cases hset
      | abandon _ _ hfull =>
        rw [beginNode_idle] at hfull
        · cases hfull
        · intro reason
          change (s.pending reason).count = 0
          rw [hpending]
          exact fresh.pending reason
      | settle hpop _ _ hres hsteps =>
        obtain rfl := htop hpop
        refine delivered_steps ?_ hsteps
        refine ⟨_, Accumulators.lookup_update_self, delivered_settle ?_⟩
        exact (Potential.toMagnitude_fromMagnitude _).ge
    have hturn := hfirst _ (turn_cases ctx s)
    cases hstops with
    | stop hb =>
      rw [hb] at hturn
      exact hturn
    | again hb hrest =>
      rw [hb] at hturn
      exact delivered_steps hturn (stops_steps hrest)

end Traversal

end Backpressure
