import Backpressure.Engine.MoreHops
import Backpressure.Lib.BestFirst

/-!
# The strongest path

Without authorised amplification an edge turns a potential into one that is not larger, and keeps
larger potentials larger. A traversal that nothing but the gates holds back is then a best-first
search: it settles the resources that some path of admissible edges reaches, each with the greatest
potential that a path carries there.
-/

namespace Backpressure

open Lib.BestFirst (Network Arrives Search)

namespace TraversalContext

variable {ctx : TraversalContext} {u v k i : Nat} {edge : DependencyEdge} {entry : QueueEntry}

/-- The gates of an edge that depend on neither the budgets nor what is settled. -/
structure Admissible (ctx : TraversalContext) (u v k : Nat) (edge : DependencyEdge) : Prop where
  leaves : ∃ res, ctx.topo.resourceAt u = some res ∧ res.canForward = true ∧
    ctx.egressFence res.id = none
  outEdge : k ∈ ctx.topo.outEdgeIndicesAt u
  edgeAt : ctx.topo.edgeAt k = some edge
  pin : ctx.pinRefuses k edge = false
  attenuation : edge.attenuation.isZero = false
  pressure : edge.flags.has .recoveryOnly = false
  plain : edge.isAmplifying = false
  target : ctx.topo.indexOf edge.dst = some v
  receives : ∃ res, ctx.topo.resourceAt v = some res ∧ res.canReceive = true
  covered : ctx.signal.authority.covers edge.dst = true
  ingress : ctx.ingressFence edge.dst = none

/-- What an edge makes of a raw potential. -/
def scaled (edge : DependencyEdge) (p : Nat) : Nat := p * edge.attenuation.raw / 65536

/-- The resources and the admissible edges between them, with the policy floor. -/
def network (ctx : TraversalContext) : Network Nat Nat where
  arc u v f := ∃ k edge, ctx.Admissible u v k edge ∧ f = scaled edge
  floor := ctx.floorPotential.raw
  mono := by
    rintro u v f ⟨k, edge, -, rfl⟩ p q hpq
    exact Nat.div_le_div_right (Nat.mul_le_mul_right _ hpq)
  shrinks := by
    rintro u v f ⟨k, edge, -, rfl⟩ p
    have hle : p * edge.attenuation.raw ≤ p * 65536 :=
      Nat.mul_le_mul_left p edge.attenuation.le_one
    exact Nat.div_le_of_le_mul (hle.trans_eq (Nat.mul_comm _ _))

/-- The reasons that have to do with budgets, hops and damping. -/
def limits : List SuppressionReason :=
  [.maxHops, .maxFanout, .expansionBudgetExhausted, .hysteresisNotExceeded]

/-- An admissible edge is refused for a limit only, or because its target is settled. -/
theorem Admissible.refused {settled : List Nat} {reason : SuppressionReason}
    (h : ctx.Admissible u v k edge)
    (hfloor : ctx.floorPotential.raw ≤ scaled edge entry.potential.raw)
    (hrefuses : Traversal.Refuses ctx settled entry k edge reason) :
    reason ∈ limits ∨ v ∈ settled := by
  have hcarries : ctx.carries entry edge = .ok
      ⟨entry.potential.attenuated edge.attenuation, entry.cumulativeGainQ16, entry.amplified⟩ := by
    unfold carries
    rw [h.plain]
    rfl
  rcases hrefuses with
    ⟨expansions, fanout, verdict, herror⟩ | ⟨verdict, herror⟩ | ⟨carried, hok, hdamp⟩
  · unfold admits at herror
    split at herror
    · cases herror
      exact .inl (by decide)
    split at herror
    · cases herror
      exact .inl (by decide)
    obtain ⟨res, hres, hreceives⟩ := h.receives
    rw [h.pin, h.attenuation, h.pressure, h.target, if_neg Bool.false_ne_true,
      if_neg Bool.false_ne_true, if_neg Bool.false_ne_true] at herror
    dsimp only at herror
    rw [hres] at herror
    dsimp only at herror
    rw [hreceives, Bool.not_true, if_neg Bool.false_ne_true] at herror
    split at herror
    case isTrue hset => exact .inr hset
    rw [h.covered, h.ingress, Bool.not_true, if_neg Bool.false_ne_true, Option.isSome_none,
      if_neg Bool.false_ne_true] at herror
    split at herror
    · cases herror
      exact .inl (by decide)
    · cases herror
  · rw [hcarries] at herror
    cases herror
  · rw [hcarries] at hok
    cases hok
    unfold damps at hdamp
    have hroom : ¬(entry.potential.attenuated edge.attenuation).raw < ctx.floorPotential.raw :=
      Nat.not_lt.mpr hfloor
    rw [if_neg hroom] at hdamp
    split at hdamp
    · cases hdamp
      exact .inl (by decide)
    · cases hdamp

end TraversalContext

namespace Traversal

variable {pq : EntryQueue} {ctx : TraversalContext} {t t' : Traversal pq} {xs : List Visit}
  {x : Visit} {i : Nat} {queue : pq.Carrier}

/-- What the search sees of an entry. -/
def offer (e : QueueEntry) : Nat × Nat := (e.node, e.potential.raw)

/-- A crossed edge is admissible, and carries on what it makes of the potential. -/
theorem arc_of_crossed {c : CrossedEdge} (hgrant : ctx.amplificationGranted = false)
    (hmade : Visit.Made ctx x t queue t') (hc : c ∈ x.crossed) :
    ∃ f, ctx.network.arc x.entry.node c.toIndex f ∧
      ctx.network.floor ≤ f x.entry.potential.raw ∧
      (c.arrival x.entry).potential.raw = f x.entry.potential.raw := by
  have hpassed := hmade.passed c hc
  have hexpandable := hmade.expandable (List.ne_nil_of_mem hc)
  obtain ⟨expansions, fanout, hadm⟩ := hpassed.admitted
  obtain ⟨toRes, hadmitted⟩ := of_admits hadm
  have hplain : c.edge.isAmplifying = false := by
    have hcarries := hpassed.carries
    unfold TraversalContext.carries at hcarries
    dsimp only at hcarries
    have hrefused : (!ctx.policy.allowAmplification ||
        !ctx.signal.authority.amplificationAuthorized) = true := by
      rw [← Bool.not_and]
      exact congrArg not hgrant
    rw [if_pos hrefused] at hcarries
    split at hcarries
    · cases hcarries
    case isFalse hplain => exact Bool.not_eq_true _ ▸ hplain
  have hnext : c.carried.next.raw = TraversalContext.scaled c.edge x.entry.potential.raw := by
    rw [(carries_ungranted hgrant hpassed.carries).1, Potential.raw_attenuated]
    rfl
  refine ⟨_, ⟨c.edgeIndex, c.edge, ⟨⟨x.res, hexpandable.resourceAt, hexpandable.forwards,
    hexpandable.egress⟩, hmade.indices.subset (List.mem_map_of_mem hc), hpassed.edgeAt,
    hadmitted.pin, hadmitted.attenuation, hadmitted.pressure, hplain, indexOf_of_admits hadm,
    ⟨toRes, hadmitted.resourceAt, hadmitted.receives⟩, hadmitted.covered, hadmitted.ingress⟩, rfl⟩,
    ?_, hnext⟩
  have hundamped := hpassed.undamped
  unfold TraversalContext.damps at hundamped
  split at hundamped
  · cases hundamped
  case isFalse hfloor =>
    rw [← hnext]
    exact Nat.not_lt.mp hfloor

/-- No refusal for a limit is noted. -/
def Unlimited (t : Traversal pq) : Prop := ∀ reason ∈ TraversalContext.limits, ¬Noted reason t

theorem Unlimited.of_heeds (h : t'.Unlimited) (hheeds : t.Heeds t') : t.Unlimited :=
  fun reason hreason hnoted => h reason hreason (hheeds reason hnoted)

/-- While no limit binds, the visits and the queue are those of a best-first search. -/
structure Searching (ctx : TraversalContext) (i : Nat) (xs : List Visit) (t : Traversal pq) :
    Prop where
  settled : t.settled = (xs.map fun x => x.entry.node).reverse
  located : ∀ e ∈ pq.contents t.queue, e.node < ctx.topo.resources.length
  search : t.Unlimited → Search ctx.network i ctx.seed.raw
    ((xs.map fun x => offer x.entry).reverse) ((pq.contents t.queue).map offer)

theorem nodes_of_offers : (((xs.map fun x => offer x.entry).reverse).map Prod.fst) =
    (xs.map fun x => x.entry.node).reverse := by
  rw [List.map_reverse, List.map_map]
  rfl

theorem offers_pop {e : QueueEntry} (hpop : pq.pop t.queue = some (e, queue)) (z : Nat × Nat) :
    z ∈ (pq.contents t.queue).map offer ↔ z = offer e ∨ z ∈ (pq.contents queue).map offer := by
  rw [((pq.contents_pop _ _ _ hpop).map offer).mem_iff, List.map_cons, List.mem_cons]

theorem Searching.visit (hgrant : ctx.amplificationGranted = false) (h : Searching ctx i xs t)
    (hmade : Visit.Made ctx x t queue t') : Searching ctx i (xs ++ [x]) t' := by
  have hsettled : t'.settled = ((xs ++ [x]).map fun x => x.entry.node).reverse := by
    rw [hmade.settled, h.settled, List.map_append, List.reverse_append]
    rfl
  have hqueue : ∀ e, e ∈ pq.contents t'.queue ↔ e ∈ x.arrivals ∨ e ∈ pq.contents queue := by
    intro e
    rw [hmade.queue.mem_iff, List.mem_append]
  refine ⟨hsettled, fun e he => ?_, fun hfree => ?_⟩
  · rcases (hqueue e).mp he with harrival | hrest
    · obtain ⟨c, hc, rfl⟩ := List.mem_map.mp harrival
      obtain ⟨expansions, fanout, hadm⟩ := (hmade.passed c hc).admitted
      obtain ⟨toRes, hadmitted⟩ := of_admits hadm
      exact (List.getElem?_eq_some_iff.mp hadmitted.resourceAt).1
    · exact h.located e ((Lib.PriorityQueue.mem_pop hmade.popped).mpr (.inr hrest))
  have hsearch := h.search (hfree.of_heeds hmade.heeds)
  have hnew : (offer x.entry).1 ∉ ((xs.map fun x => offer x.entry).reverse).map Prod.fst := by
    rw [nodes_of_offers, ← h.settled]
    exact hmade.unsettled
  rw [List.map_append, List.reverse_append]
  refine hsearch.settle (offers_pop hmade.popped) hnew (fun z hz => ?_) (fun z hz => ?_)
    (fun z hz => ?_) fun v f harc hfloor => ?_
  · obtain ⟨e, he, rfl⟩ := List.mem_map.mp hz
    exact potential_le_top hmade.popped he
  · obtain ⟨e, he, rfl⟩ := List.mem_map.mp hz
    exact List.mem_map_of_mem ((hqueue e).mpr (.inr he))
  · obtain ⟨e, he, rfl⟩ := List.mem_map.mp hz
    rcases (hqueue e).mp he with harrival | hrest
    · obtain ⟨c, hc, rfl⟩ := List.mem_map.mp harrival
      exact .inr (arc_of_crossed hgrant hmade hc)
    · exact .inl (List.mem_map_of_mem hrest)
  · obtain ⟨k, edge, hadmissible, rfl⟩ := harc
    obtain ⟨res, hres, hforwards, hegress⟩ := hadmissible.leaves
    obtain rfl : res = x.res := Option.some.inj (hres.symm.trans hmade.resourceAt)
    have hdepth : x.entry.depth < ctx.authorityHops := by
      by_contra hclosed
      refine hfree .maxHops (by decide)
        (hmade.closed (Nat.not_lt.mp hclosed) k hadmissible.outEdge ?_)
      rw [hadmissible.edgeAt]
      exact Option.some_ne_none edge
    rcases hmade.refused ⟨hmade.resourceAt, hdepth, hforwards, hegress⟩ k hadmissible.outEdge with
      hcrossed | hmissing | htrunc | ⟨edge', reason, hedge, hrefuses, hnoted⟩
    · obtain ⟨c, hc, rfl⟩ := List.mem_map.mp hcrossed
      have hpassed := hmade.passed c hc
      obtain rfl : c.edge = edge := Option.some.inj (hpassed.edgeAt.symm.trans hadmissible.edgeAt)
      obtain ⟨expansions, fanout, hadm⟩ := hpassed.admitted
      have htarget : c.toIndex = v :=
        Option.some.inj ((indexOf_of_admits hadm).symm.trans hadmissible.target)
      have hnext := (carries_ungranted hgrant hpassed.carries).1
      have hoffer : offer (c.arrival x.entry) =
          (v, TraversalContext.scaled c.edge x.entry.potential.raw) :=
        Prod.ext htarget (congrArg Potential.raw hnext)
      refine .inr (.inr (hoffer ▸ List.mem_map_of_mem ((hqueue _).mpr (.inl ?_))))
      exact List.mem_map_of_mem hc
    · rw [hadmissible.edgeAt] at hmissing
      cases hmissing
    · exact absurd (.inl htrunc) (hfree .maxHops (by decide))
    · obtain rfl : edge' = edge := Option.some.inj (hedge.symm.trans hadmissible.edgeAt)
      rcases hadmissible.refused hfloor hrefuses with hlimit | hset
      · exact absurd hnoted (hfree reason hlimit)
      · rcases List.mem_cons.mp hset with hself | hset
        · exact .inl hself
        · rw [nodes_of_offers, ← h.settled]
          exact .inr (.inl hset)

theorem Searching.skip (h : Searching ctx i xs t) (hidle : IdleCase ctx t (.again t')) :
    Searching ctx i xs t' := by
  cases hidle with
  | @skip e queue hpop hskipped =>
    have hrest : ∀ e' ∈ pq.contents queue, e' ∈ pq.contents t.queue := fun e' he' =>
      (Lib.PriorityQueue.mem_pop hpop).mpr (.inr he')
    refine ⟨h.settled, fun e' he' => h.located e' (hrest e' he'), fun hfree => ?_⟩
    have hset : e.node ∈ t.settled := hskipped.resolve_left
      (Nat.not_le.mpr (h.located e (Lib.PriorityQueue.top_mem hpop)))
    refine (h.search hfree).skip (offers_pop hpop) ?_
    rw [nodes_of_offers, ← h.settled]
    exact hset

/-- Nothing but the gates has held the traversal back: its queue has run empty, its explanation is
whole, and no edge was refused for a limit. -/
structure Unhindered (t : Traversal pq) : Prop where
  emptied : pq.contents t.queue = []
  whole : t.truncated = false
  free : ∀ r ∈ t.expl.suppressed, r.reason ∉ TraversalContext.limits

/-- The loop has settled what a best-first search settles. -/
def Searched (ctx : TraversalContext) (i : Nat) (xs : List Visit) (t : Traversal pq) : Prop :=
  t.Unlimited → pq.contents t.queue = [] →
    Search ctx.network i ctx.seed.raw ((xs.map fun x => offer x.entry).reverse) []

theorem Searching.searched (h : Searching ctx i xs t) : Searched ctx i xs t := by
  intro hfree hempty
  have hsearch := h.search hfree
  rwa [hempty, List.map_nil] at hsearch

theorem Searching.stop (h : Searching ctx i xs t) (hidle : IdleCase ctx t (.stop t')) :
    Searched ctx i xs t' := by
  cases hidle with
  | empty => exact h.searched
  | @visited e queue _ hpop _ htidy =>
    intro _ hempty
    rw [htidy.queue] at hempty
    have htop := Lib.PriorityQueue.top_mem hpop
    rw [hempty] at htop
    cases htop
  | abandon _ _ _ _ _ htrunc =>
    exact fun hfree _ => absurd (.inl htrunc) (hfree .maxHops (by decide))

/-- The origin takes pressure in. -/
structure Open (ctx : TraversalContext) (origin : Resource) : Prop where
  receives : origin.canReceive = true
  ingress : ctx.ingressFence origin.id = none

/-- A traversal that nothing but the gates holds back settles what its best-first search settles. -/
theorem searched_loop {s : Traversal pq} {origin : Resource} (fresh : t.Fresh)
    (hgrant : ctx.amplificationGranted = false) (henter : t.enter ctx = .ok s)
    (horigin : Origin ctx i origin)
    (htidy : Tidy ctx.topo { t with queue := pq.push t.queue (originEntry ctx i) } s)
    (hfree : (s.loop ctx).Unhindered) :
    Search ctx.network i ctx.seed.raw ((settlements ctx t).map offer).reverse [] := by
  obtain ⟨hqueue, hsize⟩ := seeded_queue fresh htidy
  have hstart : Searching ctx i [] s := by
    refine ⟨htidy.settled.trans fresh.settled, fun e he => ?_, fun _ => ?_⟩
    · rw [(hqueue e).mp he]
      exact (List.getElem?_eq_some_iff.mp horigin.resourceAt).1
    · have hone : pq.contents s.queue = [originEntry ctx i] := by
        obtain ⟨e, he⟩ := List.length_eq_one_iff.mp (Nat.le_antisymm hsize
          (List.length_pos_of_mem ((hqueue _).mpr rfl)))
        rw [he, (hqueue e).mp (he ▸ List.mem_cons_self)]
      rw [hone]
      exact .start
  have hsearched := tour_invariant (P := Searching ctx i) (Q := Searched ctx i)
    (fun _ _ _ _ _ h => h.visit hgrant) (fun _ _ _ h => h.skip) (fun _ _ _ h => h.stop)
    (fun _ _ h => h.searched) hstart hsize
  have hentries : (settlements ctx t).map offer =
      (Lib.Turns.log (visiting ctx) (turn ctx) (fuel ctx) s).map fun x => offer x.entry := by
    rw [← entries_visits, visits, henter, List.map_map]
    rfl
  rw [hentries]
  refine hsearched (fun reason hreason hnoted => ?_) ?_
  · rcases flushOrTruncate_reports hnoted with htrunc | ⟨r, hr, hsame⟩
    · exact absurd (htrunc.symm.trans hfree.whole) (by decide)
    · exact hfree.free r hr (hsame ▸ hreason)
  · have hflushed : Tidy ctx.topo (Lib.Turns.run (turn ctx) (fuel ctx) s) (s.loop ctx) :=
      tidy_flushOrTruncate
    rw [← hflushed.queue]
    exact hfree.emptied

/-- The entries settle the resources that some path of admissible edges reaches from an open origin,
each with the greatest potential that a path carries there. -/
structure Strongest (ctx : TraversalContext) (i : Nat) (origin : Resource)
    (entries : List QueueEntry) : Prop where
  start : Origin ctx i origin
  reached : ∀ n, (∃ e ∈ entries, e.node = n) ↔
    Open ctx origin ∧ ∃ p, Arrives ctx.network i ctx.seed.raw n p
  greatest : ∀ e ∈ entries,
    IsGreatest {p | Arrives ctx.network i ctx.seed.raw e.node p} e.potential.raw

theorem strongest_of_search {origin : Resource} {entries : List QueueEntry}
    (horigin : Origin ctx i origin) (hopen : Open ctx origin)
    (hsearch : Search ctx.network i ctx.seed.raw (entries.map offer).reverse []) :
    Strongest ctx i origin entries := by
  have hmem : ∀ e ∈ entries, offer e ∈ (entries.map offer).reverse := fun e he =>
    List.mem_reverse.mpr (List.mem_map_of_mem he)
  refine ⟨horigin, fun n => ?_, fun e he => hsearch.optimal.mp (hmem e he)⟩
  rw [and_iff_right hopen, ← hsearch.settled_iff]
  constructor
  · rintro ⟨e, he, rfl⟩
    exact List.mem_map_of_mem (hmem e he)
  · intro hn
    obtain ⟨z, hz, rfl⟩ := List.mem_map.mp hn
    obtain ⟨e, he, rfl⟩ := List.mem_map.mp (List.mem_reverse.mp hz)
    exact ⟨e, he, rfl⟩

theorem strongest_run (fresh : t.Fresh) (hgrant : ctx.amplificationGranted = false)
    (hok : (t.run ctx).1.ok = true) (hfree : (t.run ctx).2.Unhindered) :
    ∃ i origin, Strongest ctx i origin (settlements ctx t) := by
  have hcases := enter_cases ctx fresh
  generalize henter : t.enter ctx = r at hcases
  cases hcases with
  | @refused st hno =>
    unfold run at hok
    rw [henter] at hok
    exact absurd (hok.symm.trans hno) (by decide)
  | @blocked i origin _ horigin hclosed =>
    have hshut : ¬Open ctx origin := by
      intro hopen
      rcases hclosed with hfenced | hblocked
      · exact hfenced hopen.ingress
      · exact absurd (hblocked.symm.trans hopen.receives) (by decide)
    rw [settlements_of_error henter]
    refine ⟨i, origin, horigin, fun n => iff_of_false ?_ fun h => hshut h.1, fun e he => ?_⟩
    · rintro ⟨e, he, -⟩
      cases he
    · cases he
  | @seeded i origin s horigin hingress hreceives htidy =>
    rw [(run_of_enter henter).1] at hfree
    exact ⟨i, origin, strongest_of_search horigin ⟨hreceives, hingress⟩
      (searched_loop fresh hgrant henter horigin htidy hfree)⟩

/-- What is settled strongest does not depend on how it was found. -/
theorem Strongest.subset {i' : Nat} {origin origin' : Resource} {entries entries' : List QueueEntry}
    (h : Strongest ctx i origin entries) (h' : Strongest ctx i' origin' entries') :
    entries.map offer ⊆ entries'.map offer := by
  intro z hz
  obtain ⟨e, he, rfl⟩ := List.mem_map.mp hz
  obtain rfl : i = i' := Option.some.inj (h.start.indexOf.symm.trans h'.start.indexOf)
  obtain rfl : origin = origin' :=
    Option.some.inj (h.start.resourceAt.symm.trans h'.start.resourceAt)
  obtain ⟨e', he', hnode⟩ := (h'.reached e.node).mpr ((h.reached e.node).mp ⟨e, he, rfl⟩)
  have hgreatest := h'.greatest e' he'
  rw [hnode] at hgreatest
  have hsame : offer e = offer e' :=
    Prod.ext hnode.symm ((h.greatest e he).unique hgreatest)
  exact hsame ▸ List.mem_map_of_mem he'

end Traversal

namespace PropagationEngine

open Traversal

/-- Without authorised amplification, a traversal that nothing but the gates holds back settles each
resource that some path of admissible edges reaches, with the greatest potential that a path carries
there, and no others. -/
theorem settles_strongest (pq : EntryQueue) (topo : Topology) (policy : PropagationPolicy)
    (ledger : PropagationLedger) (fences : Option FenceTable) (pins : List (Option Generation))
    (request : PropagationRequest) (s : PressureSignal) :
    let ctx := traversalContext topo policy ledger fences pins request s
    let start := startTraversal pq topo policy request
      (progressBefore pq topo policy ledger fences pins request s) s
    ctx.amplificationGranted = false → (start.run ctx).1.ok = true → (start.run ctx).2.Unhindered →
      ∃ i origin, Strongest ctx i origin (settlements ctx start) :=
  fun hgrant hok hfree => strongest_run startTraversal_fresh hgrant hok hfree

/-- The longer way carries more than the shortcut, and nothing holds the traversal back. -/
theorem settles_strongest_detour :
    let ctx := traversalContext detourTopology probePolicy (.make 4 4 4) none
      [none, none, none, none, none] detourRequest detourSignal
    let start := startTraversal .scan detourTopology probePolicy detourRequest
      (progressBefore .scan detourTopology probePolicy (.make 4 4 4) none
        [none, none, none, none, none] detourRequest detourSignal) detourSignal
    ∃ i origin, Strongest ctx i origin (settlements ctx start) :=
  settles_strongest .scan detourTopology probePolicy (.make 4 4 4) none
    [none, none, none, none, none] detourRequest detourSignal rfl (by decide +kernel)
    ⟨by decide +kernel, by decide +kernel, by decide +kernel⟩

/-- Two queues that keep to the order, and break its ties in any way, make such a traversal settle
the same resources with the same potentials. -/
theorem any_queue_settles (pq pq' : EntryQueue) (topo : Topology) (policy : PropagationPolicy)
    (ledger : PropagationLedger) (fences : Option FenceTable) (pins : List (Option Generation))
    (request : PropagationRequest) (s : PressureSignal) :
    let ctx := traversalContext topo policy ledger fences pins request s
    let start := startTraversal pq topo policy request
      (progressBefore pq topo policy ledger fences pins request s) s
    let start' := startTraversal pq' topo policy request
      (progressBefore pq' topo policy ledger fences pins request s) s
    ctx.amplificationGranted = false →
      (start.run ctx).1.ok = true → (start.run ctx).2.Unhindered →
      (start'.run ctx).1.ok = true → (start'.run ctx).2.Unhindered →
      ∀ z, z ∈ (settlements ctx start).map offer ↔ z ∈ (settlements ctx start').map offer := by
  intro ctx start start' hgrant hok hfree hok' hfree' z
  obtain ⟨i, origin, hstrongest⟩ := strongest_run startTraversal_fresh hgrant hok hfree
  obtain ⟨i', origin', hstrongest'⟩ := strongest_run startTraversal_fresh hgrant hok' hfree'
  exact ⟨fun hz => hstrongest.subset hstrongest' hz, fun hz => hstrongest'.subset hstrongest hz⟩

/-- The scan of a list to whose back the new entries go: of two equal ones the older comes first. -/
def patient : EntryQueue :=
  { EntryQueue.scan with
    push := fun (q : List QueueEntry) a => q ++ [a]
    contents_push := fun q a => List.perm_append_singleton a q }

/-- Two ways of the same length and strength lead from resource 7 to resource 10. -/
def diamondTopology : Topology :=
  probeTopology ([7, 8, 9, 10].map fun id => probeResource ⟨id⟩)
    [probeEdge ⟨1⟩ ⟨7⟩ ⟨8⟩, probeEdge ⟨2⟩ ⟨7⟩ ⟨9⟩, probeEdge ⟨3⟩ ⟨8⟩ ⟨10⟩, probeEdge ⟨4⟩ ⟨9⟩ ⟨10⟩]

def diamondRequest : PropagationRequest := probeRequest probePolicy diamondTopology ⟨7⟩ 5

def diamondSignal : PressureSignal := probeSignal probePolicy diamondTopology ⟨7⟩ 5

def diamondStart (pq : EntryQueue) : Traversal pq :=
  startTraversal pq diamondTopology probePolicy diamondRequest
    (progressBefore pq diamondTopology probePolicy (.make 4 4 4) none [none, none, none, none]
      diamondRequest diamondSignal) diamondSignal

/-- The two queues settle resource 10 from different sides, with one potential. -/
theorem any_queue_settles_diamond :
    let ctx := traversalContext diamondTopology probePolicy (.make 4 4 4) none
      [none, none, none, none] diamondRequest diamondSignal
    (settlements ctx (diamondStart .scan)).map QueueEntry.parent ≠
        (settlements ctx (diamondStart patient)).map QueueEntry.parent ∧
      ∀ z, z ∈ (settlements ctx (diamondStart .scan)).map offer ↔
        z ∈ (settlements ctx (diamondStart patient)).map offer :=
  ⟨by decide +kernel, any_queue_settles .scan patient diamondTopology probePolicy (.make 4 4 4) none
    [none, none, none, none] diamondRequest diamondSignal rfl (by decide +kernel)
    ⟨by decide +kernel, by decide +kernel, by decide +kernel⟩ (by decide +kernel)
    ⟨by decide +kernel, by decide +kernel, by decide +kernel⟩⟩

end PropagationEngine

end Backpressure
