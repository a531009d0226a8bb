import Backpressure.Engine.Paths
import Backpressure.Engine.Served

/-!
# Pressure that comes too late

An edge into a settled resource is refused, whatever it carries. When its target was settled, the
signal already stood somewhere on its way to the edge, with no more than the target was settled
with. What it carries is too much only if the rest of the way has raised it.
-/

namespace Backpressure

namespace Traversal

variable {pq : EntryQueue} {ctx : TraversalContext} {t u v : Traversal pq} {xs before : List Visit}
  {x : Visit} {a e : QueueEntry} {es way rest : List DependencyEdge} {edge : DependencyEdge}
  {p q : Potential} {i o : Nat}

/-! ## What a way does to the pressure -/

/-- What the edges of a way leave of a potential, unless an amplification is refused. -/
def passedOver (es : List DependencyEdge) (p : Potential) : Option Potential :=
  es.foldlM (fun p edge =>
    if edge.isAmplifying then
      ((p.attenuated edge.attenuation).amplified edge.amplification).toOption
    else some (p.attenuated edge.attenuation)) p

theorem passedOver_nil : passedOver [] p = some p := rfl

theorem passedOver_append : passedOver (es ++ way) p = (passedOver es p).bind (passedOver way) :=
  List.foldlM_append

theorem passedOver_singleton (h : PassedOn edge p q) : passedOver [edge] p = some q := by
  unfold PassedOn at h
  unfold passedOver
  rw [List.foldlM_cons]
  split at h
  case isTrue hamp =>
    rw [if_pos hamp, h]
    rfl
  case isFalse hamp =>
    rw [if_neg hamp, h]
    rfl

theorem passedOver_concat (hes : passedOver es p = some q) {r : Potential}
    (h : PassedOn edge q r) : passedOver (es ++ [edge]) p = some r := by
  rw [passedOver_append, hes, Option.bind_some, passedOver_singleton h]

/-- An entry carries what the way to it leaves of the potential at its beginning. -/
theorem Tour.passedOver_conveys (h : Tour ctx o xs t) (hes : Conveys xs a es e) :
    passedOver es a.potential = some e.potential := by
  induction hes with
  | here => exact passedOver_nil
  | across _ hx hc ih =>
    obtain ⟨settled, -, hpassed⟩ := (h.lawful _ hx).passed _ hc
    exact passedOver_concat ih (passedOn_of_carries hpassed.carries).1

/-- Behind the first way, the second one leaves more of the seed than the first one. -/
def Raises (seed : Potential) (way rest : List DependencyEdge) : Prop :=
  ∃ p q, passedOver way seed = some p ∧ passedOver rest p = some q ∧ p.raw < q.raw

/-! ## What came before a resource was settled -/

/-- The visits before the one that settles a resource. -/
def visitsBefore (xs : List Visit) (i : Nat) : List Visit :=
  xs.takeWhile fun x => decide (x.entry.node ≠ i)

theorem visitsBefore_eq (hpre : before ++ [x] <+: xs)
    (hnew : ∀ y ∈ before, y.entry.node ≠ x.entry.node) : visitsBefore xs x.entry.node = before := by
  obtain ⟨rest, rfl⟩ := hpre
  unfold visitsBefore
  rw [List.append_assoc, List.takeWhile_append_of_pos (by simpa using hnew)]
  simp

theorem visitsBefore_subset (hpre : before ++ [x] <+: xs)
    (hi : ∃ y ∈ before ++ [x], y.entry.node = i) : visitsBefore xs i ⊆ before := by
  obtain ⟨rest, rfl⟩ := hpre
  unfold visitsBefore
  induction before with
  | nil =>
    obtain ⟨y, hy, rfl⟩ := hi
    obtain rfl := List.mem_singleton.mp hy
    simp
  | cons z before ih =>
    rw [List.cons_append, List.cons_append, List.takeWhile_cons]
    split
    case isTrue hne =>
      refine List.cons_subset_cons z (ih ?_)
      obtain ⟨y, hy, hnode⟩ := hi
      rcases List.mem_cons.mp hy with rfl | hy
      · exact absurd hnode (of_decide_eq_true hne)
      · exact ⟨y, hy, hnode⟩
    case isFalse => exact List.nil_subset _

/-- When the resource was settled, the signal stood at `a`, behind the first part of its way to `e`:
the entry had come, and had not been settled before. -/
structure Stood (ctx : TraversalContext) (o : Nat) (xs : List Visit) (i : Nat)
    (way : List DependencyEdge) (a : QueueEntry) (rest : List DependencyEdge) (e : QueueEntry) :
    Prop where
  comes : Comes ctx o (visitsBefore xs i) a
  unsettled : ∀ y ∈ visitsBefore xs i, y.entry.node ≠ a.node
  reaches : Conveys xs (originEntry ctx o) way a
  leaves : Conveys xs a rest e

/-- On the way to whatever comes later the signal stood somewhere. -/
theorem Tour.exists_stood (h : Tour ctx o xs t) (he : Comes ctx o xs e)
    (hnew : ∀ y ∈ visitsBefore xs i, y.entry.node ≠ e.node) :
    ∃ way a rest, Stood ctx o xs i way a rest e := by
  refine h.induction (P := fun e => (∀ y ∈ visitsBefore xs i, y.entry.node ≠ e.node) →
    ∃ way a rest, Stood ctx o xs i way a rest e)
    (fun hnew => ⟨[], _, [], .inl rfl, hnew, .here, .here⟩) ?_ he hnew
  rintro y hy c hc settled - ih hnew
  by_cases hbefore : y ∈ visitsBefore xs i
  · obtain ⟨way, hway⟩ := h.conveyed (h.entries y hy)
    exact ⟨_, _, [], .inr ⟨y, hbefore, c, hc, rfl⟩, hnew, hway.across hy hc, .here⟩
  · -- the source of the crossing is settled no sooner either
    obtain ⟨way, a, rest, hcomes, hunsettled, hway, hrest⟩ := ih fun z hz hnode => by
      have hz' : z ∈ xs := (List.takeWhile_prefix _).subset hz
      obtain rfl := List.inj_on_of_nodup_map h.nodup hz' hy hnode
      exact hbefore hz
    exact ⟨way, a, _, hcomes, hunsettled, hway, hrest.across hy hc⟩

/-- The rest of the way raises the pressure exactly when the edge carries more than there was where
the signal stood. -/
theorem Tour.raises_iff {carried : TraversalContext.Carried} (h : Tour ctx o xs t)
    (hstood : Stood ctx o xs i way a rest e) (hcarries : ctx.carries e edge = .ok carried) :
    Raises ctx.seed way (rest ++ [edge]) ↔ a.potential.raw < carried.next.raw := by
  have hway : passedOver way ctx.seed = some a.potential := h.passedOver_conveys hstood.reaches
  have hrest : passedOver (rest ++ [edge]) a.potential = some carried.next :=
    passedOver_concat (h.passedOver_conveys hstood.leaves) (passedOn_of_carries hcarries).1
  constructor
  · rintro ⟨p, q, hp, hq, hless⟩
    obtain rfl := Option.some.inj (hway.symm.trans hp)
    obtain rfl := Option.some.inj (hrest.symm.trans hq)
    exact hless
  · exact fun hless => ⟨_, _, hway, hrest, hless⟩

/-! ## The turns in which resources are settled -/

/-- What has come is queued or answered, and exactly the visited resources are settled. -/
structure Orderly (ctx : TraversalContext) (o : Nat) (xs : List Visit) (t : Traversal pq) :
    Prop where
  serving : Serving ctx o xs t
  settled : t.settled = (xs.map fun x => x.entry.node).reverse

theorem Orderly.turn (h : Orderly ctx o xs v) (hturn : turn ctx v = .again u) :
    Orderly ctx o (xs ++ (visiting ctx v).toList) u := by
  refine keeps_turn (fun xs x v queue v' h hmade => ⟨h.serving.visit hmade, ?_⟩)
    (fun xs v v' h hidle => ⟨h.serving.skip hidle, ?_⟩) h hturn
  · rw [hmade.settled, h.settled, List.map_append, List.reverse_append]
    rfl
  · cases hidle with
    | skip => exact h.settled

/-- The resource that a visit settles has not been settled before. -/
theorem Orderly.unvisited {queue : pq.Carrier} (h : Orderly ctx o before v)
    (hmade : Visit.Made ctx x v queue u) : ∀ y ∈ before, y.entry.node ≠ x.entry.node := by
  intro y hy hnode
  have hunsettled := hmade.unsettled
  rw [h.settled, List.mem_reverse] at hunsettled
  exact hunsettled (List.mem_map.mpr ⟨y, hy, hnode⟩)

/-- A turn begins behind the visits before it. -/
theorem orderly_begun (fresh : t.Fresh) (hv : v ∈ begun ctx t) :
    ∃ o origin before, Origin ctx o origin ∧ Orderly ctx o before v ∧
      before ++ (visiting ctx v).toList <+: visits ctx t := by
  unfold begun at hv
  have hcases := enter_cases ctx fresh
  cases henter : t.enter ctx with
  | error done =>
    rw [henter] at hv
    cases hv
  | ok s =>
    rw [henter] at hv hcases
    cases hcases with
    | @seeded o origin _ horigin _ _ htidy =>
      obtain ⟨before, horderly, hpre⟩ := Lib.Turns.log_prefix
        (fun _ _ _ h hturn => Orderly.turn h hturn) hv (l := [])
        ⟨.start fresh horigin htidy, htidy.settled.trans fresh.settled⟩
      rw [List.nil_append] at horderly
      refine ⟨o, origin, before, horigin, horderly, ?_⟩
      unfold visits
      rw [henter]
      exact hpre

/-- Where the signal stood when a resource was settled, there was no more than the resource was
settled with. -/
theorem stood_le (fresh : t.Fresh) (hx : x ∈ visits ctx t)
    (horigin : ctx.topo.indexOf ctx.signal.origin = some o)
    (h : Stood ctx o (visits ctx t) x.entry.node way a rest e) :
    a.potential.raw ≤ x.entry.potential.raw := by
  obtain ⟨v, hv, hvisiting⟩ := mem_visits.mp hx
  obtain ⟨o', origin, before, horigin', horderly, hpre⟩ := orderly_begun fresh hv
  obtain rfl : o' = o := Option.some.inj (horigin'.indexOf.symm.trans horigin)
  cases hs : settling ctx v with
  | none =>
    rw [visiting_of_idle hs] at hvisiting
    cases hvisiting
  | some entry =>
    obtain ⟨y, queue, hy, rfl, hmade⟩ := visiting_of_settling hs
    obtain rfl : y = x := Option.some.inj (hy.symm.trans hvisiting)
    rw [hvisiting, Option.toList_some] at hpre
    obtain ⟨hcomes, hunsettled, -, -⟩ := h
    rw [visitsBefore_eq hpre (horderly.unvisited hmade)] at hcomes hunsettled
    rcases horderly.serving.awaited a hcomes with hqueued | ⟨z, hz, hnode, -⟩
    · rcases (Lib.PriorityQueue.mem_pop hmade.popped).mp hqueued with rfl | hqueued
      · exact Nat.le_refl _
      · exact potential_le_top hmade.popped hqueued
    · exact absurd hnode (hunsettled z hz)

/-- An edge that is refused because its target is settled, and would pass every other gate, would
have delivered no more than the potential with which its target was settled. -/
def SettledHighest (ctx : TraversalContext) (t : Traversal pq) : Prop :=
  ∀ x ∈ handled ctx t, ∀ edge counted, .refused edge .nodeAlreadySettled counted ∈ x.fates →
    ∀ e ∈ settlements ctx t, e.node = x.node → ∀ carried, ctx.Offers e edge carried →
      ∃ e' ∈ settlements ctx t, ctx.topo.indexOf edge.dst = some e'.node ∧
        carried.next.raw ≤ e'.potential.raw

/-- The rest of the way over such an edge, from where the signal stood when the target was settled,
does not raise the pressure. -/
def Timely (ctx : TraversalContext) (t : Traversal pq) : Prop :=
  ∀ x ∈ handled ctx t, ∀ edge counted, .refused edge .nodeAlreadySettled counted ∈ x.fates →
    ∀ e ∈ settlements ctx t, e.node = x.node → (∃ carried, ctx.Offers e edge carried) →
      ∀ o i, ctx.topo.indexOf ctx.signal.origin = some o → ctx.topo.indexOf edge.dst = some i →
        ∀ way a rest, Stood ctx o (visits ctx t) i way a rest e →
          ¬Raises ctx.seed way (rest ++ [edge])

/-- The edges of a settled resource are gone through in the turn that settles it. -/
theorem begun_of_handled (fresh : t.Fresh) {y : Handled} (hy : y ∈ handled ctx t)
    (he : e ∈ settlements ctx t) (hnode : e.node = y.node) :
    ∃ v ∈ begun ctx t, settling ctx v = some e ∧ ∃ res,
      y = ctx.handledAt (e.node :: v.settled) v.expansions e res := by
  obtain ⟨v, hv, hhandling⟩ : ∃ v ∈ begun ctx t, handling ctx v = some y := by
    unfold handled at hy
    unfold begun
    cases henter : t.enter ctx with
    | error done =>
      rw [settlements_of_error henter] at he
      cases he
    | ok s =>
      rw [henter] at hy
      exact Lib.Turns.mem_log.mp hy
  obtain ⟨entry, hsettling, hhandling⟩ := Option.bind_eq_some_iff.mp hhandling
  obtain ⟨res, hres, rfl⟩ := Option.map_eq_some_iff.mp hhandling
  obtain rfl : e = entry := List.inj_on_of_nodup_map (nodup_settlements ctx fresh) he
    (mem_settlements.mpr ⟨v, hv, hsettling⟩) (hnode.trans res_handledAt.2)
  exact ⟨v, hv, hsettling, res, rfl⟩

/-- While a resource is settled, the visits are a tour from the origin. -/
theorem tour_of_settled (fresh : t.Fresh) (he : e ∈ settlements ctx t)
    (horigin : ctx.topo.indexOf ctx.signal.origin = some o) :
    ∃ t' : Traversal pq, Tour ctx o (visits ctx t) t' := by
  rcases run_settles ctx fresh with ⟨-, -, hnone⟩ | ⟨t', hrun⟩
  · rw [hnone] at he
    cases he
  · obtain ⟨o', origin, horigin', htoured⟩ := visits_run fresh hrun
    obtain rfl : o' = o := Option.some.inj (horigin'.indexOf.symm.trans horigin)
    exact ⟨t', htoured.toTour⟩

/-- The target of an edge that is refused as settled is settled, and the signal stood somewhere on
its way to the edge when it was. -/
theorem stood_of_refused (fresh : t.Fresh) {y : Handled} {edge : DependencyEdge} {counted : Bool}
    (hy : y ∈ handled ctx t) (hrefused : .refused edge .nodeAlreadySettled counted ∈ y.fates)
    (he : e ∈ settlements ctx t) (hnode : e.node = y.node) :
    ∃ o x way a rest, ctx.topo.indexOf ctx.signal.origin = some o ∧ x ∈ visits ctx t ∧
      ctx.topo.indexOf edge.dst = some x.entry.node ∧
      Stood ctx o (visits ctx t) x.entry.node way a rest e := by
  obtain ⟨v, hv, hsettling, res, rfl⟩ := begun_of_handled fresh hy he hnode
  obtain ⟨_, _, -, _, _, hfate⟩ := ctx.fateOf_of_refused
    (ctx.fates_of_handledAt hrefused (by decide))
  obtain ⟨i, hi, hindex⟩ := TraversalContext.settled_of_fateOf hfate
  obtain ⟨o, origin, before, horigin, horderly, hpre⟩ := orderly_begun fresh hv
  obtain ⟨x, queue, hvisiting, rfl, hmade⟩ := visiting_of_settling hsettling
  rw [hvisiting, Option.toList_some] at hpre
  -- the target is settled by one of the visits up to this one
  obtain ⟨z, hz, rfl⟩ : ∃ z ∈ before ++ [x], z.entry.node = i := by
    rw [horderly.settled] at hi
    rcases List.mem_cons.mp hi with rfl | hi
    · exact ⟨x, List.mem_append_right _ List.mem_cons_self, rfl⟩
    · obtain ⟨z, hz, rfl⟩ := List.mem_map.mp (List.mem_reverse.mp hi)
      exact ⟨z, List.mem_append_left _ hz, rfl⟩
  have hnew : ∀ w ∈ visitsBefore (visits ctx t) z.entry.node, w.entry.node ≠ x.entry.node :=
    fun w hw => horderly.unvisited hmade w (visitsBefore_subset hpre ⟨z, hz, rfl⟩ hw)
  have hvisits : before ++ [x] ⊆ visits ctx t := hpre.subset
  have hx : x ∈ visits ctx t := hvisits (List.mem_append_right _ List.mem_cons_self)
  obtain ⟨t', htour⟩ := tour_of_settled fresh he horigin.indexOf
  obtain ⟨way, a, rest, hstood⟩ := htour.exists_stood (htour.entries x hx) hnew
  exact ⟨o, z, way, a, rest, horigin.indexOf, hvisits hz, hindex, hstood⟩

theorem raises_iff (fresh : t.Fresh) {carried : TraversalContext.Carried}
    (he : e ∈ settlements ctx t) (hoffers : ctx.Offers e edge carried)
    (horigin : ctx.topo.indexOf ctx.signal.origin = some o)
    (hstood : Stood ctx o (visits ctx t) i way a rest e) :
    Raises ctx.seed way (rest ++ [edge]) ↔ a.potential.raw < carried.next.raw := by
  obtain ⟨t', htour⟩ := tour_of_settled fresh he horigin
  obtain ⟨-, -, -, -, hcarries, -⟩ := hoffers
  exact htour.raises_iff hstood hcarries

theorem settledHighest_of_timely (fresh : t.Fresh) (htimely : Timely ctx t) :
    SettledHighest ctx t := by
  intro y hy edge counted hrefused e he hnode carried hoffers
  obtain ⟨o, x, way, a, rest, horigin, hx, hindex, hstood⟩ :=
    stood_of_refused fresh hy hrefused he hnode
  refine ⟨x.entry, entries_visits ▸ List.mem_map_of_mem hx, hindex, ?_⟩
  have hraises := htimely y hy edge counted hrefused e he hnode ⟨carried, hoffers⟩ o _ horigin
    hindex way a rest hstood
  rw [raises_iff fresh he hoffers horigin hstood, Nat.not_lt] at hraises
  calc carried.next.raw
    _ ≤ a.potential.raw := hraises
    _ ≤ x.entry.potential.raw := stood_le fresh hx horigin hstood

end Traversal

namespace PropagationEngine

open Traversal

/-- As long as nothing raises the pressure on the rest of its way to an edge that comes too late,
each resource is settled with the highest potential that reaches it. -/
theorem settles_highest (pq : EntryQueue) (topo : Topology) (policy : PropagationPolicy)
    (ledger : PropagationLedger) (fences : Option FenceTable) (pins : List (Option Generation))
    (request : PropagationRequest) (s : PressureSignal) :
    let ctx := traversalContext topo policy ledger fences pins request s
    let start := startTraversal pq topo policy request
      (progressBefore pq topo policy ledger fences pins request s) s
    Timely ctx start → SettledHighest ctx start :=
  fun htimely => settledHighest_of_timely startTraversal_fresh htimely

def boostGain : Gain := ⟨78643, by decide, by decide⟩

/-- Resource 8 is reached with more pressure through resource 9, which is settled first. -/
def boostTopology : Topology :=
  probeTopology rampResources
    [{ probeEdge ⟨1⟩ ⟨7⟩ ⟨8⟩ with attenuation := .fromRawSaturating 39322 },
      { probeEdge ⟨2⟩ ⟨7⟩ ⟨9⟩ with attenuation := .fromRawSaturating 45875 },
      rampEdge ⟨3⟩ ⟨9⟩ ⟨8⟩ boostGain,
      { probeEdge ⟨4⟩ ⟨8⟩ ⟨9⟩ with attenuation := .fromRawSaturating 32768 }]

def boostRequest : PropagationRequest := rampRequest boostGain .one boostTopology

def boostSignal : PressureSignal := rampSignal boostGain .one boostTopology

def boostContext : TraversalContext :=
  traversalContext boostTopology (rampPolicy boostGain) (.make 4 4 4) none
    [none, none, none, none] boostRequest boostSignal

def boostStart : Traversal .scan :=
  startTraversal .scan boostTopology (rampPolicy boostGain) boostRequest
    (progressBefore .scan boostTopology (rampPolicy boostGain) (.make 4 4 4) none
      [none, none, none, none] boostRequest boostSignal) boostSignal

/-- The amplified pressure is in time for resource 8, and the edge back to resource 9 carries less
than resource 9 was settled with. -/
theorem settles_highest_boost :
    (settlements boostContext boostStart).map (fun e => (e.node, e.potential.raw)) =
        [(0, 4294967296), (2, 3006464000), (1, 3607747625)] ∧
      (∃ x ∈ handled boostContext boostStart, x.node = 1 ∧ ∃ edge ∈ boostTopology.edges,
        .refused edge .nodeAlreadySettled false ∈ x.fates) ∧
      SettledHighest boostContext boostStart := by
  have hchecked : ∀ x ∈ handled boostContext boostStart, ∀ edge ∈ boostContext.topo.edges,
      ∀ counted, .refused edge .nodeAlreadySettled counted ∈ x.fates →
        ∀ e ∈ settlements boostContext boostStart, e.node = x.node →
          ∀ carried ∈ (boostContext.carries e edge).toOption,
            ∀ o ∈ boostContext.topo.indexOf boostContext.signal.origin,
              ∀ i ∈ boostContext.topo.indexOf edge.dst,
                ∀ a ∈ originEntry boostContext o ::
                  (visitsBefore (visits boostContext boostStart) i).flatMap Visit.arrivals,
                  (∀ y ∈ visitsBefore (visits boostContext boostStart) i,
                    y.entry.node ≠ a.node) → carried.next.raw ≤ a.potential.raw := by
    decide +kernel
  refine ⟨by decide +kernel, by decide +kernel, settles_highest .scan boostTopology
    (rampPolicy boostGain) (.make 4 4 4) none [none, none, none, none] boostRequest boostSignal ?_⟩
  rintro x hx edge counted hrefused e he hnode ⟨carried, hoffers⟩ o i ho hi way a rest ha
  rw [raises_iff startTraversal_fresh he hoffers ho ha, Nat.not_lt]
  obtain ⟨k, -, hedge, -, hcarries, -⟩ := hoffers
  refine hchecked x hx edge (List.mem_of_getElem? hedge) counted hrefused e he hnode carried ?_ o
    ho i hi a ?_ ha.unsettled
  · have hcarries' : boostContext.carries e edge = .ok carried := hcarries
    rw [hcarries']
    rfl
  · rcases ha.comes with rfl | ⟨y, hy, c, hc, rfl⟩
    · exact List.mem_cons_self
    · exact List.mem_cons_of_mem _ (List.mem_flatMap.mpr ⟨y, hy, List.mem_map_of_mem hc⟩)

def surgeGain : Gain := ⟨120000, by decide, by decide⟩

/-- An edge that nearly doubles what it carries. -/
def surge : DependencyEdge := rampEdge ⟨3⟩ ⟨9⟩ ⟨8⟩ surgeGain

/-- Resource 8 is reached directly, and with more pressure through resource 9. -/
def surgeTopology : Topology :=
  probeTopology rampResources
    [{ probeEdge ⟨1⟩ ⟨7⟩ ⟨8⟩ with attenuation := .fromRawSaturating 40000 },
      { probeEdge ⟨2⟩ ⟨7⟩ ⟨9⟩ with attenuation := .fromRawSaturating 30000 }, surge]

def surgeRequest : PropagationRequest := rampRequest surgeGain .one surgeTopology

def surgeSignal : PressureSignal := rampSignal surgeGain .one surgeTopology

def surgeContext : TraversalContext :=
  traversalContext surgeTopology (rampPolicy surgeGain) (.make 4 4 4) none [none, none, none]
    surgeRequest surgeSignal

def surgeStart : Traversal .scan :=
  startTraversal .scan surgeTopology (rampPolicy surgeGain) surgeRequest
    (progressBefore .scan surgeTopology (rampPolicy surgeGain) (.make 4 4 4) none [none, none, none]
      surgeRequest surgeSignal) surgeSignal

/-- The edge from resource 9 offers more than the potential with which resource 8 is settled. -/
theorem surge_offers : ∃ e ∈ settlements surgeContext surgeStart, e.node = 2 ∧
    ∃ carried, surgeContext.Offers e surge carried ∧
      ∀ e' ∈ settlements surgeContext surgeStart, e'.node = 1 →
        e'.potential.raw < carried.next.raw := by
  have hentry : ∃ e ∈ settlements surgeContext surgeStart, e.node = 2 ∧
      1 ∈ surgeContext.topo.outEdgeIndicesAt e.node ∧ surgeContext.topo.edgeAt 1 = some surge ∧
      (surgeContext.admits [] 0 0 e 1 surge).toOption = some 1 ∧
      ∃ carried ∈ (surgeContext.carries e surge).toOption,
        surgeContext.damps surge carried.next = none ∧
        ∀ e' ∈ settlements surgeContext surgeStart, e'.node = 1 →
          e'.potential.raw < carried.next.raw := by decide +kernel
  obtain ⟨e, he, hnode, hout, hedge, hadmits, carried, hcarries, hdamps, hless⟩ := hentry
  have hok : ∀ {ε α : Type} {x : Except ε α} {a : α}, x.toOption = some a → x = .ok a := by
    intro ε α x a hx
    cases x with
    | error => cases hx
    | ok b => exact congrArg Except.ok (Option.some.inj hx)
  exact ⟨e, he, hnode, carried, ⟨1, hout, hedge, ⟨0, 0, 1, hok hadmits⟩, hok hcarries, hdamps⟩,
    hless⟩

/-- The direct way settles resource 8 first, and the amplified pressure is refused. -/
theorem surge_comes_too_late :
    ¬∀ (pq : EntryQueue) (topo : Topology) (policy : PropagationPolicy) (ledger : PropagationLedger)
      (fences : Option FenceTable) (pins : List (Option Generation)) (liveEpoch : Epoch)
      (request : PropagationRequest) (s : PressureSignal), topo.Built →
      Ready topo policy liveEpoch pins request → s ∈ liveSignals policy ledger request →
      let ctx := traversalContext topo policy ledger fences pins request s
      let start := startTraversal pq topo policy request
        (progressBefore pq topo policy ledger fences pins request s) s
      Unstopped ctx start → SettledHighest ctx start := by
  intro h
  have hbuilt : surgeTopology.Built := built_probeTopology (by decide +kernel)
  have hready : Ready surgeTopology (rampPolicy surgeGain) probeEpoch [none, none, none]
      surgeRequest :=
    ⟨by decide +kernel, by decide +kernel, by decide +kernel, by decide +kernel, by decide +kernel⟩
  have hstopped : Unstopped surgeContext surgeStart :=
    ⟨by decide +kernel, by decide +kernel, by decide +kernel⟩
  have hrefused : ∃ x ∈ handled surgeContext surgeStart, x.node = 2 ∧
      .refused surge .nodeAlreadySettled false ∈ x.fates := by decide +kernel
  obtain ⟨x, hx, hnode, hfate⟩ := hrefused
  obtain ⟨e, he, henode, carried, hoffers, hless⟩ := surge_offers
  obtain ⟨e', he', hindex, hle⟩ := h .scan surgeTopology (rampPolicy surgeGain) (.make 4 4 4) none
    [none, none, none] probeEpoch surgeRequest surgeSignal hbuilt hready (by decide +kernel)
    hstopped x hx surge false hfate e he (henode.trans hnode.symm) carried hoffers
  have htarget : surgeTopology.indexOf surge.dst = some 1 := by decide +kernel
  have hone : e'.node = 1 := Option.some.inj (hindex.symm.trans htarget)
  exact absurd (hless e' he' hone) (Nat.not_lt.mpr hle)

end PropagationEngine

end Backpressure
