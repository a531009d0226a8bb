import Backpressure.Engine.Crossable

/-!
# Pins

A request may pin the dependency generations that it reasoned about. The pins are entered one after
the other into a table with one place for each edge index, and every pin goes to the first edge of
its identity: a later pin takes the place of an earlier one, and the other edges of the identity
are not pinned at all.
-/

namespace Backpressure

open Traversal

/-! ## The edges behind the hops -/

section Crossed

variable {pq : EntryQueue} {ctx : TraversalContext} {t : Traversal pq}

/-- The hops of a traversal are those of its visits. -/
theorem hops_run (fresh : t.Fresh) : (t.run ctx).2.expl.hops = (visits ctx t).flatMap Visit.hops := by
  have hcase := enter_cases ctx fresh
  have hvisits := @visits_run pq ctx t
  unfold run visits at *
  revert hcase hvisits
  generalize t.enter ctx = r
  intro hcase hvisits
  cases hcase with
  | refused => exact fresh.hops
  | blocked =>
    obtain ⟨i, origin, -, htoured⟩ := hvisits fresh rfl
    exact htoured.hops
  | seeded =>
    obtain ⟨i, origin, -, htoured⟩ := hvisits fresh rfl
    exact htoured.hops

theorem accepted_hops {x : Visit} {hop : HopRecord} (h : hop ∈ x.hops) : hop.accepted = true := by
  obtain ⟨c, -, rfl⟩ := List.mem_map.mp h
  unfold CrossedEdge.hop acceptedHop HopRecord.accepted
  split <;> rfl

end Crossed

namespace PropagationEngine

variable {pq : EntryQueue} {topo : Topology} {policy : PropagationPolicy} {ledger : PropagationLedger}
  {fences : Option FenceTable} {pins : List (Option Generation)} {request : PropagationRequest}
  {edge : DependencyEdge} {hop : HopRecord} {c : Call} {liveEpoch : Epoch} {o : PropagationOutcome}

/-- The edges that the live signals cross, each traversing by itself, with the hops that report
them. -/
def crossed (pq : EntryQueue) (topo : Topology) (policy : PropagationPolicy)
    (ledger : PropagationLedger) (fences : Option FenceTable) (pins : List (Option Generation))
    (request : PropagationRequest) : List (DependencyEdge × HopRecord) :=
  (liveSignals policy ledger request).flatMap fun s =>
    (visits (traversalContext topo policy ledger fences pins request s)
      (startTraversal pq topo policy request (unstarted policy ledger topo request) s)).flatMap
        fun x => x.crossed.map fun c => (c.edge, c.hop x.entry x.res)

/-- The edges that the live signals of a call cross, with the hops that report them. -/
def Call.crossed (pq : EntryQueue) (ledger : PropagationLedger) (c : Call) :
    List (DependencyEdge × HopRecord) :=
  match c.topology, c.policy with
  | some topo, some policy =>
    match resolvePins topo c.request.pins with
    | .ok pins => PropagationEngine.crossed pq topo policy ledger c.fences pins c.request
    | .error _ => []
  | _, _ => []

theorem Call.crossed_of (htopo : c.topology = some topo) (hpolicy : c.policy = some policy)
    (hpins : resolvePins topo c.request.pins = .ok pins) : c.crossed pq ledger =
      PropagationEngine.crossed pq topo policy ledger c.fences pins c.request := by
  unfold Call.crossed
  rw [htopo, hpolicy]
  dsimp only
  rw [hpins]

/-- The crossings of a call are the hops over its crossed edges. -/
theorem passages_eq : passages pq topo policy ledger fences pins request =
    (crossed pq topo policy ledger fences pins request).map fun p => ⟨request.now, p.2⟩ := by
  unfold passages crossed
  rw [List.map_flatMap]
  refine List.flatMap_congr fun s _ => ?_
  unfold aloneTraversal Crossing.ofHops
  rw [hops_run startTraversal_fresh, List.filter_eq_self.mpr fun hop hhop => ?_, List.map_flatMap,
    List.map_flatMap]
  · refine List.flatMap_congr fun x _ => ?_
    unfold Visit.hops
    rw [List.map_map, List.map_map]
    rfl
  · obtain ⟨x, -, hx⟩ := List.mem_flatMap.mp hhop
    exact accepted_hops hx

/-- The accepted hops of a report are those over the crossed edges. -/
theorem hop_iff_crossed (h : Report pq topo policy ledger fences liveEpoch request pins o) :
    (∃ e ∈ o.explanations, hop ∈ e.hops ∧ hop.accepted = true) ↔
      ∃ edge, (edge, hop) ∈ crossed pq topo policy ledger fences pins request := by
  have hpassages :=
    @crossingsIn_progress pq topo policy ledger fences pins request
  rw [passages_eq] at hpassages
  have hmem : (⟨request.now, hop⟩ : Crossing) ∈ crossingsIn request.now o.explanations ↔
      ⟨request.now, hop⟩ ∈ (crossed pq topo policy ledger fences pins request).map
        fun p => (⟨request.now, p.2⟩ : Crossing) := by rw [← hpassages, h.explanations]
  rw [mem_crossingsIn, List.mem_map] at hmem
  constructor
  · rintro ⟨e, he, hhop, haccepted⟩
    obtain ⟨⟨edge, hop'⟩, hp, heq⟩ := hmem.mp ⟨e, he, hop, hhop, haccepted, rfl⟩
    obtain rfl : hop' = hop := congrArg Crossing.hop heq
    exact ⟨edge, hp⟩
  · rintro ⟨edge, hp⟩
    obtain ⟨e, he, hop', hhop, haccepted, heq⟩ := hmem.mpr ⟨_, hp, rfl⟩
    obtain rfl : hop = hop' := congrArg Crossing.hop heq
    exact ⟨e, he, hhop, haccepted⟩

/-- Every edge that an accepted hop of the call crosses has the property. -/
def CrossesOnly (pq : EntryQueue) (ledger : PropagationLedger) (c : Call)
    (P : DependencyEdge → Prop) : Prop :=
  ∀ e ∈ (c.outcome pq ledger).explanations, ∀ hop ∈ e.hops, hop.accepted = true →
    ∀ edge, (edge, hop) ∈ c.crossed pq ledger → P edge

/-! ## The call over one edge -/

/-- The call that crosses one edge. -/
def hopCall (topo : Topology) (edge : DependencyEdge) (pins : List DependencyPin) : Call :=
  { topology := some topo, policy := some hopPolicy, fences := none, liveEpoch := probeEpoch
    request := hopRequest topo edge pins }

theorem admission_hop {given : List DependencyPin} (hdigest : topo.digest.isZero = false)
    (hsrc : edge.src.valid = true) :
    (admission hopPolicy (hopRequest topo edge given)).accepted = [hopSignal topo edge] := by
  have hobserved : (PressureObservation.observed ⟨1, Nat.le_of_ble_eq_true rfl⟩
      hopPolicy.thresholds).canAuthorizePropagation = true := by
    rw [PressureObservation.canAuthorize_observed]
    rfl
  have hauthority : hopAuthority.validate.ok = true := by decide
  have hvalid : ((hopSignal topo edge).validate hopPolicy 5).ok = true :=
    validate_probe_with validate_hopPolicy hdigest hsrc hobserved hauthority rfl rfl rfl
  exact admission_single edge.src hvalid rfl rfl

theorem ready_hop {given : List DependencyPin} (hdigest : topo.digest.isZero = false)
    (hsrc : edge.src.valid = true) (hfew : given.length ≤ kMaxDependencyPins)
    (hpins : resolvePins topo given = .ok pins) :
    Ready topo hopPolicy probeEpoch pins (hopRequest topo edge given) where
  checked := by
    have hpolicy := validate_hopPolicy
    simp [checkRequest, hpolicy, hopRequest, probeRequest, probeEpoch, StrongId.valid,
      StrongId.kInvalid]
  sources := Nat.le_of_ble_eq_true rfl
  pinCount := hfew
  pins := hpins
  accepted := by
    rw [admission_hop hdigest hsrc]
    exact List.cons_ne_nil _ _

theorem liveSignals_hop {given : List DependencyPin} (hdigest : topo.digest.isZero = false)
    (hsrc : edge.src.valid = true) :
    liveSignals hopPolicy (hopLedger topo edge) (hopRequest topo edge given) =
      [hopSignal topo edge] := by
  rw [liveSignals, admission_hop hdigest hsrc]
  simp [isLive, PropagationLedger.hasLineage, PropagationLedger.make, Lib.Window.has,
    Lib.Window.ofCapacity, hopLedger, PropagationLedger.quiet]

end PropagationEngine

/-! ## The table of the pins -/

/-- The generation of the last pin that names the edge identity. -/
def lastPin (given : List DependencyPin) (id : EdgeId) : Option Generation :=
  (given.reverse.find? fun pin => pin.edge == id).map DependencyPin.generation

section Table

open PropagationEngine

variable {topo : Topology} {given : List DependencyPin} {pin : DependencyPin} {id : EdgeId}
  {table : List (Option Generation)} {edge : DependencyEdge} {i : Nat}

theorem lastPin_append : lastPin (given ++ [pin]) id =
    if pin.edge = id then some pin.generation else lastPin given id := by
  unfold lastPin
  rw [List.reverse_append, List.reverse_singleton, List.singleton_append, List.find?_cons]
  by_cases h : pin.edge = id
  · rw [if_pos h, beq_iff_eq.mpr h]
    rfl
  · rw [if_neg h, beq_eq_false_iff_ne.mpr h]

/-- What the table holds of the pins: at the first edge of an identity the last pin that names it,
and nothing at the other edges. -/
structure Pinned (topo : Topology) (given : List DependencyPin) (table : List (Option Generation)) :
    Prop where
  known : ∀ pin ∈ given, topo.pinIndex pin.edge ≠ none
  length : table.length = topo.edges.length
  entries : ∀ i edge, topo.edgeAt i = some edge →
    table[i]? = some (if topo.pinIndex edge.id = some i then lastPin given edge.id else none)

theorem Pinned.nil : Pinned topo [] (List.replicate topo.edges.length none) where
  known := nofun
  length := List.length_replicate
  entries i edge h := by
    rw [List.getElem?_replicate, if_pos (List.getElem?_eq_some_iff.mp h).1]
    split <;> rfl

/-- One more pin goes to the first edge of its identity. -/
theorem Pinned.snoc (h : Pinned topo given table) {k : Nat} (hk : topo.pinIndex pin.edge = some k) :
    Pinned topo (given ++ [pin]) (table.set k (some pin.generation)) where
  known p hp := by
    rcases List.mem_append.mp hp with hp | hp
    · exact h.known p hp
    · rw [List.mem_singleton.mp hp, hk]
      exact nofun
  length := List.length_set.trans h.length
  entries i edge hedge := by
    obtain ⟨hlt, hid, -⟩ := List.findIdx?_eq_some_iff_getElem.mp hk
    have hid : topo.edges[k].id = pin.edge := eq_of_beq hid
    rw [lastPin_append]
    by_cases hik : k = i
    · subst hik
      obtain rfl : topo.edges[k] = edge :=
        Option.some.inj ((List.getElem?_eq_getElem hlt).symm.trans hedge)
      rw [List.getElem?_set_self (h.length ▸ hlt), hid, if_pos hk, if_pos rfl]
    · rw [List.getElem?_set_ne hik, h.entries i edge hedge]
      by_cases hfirst : topo.pinIndex edge.id = some i
      · have hother : pin.edge ≠ edge.id := by
          intro hsame
          rw [hsame, hfirst] at hk
          exact hik (Option.some.inj hk).symm
        rw [if_pos hfirst, if_pos hfirst, if_neg hother]
      · rw [if_neg hfirst, if_neg hfirst]

/-- The pins resolve to their table when the topology knows all of their edges. -/
theorem resolvePins_cases (topo : Topology) (given : List DependencyPin) :
    (∃ table, resolvePins topo given = .ok table ∧ Pinned topo given table) ∨
      (∃ st, resolvePins topo given = .error st) ∧ ∃ pin ∈ given, topo.pinIndex pin.edge = none := by
  induction given using List.reverseRecOn with
  | nil => exact .inl ⟨_, rfl, .nil⟩
  | append_singleton before pin ih =>
    have hstep : resolvePins topo (before ++ [pin]) =
        (resolvePins topo before).bind fun table => resolvePin topo table pin := by
      unfold resolvePins
      rw [List.foldlM_append]
      exact congrArg _ (funext fun table => bind_pure _)
    rcases ih with ⟨table, hok, hpinned⟩ | ⟨⟨st, herror⟩, p, hp, hnone⟩
    · rw [hstep, hok]
      cases hindex : topo.pinIndex pin.edge with
      | none =>
        have hfail : resolvePin topo table pin =
            fail .notFound "pinned edge" pin.edge.value.toNat := by
          unfold resolvePin
          unfold Topology.pinIndex at hindex
          rw [hindex]
        exact .inr ⟨⟨_, hfail⟩, pin, List.mem_append_right _ List.mem_cons_self, hindex⟩
      | some k =>
        have hset : resolvePin topo table pin = .ok (table.set k (some pin.generation)) := by
          unfold resolvePin
          unfold Topology.pinIndex at hindex
          rw [hindex]
        exact .inl ⟨_, hset, hpinned.snoc hindex⟩
    · rw [hstep, herror]
      exact .inr ⟨⟨st, rfl⟩, p, List.mem_append_left _ hp, hnone⟩

theorem pinned_of_resolve (h : resolvePins topo given = .ok table) : Pinned topo given table := by
  rcases resolvePins_cases topo given with ⟨table', hok, hpinned⟩ | ⟨⟨st, herror⟩, -⟩
  · obtain rfl : table' = table := Except.ok.inj (hok.symm.trans h)
    exact hpinned
  · cases herror.symm.trans h

theorem resolve_of_known (h : ∀ pin ∈ given, topo.pinIndex pin.edge ≠ none) :
    ∃ table, resolvePins topo given = .ok table := by
  rcases resolvePins_cases topo given with ⟨table, hok, -⟩ | ⟨-, pin, hpin, hnone⟩
  · exact ⟨table, hok⟩
  · exact absurd hnone (h pin hpin)

/-- The pins turn the edge away: it is the first of its identity, and the last pin that names it
has another generation. -/
def Topology.TurnsAway (topo : Topology) (given : List DependencyPin) (i : Nat)
    (edge : DependencyEdge) : Prop :=
  topo.pinIndex edge.id = some i ∧ ∃ g, lastPin given edge.id = some g ∧ g ≠ edge.dependencyGeneration

/-- A traversal refuses what the pins turn away. -/
theorem Pinned.refuses_iff {ctx : TraversalContext} (h : Pinned topo given ctx.pins)
    (hedge : topo.edgeAt i = some edge) :
    ctx.pinRefuses i edge = true ↔ topo.TurnsAway given i edge := by
  unfold TraversalContext.pinRefuses Topology.TurnsAway
  rw [h.entries i edge hedge]
  by_cases hfirst : topo.pinIndex edge.id = some i
  · rw [if_pos hfirst]
    cases lastPin given edge.id with
    | none => simp
    | some g => simp [hfirst]
  · rw [if_neg hfirst]
    simp [hfirst]

end Table

namespace PropagationEngine

/-! ## What a call can cross -/

variable {pq : EntryQueue} {topo : Topology} {ledger : PropagationLedger} {given : List DependencyPin}
  {edge : DependencyEdge} {hop : HopRecord} {c : Call} {P : DependencyEdge → Prop}

/-- A call crosses only passable edges that its pins do not turn away, and it knows all the edges
that it pins. -/
theorem passable_of_crossed (hbuilt : topo.Built) (htopo : c.topology = some topo)
    (h : (edge, hop) ∈ c.crossed pq ledger) :
    (∀ pin ∈ c.request.pins, topo.pinIndex pin.edge ≠ none) ∧
      ∃ i, topo.Passable i edge ∧ ¬topo.TurnsAway c.request.pins i edge := by
  unfold Call.crossed at h
  rw [htopo] at h
  cases hpolicy : c.policy with
  | none =>
    rw [hpolicy] at h
    cases h
  | some policy =>
    rw [hpolicy] at h
    dsimp only at h
    cases hpins : resolvePins topo c.request.pins with
    | error st =>
      rw [hpins] at h
      cases h
    | ok table =>
      rw [hpins] at h
      have hpinned := pinned_of_resolve hpins
      obtain ⟨s, -, hs⟩ := List.mem_flatMap.mp h
      obtain ⟨x, hx, hc⟩ := List.mem_flatMap.mp hs
      obtain ⟨d, hd, heq⟩ := List.mem_map.mp hc
      obtain rfl : d.edge = edge := congrArg Prod.fst heq
      have hrun := run_settles (traversalContext topo policy ledger c.fences table c.request s)
        (@startTraversal_fresh pq topo policy c.request (unstarted policy ledger topo c.request) s)
      rcases hrun with ⟨-, -, hnone⟩ | ⟨t', hrun⟩
      · rw [← entries_visits, List.map_eq_nil_iff] at hnone
        rw [hnone] at hx
        cases hx
      · obtain ⟨i, origin, -, htoured⟩ := visits_run startTraversal_fresh hrun
        obtain ⟨hpassable, hpin⟩ :=
          (htoured.lawful x hx).passable (Topology.indexed_of_built hbuilt) hd
        refine ⟨hpinned.known, d.edgeIndex, hpassable, fun hturns => ?_⟩
        rw [(Pinned.refuses_iff hpinned hpassable.edgeAt).mpr hturns] at hpin
        cases hpin

/-- The calls with these pins cross only edges with a property exactly when every passable edge has
it that the pins do not turn away; and no edge at all when some pin names none. -/
theorem crossesOnly_iff (pq : EntryQueue) (hbuilt : topo.Built)
    (hfew : given.length ≤ kMaxDependencyPins) :
    (∀ (ledger : PropagationLedger) (c : Call), c.topology = some topo → c.request.pins = given →
      CrossesOnly pq ledger c P) ↔
    ((∀ pin ∈ given, topo.pinIndex pin.edge ≠ none) →
      ∀ i edge, topo.Passable i edge → ¬topo.TurnsAway given i edge → P edge) := by
  constructor
  · intro h hknown i edge hpassable hstays
    obtain ⟨table, hpins⟩ := resolve_of_known hknown
    have hdigest := Topology.digest_ne_zero_of_built hbuilt
    have hsrc : edge.src.valid = true := by
      obtain ⟨a, r, ha, hr, -⟩ := hpassable.forwards
      obtain ⟨r', hr', hid⟩ := Topology.resourceAt_of_indexOf ha
      rw [← hid]
      exact Topology.valid_of_built hbuilt (List.mem_of_getElem? hr')
    have hrefuses : (hopContext topo edge given table).pinRefuses i edge = false := by
      have hpinned : Pinned topo given (hopContext topo edge given table).pins :=
        pinned_of_resolve hpins
      exact Bool.eq_false_iff.mpr fun htrue =>
        hstays ((hpinned.refuses_iff hpassable.edgeAt).mp htrue)
    obtain ⟨x, hx, d, hd, rfl⟩ := crossed_hop pq hbuilt hpassable hrefuses
      (unstarted hopPolicy (hopLedger topo edge) topo (hopRequest topo edge given))
    have hcrossed : (d.edge, d.hop x.entry x.res) ∈
        PropagationEngine.crossed pq topo hopPolicy (hopLedger topo d.edge) none table
          (hopRequest topo d.edge given) := by
      unfold crossed
      rw [liveSignals_hop hdigest hsrc, List.flatMap_singleton]
      exact List.mem_flatMap.mpr ⟨x, hx, List.mem_map_of_mem hd⟩
    have hreport : Report pq topo hopPolicy (hopLedger topo d.edge) none probeEpoch
        (hopRequest topo d.edge given) table
        ((hopCall topo d.edge given).outcome pq (hopLedger topo d.edge)) :=
      report_call (c := hopCall topo d.edge given) rfl rfl (ready_hop hdigest hsrc hfew hpins)
    obtain ⟨e, he, hhop, haccepted⟩ := (hop_iff_crossed hreport).mpr ⟨_, hcrossed⟩
    refine h _ (hopCall topo d.edge given) rfl rfl e he _ hhop haccepted d.edge ?_
    rw [Call.crossed_of (c := hopCall topo d.edge given) rfl rfl hpins]
    exact hcrossed
  · rintro h ledger c htopo rfl e - hop - - edge hcrossed
    obtain ⟨hknown, i, hpassable, hstays⟩ := passable_of_crossed hbuilt htopo hcrossed
    exact h hknown i edge hpassable hstays

/-- No accepted hop of the call crosses an edge whose generation differs from that of a pin that
names its identity. -/
def PinsHonoured (pq : EntryQueue) (ledger : PropagationLedger) (c : Call) : Prop :=
  CrossesOnly pq ledger c fun edge =>
    ∀ pin ∈ c.request.pins, pin.edge = edge.id → pin.generation = edge.dependencyGeneration

/-- The pins are honoured in every call that makes them exactly when one of them names no edge, or
they turn away every passable edge that some of them contradicts. -/
theorem pins_honoured_iff (pq : EntryQueue) (topo : Topology) (hbuilt : topo.Built)
    (given : List DependencyPin) (hfew : given.length ≤ kMaxDependencyPins) :
    (∀ (ledger : PropagationLedger) (c : Call), c.topology = some topo → c.request.pins = given →
      PinsHonoured pq ledger c) ↔
    ((∀ pin ∈ given, topo.pinIndex pin.edge ≠ none) → ∀ i edge, topo.Passable i edge →
      topo.TurnsAway given i edge ∨
        ∀ pin ∈ given, pin.edge = edge.id → pin.generation = edge.dependencyGeneration) := by
  have hiff := crossesOnly_iff pq hbuilt hfew (P := fun edge =>
    ∀ pin ∈ given, pin.edge = edge.id → pin.generation = edge.dependencyGeneration)
  have hhonoured : (∀ (ledger : PropagationLedger) (c : Call), c.topology = some topo →
      c.request.pins = given → PinsHonoured pq ledger c) ↔
      ∀ (ledger : PropagationLedger) (c : Call), c.topology = some topo → c.request.pins = given →
        CrossesOnly pq ledger c fun edge =>
          ∀ pin ∈ given, pin.edge = edge.id → pin.generation = edge.dependencyGeneration := by
    refine forall_congr' fun ledger => forall_congr' fun c => forall_congr' fun _ =>
      forall_congr' fun hpins => ?_
    unfold PinsHonoured
    rw [hpins]
  rw [hhonoured, hiff]
  refine forall_congr' fun _ => forall_congr' fun i => forall_congr' fun edge =>
    forall_congr' fun _ => ?_
  rw [or_iff_not_imp_left]

/-- A pin to the live generation is honoured by every call over its edge. -/
theorem pins_honoured_probe :
    let topo := probeTopology [probeResource ⟨7⟩, probeResource ⟨8⟩] [probeEdge ⟨1⟩ ⟨7⟩ ⟨8⟩]
    ∀ (pq : EntryQueue) (ledger : PropagationLedger) (c : Call), c.topology = some topo →
      c.request.pins = [⟨⟨1⟩, ⟨1⟩⟩] → PinsHonoured pq ledger c := by
  intro topo pq
  have hbuilt : topo.Built := built_probeTopology (by decide +kernel)
  refine (pins_honoured_iff pq topo hbuilt [⟨⟨1⟩, ⟨1⟩⟩] (Nat.le_of_ble_eq_true rfl)).mpr ?_
  intro _ i edge hpassable
  right
  intro pin hpin _
  have hlive : ∀ e ∈ topo.edges, e.dependencyGeneration = ⟨1⟩ := by decide +kernel
  rw [List.mem_singleton.mp hpin]
  exact (hlive edge (List.mem_of_getElem? hpassable.edgeAt)).symm

/-- A full observation at the source of the edges, with pins. -/
def pinnedCall (topo : Topology) (given : List DependencyPin) : Call :=
  { topology := some topo, policy := some probePolicy, fences := none, liveEpoch := probeEpoch
    request := { probeRequest probePolicy topo ⟨7⟩ 5 with pins := given } }

/-- The second pin of an edge takes the place of the first; and a pin does not reach the second
edge of its identity. -/
theorem pins_overlooked :
    (¬∀ (pq : EntryQueue) (topo : Topology) (ledger : PropagationLedger) (c : Call), topo.Built →
      c.topology = some topo → c.request.pins.length ≤ kMaxDependencyPins →
        PinsHonoured pq ledger c) ∧
    let topo := probeTopology [probeResource ⟨7⟩, probeResource ⟨8⟩, probeResource ⟨9⟩]
      [probeEdge ⟨1⟩ ⟨7⟩ ⟨8⟩, probeEdge ⟨2⟩ ⟨7⟩ ⟨8⟩,
        { probeEdge ⟨1⟩ ⟨7⟩ ⟨9⟩ with dependencyGeneration := ⟨2⟩ }]
    ¬PinsHonoured .scan (.make 4 4 4) (pinnedCall topo [⟨⟨1⟩, ⟨1⟩⟩]) := by
  constructor
  · intro h
    have hbuilt : (probeTopology [probeResource ⟨7⟩, probeResource ⟨8⟩]
      [probeEdge ⟨1⟩ ⟨7⟩ ⟨8⟩]).Built := built_probeTopology (by decide +kernel)
    have hhonoured := h .scan _ (.make 4 4 4) (pinnedCall _ [⟨⟨1⟩, ⟨2⟩⟩, ⟨⟨1⟩, ⟨1⟩⟩]) hbuilt rfl
      (Nat.le_of_ble_eq_true rfl)
    have hcrosses : ∃ p ∈ (pinnedCall (probeTopology [probeResource ⟨7⟩, probeResource ⟨8⟩]
        [probeEdge ⟨1⟩ ⟨7⟩ ⟨8⟩]) [⟨⟨1⟩, ⟨2⟩⟩, ⟨⟨1⟩, ⟨1⟩⟩]).crossed .scan (.make 4 4 4),
        ∃ e ∈ ((pinnedCall (probeTopology [probeResource ⟨7⟩, probeResource ⟨8⟩]
          [probeEdge ⟨1⟩ ⟨7⟩ ⟨8⟩]) [⟨⟨1⟩, ⟨2⟩⟩, ⟨⟨1⟩, ⟨1⟩⟩]).outcome .scan (.make 4 4 4)).explanations,
          p.2 ∈ e.hops ∧ p.2.accepted = true ∧ p.1 = probeEdge ⟨1⟩ ⟨7⟩ ⟨8⟩ := by decide +kernel
    obtain ⟨⟨edge, hop⟩, hcrossed, e, he, hhop, haccepted, rfl⟩ := hcrosses
    have hsame := hhonoured e he hop hhop haccepted _ hcrossed ⟨⟨1⟩, ⟨2⟩⟩ List.mem_cons_self rfl
    cases hsame
  · intro topo hhonoured
    have hcrosses : ∃ p ∈ (pinnedCall topo [⟨⟨1⟩, ⟨1⟩⟩]).crossed .scan (.make 4 4 4),
        ∃ e ∈ ((pinnedCall topo [⟨⟨1⟩, ⟨1⟩⟩]).outcome .scan (.make 4 4 4)).explanations,
          p.2 ∈ e.hops ∧ p.2.accepted = true ∧
            p.1 = { probeEdge ⟨1⟩ ⟨7⟩ ⟨9⟩ with dependencyGeneration := ⟨2⟩ } := by decide +kernel
    obtain ⟨⟨edge, hop⟩, hcrossed, e, he, hhop, haccepted, rfl⟩ := hcrosses
    have hsame := hhonoured e he hop hhop haccepted _ hcrossed ⟨⟨1⟩, ⟨1⟩⟩ List.mem_cons_self rfl
    cases hsame

end PropagationEngine

end Backpressure
