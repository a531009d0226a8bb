import Backpressure.Engine.Probe
import Backpressure.Engine.Recover
import Backpressure.Engine.Removal
import Backpressure.Engine.Tally

/-!
# What a source can be asked to give back

The ledger keeps applied pressure per source and resource, and a recovery lowers the records of its
source. A commit writes one record per resource, under the source of the strongest arrival and with
the magnitude of all of them together. The other sources that arrived there get no record.
-/

namespace Backpressure

namespace PropagationEngine

open Traversal Tally

variable {pq : EntryQueue} {topo : Topology} {policy : PropagationPolicy}
  {ledger ledger' : PropagationLedger} {fences : Option FenceTable} {liveEpoch : Epoch}
  {pins : List (Option Generation)} {request : PropagationRequest} {now : Tick} {s : PressureSignal}
  {p : Progress} {i : Nat} {r : Resource} {x y : Arrival} {rest : List Arrival}

/-- The entries with which the traversal of one signal, started on nothing, settles resources. -/
def reach (pq : EntryQueue) (topo : Topology) (policy : PropagationPolicy)
    (ledger : PropagationLedger) (fences : Option FenceTable) (pins : List (Option Generation))
    (request : PropagationRequest) (s : PressureSignal) : List QueueEntry :=
  settlements (traversalContext topo policy ledger fences pins request s)
    (startTraversal pq topo policy request (unstarted policy ledger topo request) s)

/-- What other signals have left behind plays no part in what a signal settles. -/
theorem settlements_startTraversal :
    settlements (traversalContext topo policy ledger fences pins request s)
      (startTraversal pq topo policy request p s) =
        reach pq topo policy ledger fences pins request s :=
  settlements_withOutputs _
    (startTraversal pq topo policy request (unstarted policy ledger topo request) s)
    ⟨p.acc, p.counters, p.truncated⟩

/-- The arrivals of the live signals, signal by signal. -/
def arrivals (pq : EntryQueue) (topo : Topology) (policy : PropagationPolicy)
    (ledger : PropagationLedger) (fences : Option FenceTable) (pins : List (Option Generation))
    (request : PropagationRequest) : List Arrival :=
  (liveSignals policy ledger request).flatMap fun s =>
    (reach pq topo policy ledger fences pins request s).map
      (arrivalOf (traversalContext topo policy ledger fences pins request s))

def arrivalsAt (pq : EntryQueue) (topo : Topology) (policy : PropagationPolicy)
    (ledger : PropagationLedger) (fences : Option FenceTable) (pins : List (Option Generation))
    (request : PropagationRequest) (i : Nat) : List Arrival :=
  (arrivals pq topo policy ledger fences pins request).filter fun x => x.node = i

theorem acc_traverse : (traverse pq topo policy ledger fences pins request p s).acc =
    ((startTraversal pq topo policy request p s).run
      (traversalContext topo policy ledger fences pins request s)).2.acc := by
  unfold traverse
  dsimp only
  split <;> rfl

/-- The accumulators of a request are the fold of its arrivals. -/
theorem tally_progress (i : Nat) : (progress pq topo policy ledger fences pins request).acc.tally i =
    (arrivalsAt pq topo policy ledger fences pins request i).foldl arrive {} := by
  have hall := @progress_induction pq topo policy ledger fences pins request
    (fun l p => (∀ s', Admissible (traversalContext topo policy ledger fences pins request s')
        p.acc) ∧
      p.acc.tally = (l.flatMap fun s => (reach pq topo policy ledger fences pins request s).map
        (arrivalOf (traversalContext topo policy ledger fences pins request s))).foldl arriveAt
          fun _ => {})
    ⟨fun s' => .empty, ?_⟩ fun before s after _ hp => ⟨admissible_traverse hp.1, ?_⟩
  · rw [hall.2, foldl_arriveAt]
    rfl
  · funext i
    change (∅ : Accumulators).tally i = {}
    unfold Accumulators.tally
    rw [AList.lookup_empty]
    rfl
  · rw [acc_traverse, tally_run startTraversal_fresh (hp.1 s), settlements_startTraversal,
      List.flatMap_append, List.foldl_append, List.flatMap_singleton]
    exact congrArg (List.foldl arriveAt · _) hp.2

/-! ## The outcome at a resource -/

/-- The applied magnitude of some arrivals at one resource. -/
def appliedOf (policy : PropagationPolicy) (l : List Arrival) : Magnitude :=
  clampedAggregate policy
    { contributions := (l.map Arrival.contribution).take kMaxContributionsPerNode }

/-- The outcome at a resource that some signals have reached. -/
structure Outcome (policy : PropagationPolicy) (x : Arrival) (rest : List Arrival) (r : Resource)
    (n : NodeOutcome) : Prop where
  resource : n.resource = r.id
  received : n.received = true
  applied : n.applied = appliedOf policy (x :: rest)
  source : n.bestSource = (leader x rest).contribution.source

theorem outcome_of_lookup {a : NodeAccumulator} (hr : topo.resourceAt i = some r)
    (harrivals : arrivalsAt pq topo policy ledger fences pins request i = x :: rest)
    (hlookup : (progress pq topo policy ledger fences pins request).acc.lookup i = some a) :
    Outcome policy x rest r (nodeOutcome policy a) := by
  have htally := (Accumulators.tally_of_lookup hlookup).symm.trans (tally_progress i)
  rw [harrivals] at htally
  obtain ⟨hreceived, hsource, hcontributions⟩ := foldl_arrive x rest
  rw [← htally] at hreceived hsource hcontributions
  obtain ⟨r', hr', hid⟩ := keyed_progress i a hlookup
  obtain rfl := Option.some.inj (hr.symm.trans hr')
  refine ⟨hid, hreceived, ?_, hsource⟩
  have hcontributions' : a.contributions =
      ((x :: rest).map Arrival.contribution).take kMaxContributionsPerNode := hcontributions
  have hreceived' : a.received = true := hreceived
  unfold nodeOutcome appliedOf clampedAggregate
  dsimp only
  rw [hreceived', if_pos rfl, hcontributions']

/-- A resource that signals have reached has an outcome. -/
theorem exists_outcome (hr : topo.resourceAt i = some r)
    (harrivals : arrivalsAt pq topo policy ledger fences pins request i = x :: rest) :
    ∃ n ∈ aggregateNodes policy (progress pq topo policy ledger fences pins request).acc,
      Outcome policy x rest r n := by
  have htally := @tally_progress pq topo policy ledger fences pins request i
  rw [harrivals] at htally
  cases hlookup : (progress pq topo policy ledger fences pins request).acc.lookup i with
  | none =>
    have hreceived := (foldl_arrive x rest).1
    rw [← htally] at hreceived
    unfold Accumulators.tally at hreceived
    rw [hlookup] at hreceived
    cases hreceived
  | some a =>
    exact ⟨_, mem_aggregateNodes.mpr ⟨i, a, hlookup, rfl⟩, outcome_of_lookup hr harrivals hlookup⟩

/-- A received outcome is that of a resource that signals have reached. -/
theorem outcome_received {n : NodeOutcome}
    (hn : n ∈ aggregateNodes policy (progress pq topo policy ledger fences pins request).acc)
    (hreceived : n.received = true) :
    ∃ i r x rest, topo.resourceAt i = some r ∧
      arrivalsAt pq topo policy ledger fences pins request i = x :: rest ∧
      Outcome policy x rest r n := by
  obtain ⟨i, a, hlookup, rfl⟩ := mem_aggregateNodes.mp hn
  obtain ⟨r, hr, -⟩ := keyed_progress i a hlookup
  cases harrivals : arrivalsAt pq topo policy ledger fences pins request i with
  | nil =>
    have htally := (Accumulators.tally_of_lookup hlookup).symm.trans (tally_progress i)
    rw [harrivals] at htally
    have hnone : a.received = false := congrArg Tally.received htally
    exact absurd (hnone.symm.trans hreceived) Bool.false_ne_true
  | cons x rest => exact ⟨i, r, x, rest, hr, harrivals, outcome_of_lookup hr harrivals hlookup⟩

/-- There is one outcome per resource. -/
theorem outcome_unique {n n' : NodeOutcome}
    (hn : n ∈ aggregateNodes policy (progress pq topo policy ledger fences pins request).acc)
    (hn' : n' ∈ aggregateNodes policy (progress pq topo policy ledger fences pins request).acc)
    (h : n'.resource = n.resource) : n' = n := by
  obtain ⟨i, a, hlookup, rfl⟩ := mem_aggregateNodes.mp hn
  obtain ⟨j, b, hlookup', rfl⟩ := mem_aggregateNodes.mp hn'
  obtain ⟨r, hr, hid⟩ := keyed_progress i a hlookup
  obtain ⟨r', hr', hid'⟩ := keyed_progress j b hlookup'
  have hsame : r'.id = r.id := hid'.symm.trans (h.trans hid)
  obtain rfl := Topology.index_unique hr' hr hsame
  rw [Option.some.inj (hlookup'.symm.trans hlookup)]

/-! ## What a commit records -/

theorem lookup_recordApplication_self {source : SourceId} {resource : ResourceId} {m : Magnitude}
    (h : (ledger.recordApplication source resource m now).1.ok = true) :
    (ledger.recordApplication source resource m now).2.applications.lookup ⟨source, resource⟩ =
      some ⟨m, now, true⟩ := by
  unfold PropagationLedger.recordApplication at h ⊢
  dsimp only at h ⊢
  split at h
  · cases h
  case isFalse hroom =>
    rw [if_neg hroom]
    exact AList.lookup_insert _

/-- A commit that is not refused records every received outcome. -/
theorem application_recorded {nodes : List NodeOutcome} {n : NodeOutcome}
    (hok : (commitApplications now nodes ledger).1.ok = true) (hn : n ∈ nodes)
    (hreceived : n.received = true) (happlied : n.applied.isZero = false)
    (honce : ∀ n' ∈ nodes, n'.resource = n.resource → n' = n) :
    (commitApplications now nodes ledger).2.applications.lookup ⟨n.bestSource, n.resource⟩ =
      some ⟨n.applied, now, true⟩ := by
  induction nodes generalizing ledger with
  | nil => cases hn
  | cons m tail ih =>
    have honce' : ∀ n' ∈ tail, n'.resource = n.resource → n' = n :=
      fun n' hn' => honce n' (List.mem_cons_of_mem m hn')
    rw [commitApplications] at hok ⊢
    split at hok
    case isTrue hskip =>
      rw [if_pos hskip]
      rcases List.mem_cons.mp hn with rfl | htail
      · rw [hreceived, happlied] at hskip
        cases hskip
      · exact ih hok htail honce'
    case isFalse hkeep =>
      rw [if_neg hkeep]
      dsimp only at hok ⊢
      split at hok
      case isFalse hfail => exact absurd hok hfail
      case isTrue hst =>
        rw [if_pos hst]
        by_cases htail : n ∈ tail
        · exact ih hok htail honce'
        · obtain rfl : n = m := (List.mem_cons.mp hn).resolve_right htail
          -- no later outcome is that of the same resource
          rw [← lookup_recordApplication_self hst]
          by_contra hwritten
          obtain ⟨n', hn', -, hkey⟩ := application_written hwritten
          exact htail (honce' n' hn' (congrArg SourceResourceKey.resource hkey).symm ▸ hn')

/-- The record of the source at the resource, of at most the magnitude that it contributed. -/
def HasShare (ledger : PropagationLedger) (source : SourceId) (resource : ResourceId)
    (own : Magnitude) : Prop :=
  ∃ record, ledger.applications.lookup ⟨source, resource⟩ = some record ∧ record.present = true ∧
    record.magnitude.raw ≤ own.raw

/-- The shares that an admitted call leaves behind at a resource. -/
theorem share_committed (hr : topo.resourceAt i = some r)
    (harrivals : arrivalsAt pq topo policy ledger fences pins request i = x :: rest)
    (happlied : (appliedOf policy (x :: rest)).isZero = false)
    (hok : (commitApplications request.now
      (aggregateNodes policy (progress pq topo policy ledger fences pins request).acc)
      (markLineages (liveSignals policy ledger request) ledger)).1.ok = true)
    {source : SourceId} {own : Magnitude} :
    HasShare (committed pq topo policy ledger fences pins request) source r.id own ↔
      if source = (leader x rest).contribution.source
        then (appliedOf policy (x :: rest)).raw ≤ own.raw else HasShare ledger source r.id own := by
  obtain ⟨n, hn, hout⟩ := exists_outcome hr harrivals
  have hlookup : ∀ key, (committed pq topo policy ledger fences pins request).applications.lookup key =
      (commitApplications request.now
        (aggregateNodes policy (progress pq topo policy ledger fences pins request).acc)
        (markLineages (liveSignals policy ledger request) ledger)).2.applications.lookup key := by
    intro key
    unfold committed
    dsimp only
    rw [applications_commitDamping]
  have hmarked : (markLineages (liveSignals policy ledger request) ledger).applications =
      ledger.applications := by
    rw [markLineages_eq]
    rfl
  split
  case isTrue hsource =>
    have hrecorded := application_recorded hok hn hout.received (by rwa [hout.applied])
      fun n' hn' => outcome_unique hn hn'
    rw [hout.source, hout.resource, hout.applied, ← hsource, ← hlookup] at hrecorded
    constructor
    · rintro ⟨record, hrecord, -, hle⟩
      obtain rfl := Option.some.inj (hrecorded.symm.trans hrecord)
      exact hle
    · exact fun hle => ⟨_, hrecorded, rfl, hle⟩
  case isFalse hsource =>
    have hsame : (committed pq topo policy ledger fences pins request).applications.lookup
        ⟨source, r.id⟩ = ledger.applications.lookup ⟨source, r.id⟩ := by
      rw [hlookup, ← hmarked]
      by_contra hwritten
      obtain ⟨n', hn', -, hkey⟩ := application_written hwritten
      have hres : n'.resource = n.resource :=
        (congrArg SourceResourceKey.resource hkey).symm.trans hout.resource.symm
      obtain rfl := outcome_unique hn hn' hres
      exact hsource ((congrArg SourceResourceKey.source hkey).trans hout.source)
    unfold HasShare
    rw [hsame]

/-! ## The shares of a call -/

theorem mem_arrivalsAt : y ∈ arrivalsAt pq topo policy ledger fences pins request i ↔
    ∃ s ∈ liveSignals policy ledger request,
      ∃ e ∈ reach pq topo policy ledger fences pins request s, e.node = i ∧
        y = arrivalOf (traversalContext topo policy ledger fences pins request s) e := by
  unfold arrivalsAt arrivals
  simp only [List.mem_filter, List.mem_flatMap, List.mem_map, decide_eq_true_eq]
  constructor
  · rintro ⟨⟨s, hs, e, he, rfl⟩, hnode⟩
    exact ⟨s, hs, e, he, hnode, rfl⟩
  · rintro ⟨s, hs, e, he, hnode, rfl⟩
    exact ⟨⟨s, hs, e, he, rfl⟩, hnode⟩

/-- An admitted call with status Ok that is neither a rehearsal nor truncated has committed. -/
theorem committed_call {c : Call} (htopo : c.topology = some topo) (hpolicy : c.policy = some policy)
    (hpins : resolvePins topo c.request.pins = .ok pins) (hdry : c.request.dryRun = false)
    (hok : (c.outcome pq ledger).status.ok = true) (hcomplete : (c.outcome pq ledger).complete = true) :
    (c.outcome pq ledger).nodes =
        aggregateNodes policy (progress pq topo policy ledger c.fences pins c.request).acc ∧
      c.after pq ledger = committed pq topo policy ledger c.fences pins c.request ∧
      (commitApplications c.request.now
        (aggregateNodes policy (progress pq topo policy ledger c.fences pins c.request).acc)
        (markLineages (liveSignals policy ledger c.request) ledger)).1.ok = true := by
  have hcase := propagate_cases pq (c.context ledger) c.request
  unfold Call.outcome Call.after at *
  revert hcase hok hcomplete
  generalize propagate pq (c.context ledger) c.request = result
  intro hok hcomplete hcase
  cases hcase with
  | refused _ hst =>
    rw [finalize_status, hst] at hok
    cases hok
  | allRefused _ _ _ _ hst =>
    rw [finalize_status] at hok
    exact absurd (hok.symm.trans hst) (by decide)
  | kept ht hp hl hready hkept =>
    cases htopo.symm.trans ht
    cases hpolicy.symm.trans hp
    cases hl
    cases hpins.symm.trans hready.pins
    rcases hkept with hrehearsal | htrunc
    · rw [hdry] at hrehearsal
      cases hrehearsal
    · have hkept : (progress pq topo policy ledger (c.context ledger).fences pins
          c.request).truncated = false := by simpa using hcomplete
      exact absurd (hkept.symm.trans htrunc) Bool.false_ne_true
  | @committed _ _ _ ledger' _ st _ ht hp hl hready _ _ hcommit =>
    cases htopo.symm.trans ht
    cases hpolicy.symm.trans hp
    cases hl
    cases hpins.symm.trans hready.pins
    have hst : st.ok = true := by simpa using hok
    have hwritten : commitApplications c.request.now
        (aggregateNodes policy (progress pq topo policy ledger c.fences pins c.request).acc)
        (markLineages (liveSignals policy ledger c.request) ledger) = (st, ledger') := hcommit
    refine ⟨by simp; rfl, ?_, ?_⟩
    · unfold committed
      dsimp only
      rw [hwritten]
      rfl
    · rw [hwritten]
      exact hst

/-- Every signal that contributed to an applied magnitude has a share of its own in the ledger after
the call, and a recovery of its source finds it. -/
def SharesRecoverable (pq : EntryQueue) (topo : Topology) (policy : PropagationPolicy)
    (ledger : PropagationLedger) (pins : List (Option Generation)) (c : Call) : Prop :=
  ∀ n ∈ (c.outcome pq ledger).nodes, n.applied.isZero = false →
    ∀ s ∈ liveSignals policy ledger c.request,
      ∀ e ∈ settlements (traversalContext topo policy ledger c.fences pins c.request s)
        (startTraversal pq topo policy c.request
          (progressBefore pq topo policy ledger c.fences pins c.request s) s),
      ∀ r, topo.resourceAt e.node = some r → r.id = n.resource →
        HasShare (c.after pq ledger) s.source n.resource e.potential.toMagnitude ∧
          Recovers (c.after pq ledger) s.source n.resource

/-- Wherever pressure is applied, the strongest arrival alone is worth all of it, and every other
source that arrives has a record there already, of at most what it contributes now. -/
def SharesCovered (pq : EntryQueue) (topo : Topology) (policy : PropagationPolicy)
    (ledger : PropagationLedger) (fences : Option FenceTable) (pins : List (Option Generation))
    (request : PropagationRequest) : Prop :=
  ∀ i r x rest, topo.resourceAt i = some r →
    arrivalsAt pq topo policy ledger fences pins request i = x :: rest →
    (appliedOf policy (x :: rest)).isZero = false → ∀ y ∈ x :: rest,
      if y.contribution.source = (leader x rest).contribution.source
        then (appliedOf policy (x :: rest)).raw ≤ y.contribution.magnitude.raw
        else HasShare ledger y.contribution.source r.id y.contribution.magnitude

/-- After a committed call every contributing source can be recovered exactly when the sources that
do not lead at a resource have their records there already. -/
theorem shares_recoverable_iff (pq : EntryQueue) (topo : Topology) (policy : PropagationPolicy)
    (ledger : PropagationLedger) (pins : List (Option Generation)) (c : Call)
    (htopo : c.topology = some topo) (hpolicy : c.policy = some policy)
    (hpins : resolvePins topo c.request.pins = .ok pins) (hdry : c.request.dryRun = false)
    (hok : (c.outcome pq ledger).status.ok = true)
    (hcomplete : (c.outcome pq ledger).complete = true) :
    SharesRecoverable pq topo policy ledger pins c ↔
      SharesCovered pq topo policy ledger c.fences pins c.request := by
  obtain ⟨hnodes, hafter, hcommit⟩ := committed_call htopo hpolicy hpins hdry hok hcomplete
  unfold SharesRecoverable SharesCovered
  rw [hnodes, hafter]
  constructor
  · intro h i r x rest hr harrivals happlied y hy
    obtain ⟨n, hn, hout⟩ := exists_outcome hr harrivals
    obtain ⟨s, hs, e, he, rfl, rfl⟩ := mem_arrivalsAt.mp (harrivals ▸ hy)
    have hshare := (h n hn (by rwa [hout.applied]) s hs e (by rwa [settlements_startTraversal]) r hr
      hout.resource.symm).1
    rw [hout.resource] at hshare
    exact (share_committed hr harrivals happlied hcommit).mp hshare
  · intro h n hn happlied s hs e he r hr hid
    have hreceived : n.received = true := by
      obtain ⟨i, a, -, rfl⟩ := mem_aggregateNodes.mp hn
      by_contra hnot
      have hzero : (nodeOutcome policy a).applied = .zero := if_neg hnot
      rw [hzero] at happlied
      cases happlied
    obtain ⟨i, r', x, rest, hr', harrivals, hout⟩ := outcome_received hn hreceived
    obtain rfl := Topology.index_unique hr hr' (hid.trans hout.resource)
    obtain rfl := Option.some.inj (hr.symm.trans hr')
    rw [settlements_startTraversal] at he
    have hy := mem_arrivalsAt.mpr ⟨s, hs, e, he, rfl, rfl⟩
    rw [harrivals] at hy
    rw [hout.applied] at happlied
    have hshare := (share_committed hr harrivals happlied hcommit).mpr
      (h _ r x rest hr harrivals happlied _ hy)
    rw [hout.resource]
    obtain ⟨record, hlookup, hpresent, -⟩ := id hshare
    exact ⟨hshare, recovers_of_record hlookup hpresent⟩

/-- One source alone can be recovered where its pressure is applied. -/
theorem shares_recoverable_single :
    let c := callWith [probeFrom 1 7]
    ((c.outcome .scan (.make 4 4 4)).nodes.map fun n => (n.resource, n.applied.raw)) =
        [(⟨7⟩, 65536), (⟨8⟩, 65536)] ∧
      SharesRecoverable .scan pairTopology probePolicy (.make 4 4 4) [none] c := by
  intro c
  let arrivals := arrivalsAt .scan pairTopology probePolicy (.make 4 4 4) none [none] c.request
  have hled : ∀ i < 2, ∀ x ∈ (arrivals i).head?, ∀ y ∈ arrivals i,
      y.contribution.source = (leader x (arrivals i).tail).contribution.source ∧
        (appliedOf probePolicy (arrivals i)).raw ≤ y.contribution.magnitude.raw := by
    decide +kernel
  refine ⟨by decide +kernel, (shares_recoverable_iff .scan pairTopology probePolicy (.make 4 4 4)
    [none] c rfl rfl (by decide +kernel) rfl (by decide +kernel) (by decide +kernel)).mpr ?_⟩
  intro i r x rest hr harrivals _ y hy
  have hleads := hled i (List.getElem?_eq_some_iff.mp hr).1
  have harrivals : arrivals i = x :: rest := harrivals
  rw [harrivals] at hleads
  obtain ⟨hsource, hle⟩ := hleads x rfl y hy
  rw [List.tail_cons] at hsource
  rw [if_pos hsource]
  exact hle

/-- Two sources observe the same resource: the second one has no record there, and its recovery
lists nothing. -/
theorem second_source_unrecorded :
    let c := callWith [probeFrom 1 7, probeFrom 2 7]
    ((c.outcome .scan (.make 4 4 4)).status.ok = true ∧
      (c.outcome .scan (.make 4 4 4)).complete = true) ∧
    ¬SharesRecoverable .scan pairTopology probePolicy (.make 4 4 4) [none] c := by
  intro c
  refine ⟨by decide +kernel, fun h => ?_⟩
  have hnode : ∃ n ∈ (c.outcome .scan (.make 4 4 4)).nodes,
      n.resource = ⟨7⟩ ∧ n.applied.isZero = false := by decide +kernel
  obtain ⟨n, hn, hresource, happlied⟩ := hnode
  have hlive : probeFrom 2 7 ∈ liveSignals probePolicy (.make 4 4 4) c.request := by decide +kernel
  have hsettled : ∃ e ∈ settlements
      (traversalContext pairTopology probePolicy (.make 4 4 4) c.fences [none] c.request
        (probeFrom 2 7))
      (startTraversal .scan pairTopology probePolicy c.request
        (progressBefore .scan pairTopology probePolicy (.make 4 4 4) c.fences [none] c.request
          (probeFrom 2 7)) (probeFrom 2 7)),
      pairTopology.resourceAt e.node = some (probeResource ⟨7⟩) := by decide +kernel
  obtain ⟨e, he, hr⟩ := hsettled
  obtain ⟨⟨record, hlookup, -⟩, -⟩ := h n hn happlied _ hlive e he _ hr hresource.symm
  have hnone : (c.after .scan (.make 4 4 4)).applications.lookup ⟨⟨2⟩, ⟨7⟩⟩ = none := by
    decide +kernel
  rw [hresource] at hlookup
  cases hnone.symm.trans hlookup

end PropagationEngine

end Backpressure
