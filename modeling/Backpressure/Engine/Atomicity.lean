import Backpressure.Engine.Probe

/-!
# What an error leaves in the ledger

The commit writes lineages, then applications, then damping records. A refused application
stops its own loop only: the lineages are in the ledger by then. So an error leaves the ledger
as it was exactly when it is not the application capacity that caused it.
-/

namespace Backpressure

namespace PropagationLedger

/-- What the ledger remembers; the counters of refusals and evictions are left out. -/
structure Records where
  queue : List Digest128
  index : Finset Digest128
  applications : AList fun _ : SourceResourceKey => ApplicationRecord
  dampings : AList fun _ : EdgeTargetKey => DampingRecord

def records (l : PropagationLedger) : Records :=
  { queue := l.lineages.queue, index := l.lineages.index
    applications := l.applications, dampings := l.dampings }

variable {l : PropagationLedger} {source : SourceId} {resource : ResourceId} {m : Magnitude}
  {tick : Tick}

theorem length_entries {α β : Type} [DecidableEq α] (s : AList fun _ : α => β) :
    s.entries.length = s.keys.length := by
  rw [AList.keys, List.keys, List.length_map]

theorem length_insert {α β : Type} [DecidableEq α] (s : AList fun _ : α => β) (a : α) (b : β) :
    (s.insert a b).entries.length = if a ∈ s then s.entries.length else s.entries.length + 1 := by
  rw [length_entries, length_entries, AList.keys_insert, List.length_cons]
  split
  case isTrue ha =>
    have hpos : 0 < s.keys.length := List.length_pos_of_mem (AList.mem_keys.mp ha)
    rw [List.length_erase_of_mem (AList.mem_keys.mp ha)]
    omega
  case isFalse ha => rw [List.erase_of_not_mem fun h => ha (AList.mem_keys.mpr h)]

/-- The ledger has room for an application of its own under the key. -/
def Admits (l : PropagationLedger) (key : SourceResourceKey) : Prop :=
  key ∈ l.applications ∨ l.applications.entries.length < l.applicationCapacity

def withApplication (l : PropagationLedger) (key : SourceResourceKey) (r : ApplicationRecord) :
    PropagationLedger :=
  { l with applications := l.applications.insert key r }

theorem recordApplication_admitted (h : l.Admits ⟨source, resource⟩) :
    l.recordApplication source resource m tick =
      (.success, l.withApplication ⟨source, resource⟩ ⟨m, tick, true⟩) := by
  refine if_neg fun hfull => ?_
  rcases h with hmem | hroom
  · exact hfull.1 hmem
  · exact absurd hfull.2 (Nat.not_le_of_lt hroom)

theorem recordApplication_refused (h : ¬l.Admits ⟨source, resource⟩) :
    l.recordApplication source resource m tick =
      (.error .limitExceeded "application ledger" l.applications.entries.length,
        { l with applicationRejections := l.applicationRejections + 1 }) := by
  rw [Admits, not_or, Nat.not_lt] at h
  exact if_pos h

theorem lineages_recordApplication :
    (l.recordApplication source resource m tick).2.lineages = l.lineages := by
  unfold recordApplication
  dsimp only
  split <;> rfl

theorem lineages_recordDamping {target : ResourceId} {edge : EdgeId} :
    (l.recordDamping target edge m tick).2.lineages = l.lineages := by
  unfold recordDamping
  dsimp only
  split <;> rfl

end PropagationLedger

namespace PropagationEngine

open Traversal PropagationLedger

variable {pq : EntryQueue} {topo : Topology} {policy : PropagationPolicy}
  {ledger ledger' : PropagationLedger} {fences : Option FenceTable} {liveEpoch : Epoch}
  {pins : List (Option Generation)} {request : PropagationRequest} {now : Tick}

/-! ## The loop over the applications -/

/-- The resource takes part in the commit. -/
def applies (n : NodeOutcome) : Bool := n.received && !n.applied.isZero

/-- The key under which a resource is written. -/
def applicationKey (n : NodeOutcome) : SourceResourceKey := ⟨n.bestSource, n.resource⟩

/-- The keys that a commit writes, in order. -/
def plannedKeys (nodes : List NodeOutcome) : List SourceResourceKey :=
  (nodes.filter applies).map applicationKey

/-- The planned keys for which the ledger has no record yet. -/
def newKeys (ledger : PropagationLedger) (nodes : List NodeOutcome) : List SourceResourceKey :=
  (plannedKeys nodes).filter fun k => decide (k ∉ ledger.applications)

/-- The new application records of a plan fit into the free room of the ledger. -/
def Fits (ledger : PropagationLedger) (nodes : List NodeOutcome) : Prop :=
  newKeys ledger nodes = [] ∨
    ledger.applications.entries.length + (newKeys ledger nodes).length ≤ ledger.applicationCapacity

theorem commitApplications_cons_skip {n : NodeOutcome} {rest : List NodeOutcome}
    (h : applies n = false) :
    commitApplications now (n :: rest) ledger = commitApplications now rest ledger := by
  refine if_pos ?_
  rw [← Bool.not_eq_false', ← Bool.not_eq_true, Bool.not_or, Bool.not_not]
  simpa [applies] using h

theorem commitApplications_cons {n : NodeOutcome} {rest : List NodeOutcome} (h : applies n = true) :
    commitApplications now (n :: rest) ledger =
      let r := ledger.recordApplication n.bestSource n.resource n.applied now
      if r.1.ok then commitApplications now rest r.2 else r := by
  refine (if_neg ?_).trans rfl
  simpa [applies] using h

theorem lineages_commitApplications {nodes : List NodeOutcome} :
    (commitApplications now nodes ledger).2.lineages = ledger.lineages := by
  induction nodes generalizing ledger with
  | nil => rfl
  | cons n rest ih =>
    cases h : applies n with
    | false => rw [commitApplications_cons_skip h, ih]
    | true =>
      rw [commitApplications_cons h]
      dsimp only
      split
      · rw [ih, PropagationLedger.lineages_recordApplication]
      · exact PropagationLedger.lineages_recordApplication

theorem fits_iff {nodes : List NodeOutcome} : Fits ledger nodes ↔
    (newKeys ledger nodes).length = 0 ∨ ledger.applications.entries.length +
      (newKeys ledger nodes).length ≤ ledger.applicationCapacity := by
  rw [Fits, List.length_eq_zero_iff]

/-- A record that has just been written is of no other planned key. -/
theorem newKeys_withApplication {nodes : List NodeOutcome} {key : SourceResourceKey}
    {r : ApplicationRecord} (h : key ∉ plannedKeys nodes) :
    newKeys (ledger.withApplication key r) nodes = newKeys ledger nodes := by
  refine List.filter_congr fun k hk => ?_
  have hne : k ≠ key := fun heq => h (heq ▸ hk)
  simp [PropagationLedger.withApplication, AList.mem_insert, hne]

/-- The new records fit when the first is admitted and the others fit beside it. -/
theorem fits_cons {n : NodeOutcome} {rest : List NodeOutcome} {r : ApplicationRecord}
    (h : applies n = true) (hhead : applicationKey n ∉ plannedKeys rest) :
    Fits ledger (n :: rest) ↔ ledger.Admits (applicationKey n) ∧
      Fits (ledger.withApplication (applicationKey n) r) rest := by
  have hkeys : plannedKeys (n :: rest) = applicationKey n :: plannedKeys rest := by
    simp [plannedKeys, h]
  have hlength : (ledger.withApplication (applicationKey n) r).applications.entries.length =
      if applicationKey n ∈ ledger.applications then ledger.applications.entries.length
      else ledger.applications.entries.length + 1 := PropagationLedger.length_insert _ _ _
  have hcap : (ledger.withApplication (applicationKey n) r).applicationCapacity =
      ledger.applicationCapacity := rfl
  rw [fits_iff, fits_iff, newKeys_withApplication hhead, hlength, hcap, PropagationLedger.Admits]
  by_cases hmem : applicationKey n ∈ ledger.applications
  · have hnew : newKeys ledger (n :: rest) = newKeys ledger rest := by
      rw [newKeys, hkeys, List.filter_cons_of_neg (by simpa using hmem), newKeys]
    simp [hnew, hmem]
  · have hnew : newKeys ledger (n :: rest) = applicationKey n :: newKeys ledger rest := by
      rw [newKeys, hkeys, List.filter_cons_of_pos (by simpa using hmem), newKeys]
    simp only [hnew, hmem, List.length_cons, if_false, false_or]
    omega

/-- With distinct keys, every application is written exactly when the new ones fit. -/
theorem commitApplications_ok_iff (now : Tick) {nodes : List NodeOutcome}
    (nodup : (plannedKeys nodes).Nodup) :
    (commitApplications now nodes ledger).1.ok = true ↔ Fits ledger nodes := by
  induction nodes generalizing ledger with
  | nil => exact ⟨fun _ => .inl rfl, fun _ => rfl⟩
  | cons n rest ih =>
    cases h : applies n with
    | false =>
      have hkeys : plannedKeys (n :: rest) = plannedKeys rest := by simp [plannedKeys, h]
      rw [hkeys] at nodup
      rw [commitApplications_cons_skip h, ih nodup, Fits, Fits, newKeys, newKeys, hkeys]
    | true =>
      have hkeys : plannedKeys (n :: rest) = applicationKey n :: plannedKeys rest := by
        simp [plannedKeys, h]
      rw [hkeys] at nodup
      obtain ⟨hhead, htail⟩ := List.nodup_cons.mp nodup
      rw [commitApplications_cons h, fits_cons (r := ⟨n.applied, now, true⟩) h hhead]
      by_cases hadm : ledger.Admits (applicationKey n)
      · rw [PropagationLedger.recordApplication_admitted hadm]
        dsimp only
        rw [if_pos Status.ok_success, ih htail]
        exact (and_iff_right hadm).symm
      · rw [PropagationLedger.recordApplication_refused hadm]
        exact iff_of_false (by simp) fun hfits => hadm hfits.1

/-! ## The lineages -/

theorem lineages_markLineages {live : List PressureSignal} :
    (markLineages live ledger).lineages =
      (live.map PressureSignal.lineage).foldl Lib.Window.mark ledger.lineages := by
  unfold markLineages
  induction live generalizing ledger with
  | nil => rfl
  | cons s rest ih =>
    rw [List.foldl_cons, ih]
    rfl

theorem applications_markLineages (live : List PressureSignal) (ledger : PropagationLedger) :
    (markLineages live ledger).applications = ledger.applications ∧
      (markLineages live ledger).applicationCapacity = ledger.applicationCapacity := by
  unfold markLineages
  induction live generalizing ledger with
  | nil => exact ⟨rfl, rfl⟩
  | cons s rest ih =>
    rw [List.foldl_cons]
    exact ih (ledger.markLineage s.lineage)

theorem lineages_commitHops {hops : List HopRecord} :
    (commitHops now hops ledger).lineages = ledger.lineages := by
  induction hops generalizing ledger with
  | nil => rfl
  | cons h rest ih =>
    rw [commitHops]
    split
    · exact ih
    · dsimp only
      split
      · rw [ih, PropagationLedger.lineages_recordDamping]
      · exact PropagationLedger.lineages_recordDamping

theorem lineages_commitDamping {explanations : List PropagationExplanation} :
    (commitDamping now explanations ledger).lineages = ledger.lineages := by
  unfold commitDamping
  induction explanations generalizing ledger with
  | nil => rfl
  | cons e rest ih => rw [List.foldl_cons, ih, lineages_commitHops]

/-- A commit leaves the lineages that it marks, whatever becomes of the rest. -/
theorem lineages_commit {p : Plan} : (commit now p ledger).2.lineages =
    (p.live.map PressureSignal.lineage).foldl Lib.Window.mark ledger.lineages := by
  unfold commit
  dsimp only
  rw [lineages_commitDamping, lineages_commitApplications, lineages_markLineages]

theorem Fits.congr {nodes : List NodeOutcome} (happ : ledger'.applications = ledger.applications)
    (hcap : ledger'.applicationCapacity = ledger.applicationCapacity) :
    Fits ledger' nodes ↔ Fits ledger nodes := by
  rw [Fits, Fits, newKeys, newKeys, happ, hcap]

theorem commit_ok_iff {p : Plan} (hst : p.outcome.status = .success)
    (nodup : (plannedKeys p.outcome.nodes).Nodup) :
    (commit now p ledger).1.status.ok = true ↔ Fits ledger p.outcome.nodes := by
  obtain ⟨happ, hcap⟩ := applications_markLineages p.live ledger
  rw [← Fits.congr happ hcap, ← commitApplications_ok_iff now nodup]
  unfold commit
  dsimp only
  split
  case isTrue hok => simp [hst, hok]
  case isFalse hfail => exact Iff.rfl

theorem commit_complete_iff {p : Plan} (hcomplete : p.outcome.complete = true)
    (nodup : (plannedKeys p.outcome.nodes).Nodup) :
    (commit now p ledger).1.complete = true ↔ Fits ledger p.outcome.nodes := by
  obtain ⟨happ, hcap⟩ := applications_markLineages p.live ledger
  rw [← Fits.congr happ hcap, ← commitApplications_ok_iff now nodup]
  unfold commit
  dsimp only
  split
  case isTrue hok => simp [hcomplete, hok]
  case isFalse hfail => exact iff_of_false Bool.false_ne_true hfail

/-! ## Plans -/

/-- No two reported nodes are of one resource. -/
theorem resources_distinct {acc : Accumulators} (keyed : acc.Keyed topo) :
    (aggregateNodes policy acc).Pairwise fun a b => a.resource ≠ b.resource := by
  have hsymm : ∀ {a b : NodeOutcome}, a.resource ≠ b.resource → b.resource ≠ a.resource :=
    fun h => h.symm
  unfold aggregateNodes
  rw [(List.perm_insertionSort _ _).pairwise_iff hsymm, List.pairwise_map]
  have hkeys : acc.entries.Pairwise fun e e' => e.1 ≠ e'.1 :=
    List.nodupKeys_iff_pairwise.mp acc.nodupKeys
  refine hkeys.imp_of_mem fun {e e'} he he' hne hsame => hne ?_
  obtain ⟨r, hr, hid⟩ := keyed e.1 e.2 (AList.mem_lookup_iff.mpr he)
  obtain ⟨r', hr', hid'⟩ := keyed e'.1 e'.2 (AList.mem_lookup_iff.mpr he')
  refine Topology.index_unique hr hr' ?_
  rw [← hid, ← hid']
  exact hsame

theorem plannedKeys_nodup {acc : Accumulators} (keyed : acc.Keyed topo) :
    (plannedKeys (aggregateNodes policy acc)).Nodup := by
  refine List.pairwise_map.mpr (((resources_distinct keyed).sublist List.filter_sublist).imp ?_)
  exact fun hne heq => hne (congrArg SourceResourceKey.resource heq)

/-- Without a live signal no resource is touched. -/
theorem nodes_of_no_live (h : liveSignals policy ledger request = []) :
    (assembled pq topo policy ledger fences pins request).nodes = [] := by
  have hprogress : progress pq topo policy ledger fences pins request =
      unstarted policy ledger topo request := by rw [progress_eq, h, List.foldl_nil]
  rw [assembled_nodes, hprogress]
  rfl

/-- A commit that stops at an application has marked a lineage by then. -/
theorem queue_commit_ne {p : Plan}
    (hnodes : p.outcome.nodes = (assembled pq topo policy ledger fences pins request).nodes)
    (hlive : p.live = liveSignals policy ledger request) (hfits : ¬Fits ledger p.outcome.nodes) :
    (commit now p ledger).2.lineages.queue ≠ ledger.lineages.queue := by
  have hsome : liveSignals policy ledger request ≠ [] := fun hnone =>
    hfits (.inl (by rw [hnodes, nodes_of_no_live hnone]; rfl))
  rw [lineages_commit, hlive]
  refine Lib.Window.foldl_mark_ne (by simpa using hsome) fun lineage hlineage => ?_
  obtain ⟨s, hs, rfl⟩ := List.mem_map.mp hlineage
  have hnew := (List.mem_filter.mp hs).2
  intro hmem
  have hknown : ledger.hasLineage s.lineage = true := Lib.Window.has_iff.mpr hmem
  simp [isLive, hknown] at hnew

/-- The request is to be written, and its new application records do not fit into the ledger. -/
def Overflows (pq : EntryQueue) (ctx : EngineContext) (request : PropagationRequest) : Prop :=
  ∃ topo policy ledger p, ctx.topology = some topo ∧ ctx.policy = some policy ∧
    ctx.ledger = some ledger ∧
    plan pq topo policy ledger ctx.fences ctx.liveEpoch request = .ok p ∧
    request.dryRun = false ∧ p.truncated = false ∧ ¬Fits ledger p.outcome.nodes

/-- An error leaves the ledger as it was exactly when the request does not overflow it. -/
theorem atomic_on_error_iff (pq : EntryQueue) (ctx : EngineContext) (request : PropagationRequest) :
    ((propagate pq ctx request).1.status.ok = false →
      (propagate pq ctx request).2.map PropagationLedger.records =
        ctx.ledger.map PropagationLedger.records) ↔ ¬Overflows pq ctx request := by
  unfold propagate
  split
  case h_2 hnull =>
    refine iff_of_true (fun _ => rfl) ?_
    rintro ⟨topo, policy, ledger, p, ht, hp, hl, -⟩
    exact hnull topo policy ledger ht hp hl
  case h_1 topo policy ledger ht hp hl =>
    have hplan : PlanCase pq topo policy ledger ctx.fences ctx.liveEpoch request
      (plan pq topo policy ledger ctx.fences ctx.liveEpoch request) := plan_cases
    have hoverflows : Overflows pq ctx request ↔ ∃ p,
        plan pq topo policy ledger ctx.fences ctx.liveEpoch request = .ok p ∧
          request.dryRun = false ∧ p.truncated = false ∧ ¬Fits ledger p.outcome.nodes := by
      constructor
      · rintro ⟨topo', policy', ledger', p, ht', hp', hl', hrest⟩
        obtain rfl := Option.some.inj (ht.symm.trans ht')
        obtain rfl := Option.some.inj (hp.symm.trans hp')
        obtain rfl := Option.some.inj (hl.symm.trans hl')
        exact ⟨p, hrest⟩
      · rintro ⟨p, hrest⟩
        exact ⟨topo, policy, ledger, p, ht, hp, hl, hrest⟩
    rw [hoverflows, hl]
    revert hplan
    generalize plan pq topo policy ledger ctx.fences ctx.liveEpoch request = r
    intro hplan
    cases r with
    | error o =>
      refine iff_of_true (fun _ => rfl) ?_
      rintro ⟨p, hok, -⟩
      cases hok
    | ok p =>
      have hp : p.outcome.status = .success ∧ (plannedKeys p.outcome.nodes).Nodup ∧
          ∃ pins, p.outcome.nodes = (assembled pq topo policy ledger ctx.fences pins request).nodes ∧
            p.live = liveSignals policy ledger request := by
        cases hplan with
        | @planned pins hready => exact ⟨rfl, plannedKeys_nodup keyed_progress, pins, rfl, rfl⟩
      obtain ⟨hst, hnodup, pins, hnodes, hlive⟩ := hp
      dsimp only
      split
      case isFalse hkeep =>
        refine iff_of_true (fun _ => rfl) ?_
        rintro ⟨p', hok, hdry, htrunc, -⟩
        cases hok
        simp [hdry, htrunc] at hkeep
      case isTrue hwrite =>
        rw [Bool.and_eq_true, Bool.not_eq_true', Bool.not_eq_true'] at hwrite
        have hiff : (commit request.now p ledger).1.status.ok = true ↔ Fits ledger p.outcome.nodes :=
          commit_ok_iff hst hnodup
        constructor
        · rintro hatomic ⟨p', hok, -, -, hfits⟩
          cases hok
          have hfail : (commit request.now p ledger).1.status.ok = false := by
            rw [← Bool.not_eq_true, hiff]
            exact hfits
          rw [finalize_status] at hatomic
          have hsame := Option.some.inj (hatomic hfail)
          exact queue_commit_ne hnodes hlive hfits
            (congrArg PropagationLedger.Records.queue hsame)
        · intro hfits hfail
          rw [finalize_status] at hfail
          refine absurd ⟨p, rfl, hwrite.1, hwrite.2, fun hok => ?_⟩ hfits
          change (commit request.now p ledger).1.status.ok = false at hfail
          rw [hiff.mpr hok] at hfail
          cases hfail

/-- Two resources receive and the ledger has room for one application: the request fails, and
its lineage stays behind. -/
theorem lineage_left_behind :
    let topo := probeTopology [probeResource ⟨7⟩, probeResource ⟨8⟩] [probeEdge ⟨1⟩ ⟨7⟩ ⟨8⟩]
    let ledger := PropagationLedger.make 4 1 4
    let result := propagate .scan (.of topo probePolicy ledger none probeEpoch)
      (probeRequest probePolicy topo ⟨7⟩ 5)
    result.1.status.ok = false ∧
      result.2.map PropagationLedger.records ≠ some ledger.records := by
  intro topo ledger result
  have hrun : result.1.status.ok = false ∧
      (result.2.map fun l => l.lineages.queue) = some [{ lo := 1 }] := by decide +kernel
  refine ⟨hrun.1, fun h => ?_⟩
  have hqueue := congrArg (Option.map Records.queue) h
  rw [Option.map_map] at hqueue
  exact absurd (hrun.2.symm.trans hqueue) (by decide)

end PropagationEngine

end Backpressure
