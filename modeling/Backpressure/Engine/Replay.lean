import Backpressure.Engine.Frame
import Backpressure.Engine.Traces

/-!
# Replays

A run is a sequence of calls on one ledger. The lineages that its committed calls mark pass through
the bounded window of the ledger, and a signal whose lineage is still there is a replay: it is
counted, explained, and leaves the outcome and the ledger alone.
-/

namespace Backpressure

open Lib (Window)

/-! ## What a commit writes -/

namespace PropagationLedger

variable {l : PropagationLedger}

theorem dampings_recordApplication {source : SourceId} {resource : ResourceId} {m : Magnitude}
    {tick : Tick} : (l.recordApplication source resource m tick).2.dampings = l.dampings := by
  unfold recordApplication
  dsimp only
  split <;> rfl

theorem applications_recordDamping {target : ResourceId} {edge : EdgeId} {m : Magnitude}
    {tick : Tick} : (l.recordDamping target edge m tick).2.applications = l.applications := by
  unfold recordDamping
  dsimp only
  split <;> rfl

theorem lookup_recordApplication {source : SourceId} {resource : ResourceId} {m : Magnitude}
    {tick : Tick} {key : SourceResourceKey} (h : key ≠ ⟨source, resource⟩) :
    (l.recordApplication source resource m tick).2.applications.lookup key =
      l.applications.lookup key := by
  unfold recordApplication
  dsimp only
  split
  · rfl
  · exact AList.lookup_insert_ne h

theorem lookup_recordDamping {target : ResourceId} {edge : EdgeId} {m : Magnitude} {tick : Tick}
    {key : EdgeTargetKey} (h : key ≠ ⟨target, edge⟩) :
    (l.recordDamping target edge m tick).2.dampings.lookup key = l.dampings.lookup key := by
  unfold recordDamping
  dsimp only
  split
  · rfl
  · exact AList.lookup_insert_ne h

end PropagationLedger

namespace PropagationEngine

open Traversal

variable {pq : EntryQueue} {topo : Topology} {policy : PropagationPolicy}
  {ledger ledger' : PropagationLedger} {fences : Option FenceTable} {liveEpoch : Epoch}
  {pins : List (Option Generation)} {request : PropagationRequest} {now : Tick}

theorem dampings_markLineages (live : List PressureSignal) (ledger : PropagationLedger) :
    (markLineages live ledger).dampings = ledger.dampings := by
  unfold markLineages
  exact List.foldlRecOn (motive := fun l : PropagationLedger => l.dampings = ledger.dampings) _ _ rfl
    fun l hl s _ => hl

theorem dampings_commitApplications {nodes : List NodeOutcome} :
    (commitApplications now nodes ledger).2.dampings = ledger.dampings := by
  induction nodes generalizing ledger with
  | nil => rfl
  | cons n rest ih =>
    rw [commitApplications]
    split
    · exact ih
    · dsimp only
      split
      · exact ih.trans PropagationLedger.dampings_recordApplication
      · exact PropagationLedger.dampings_recordApplication

/-- An application record changes only for a received resource with that best source. -/
theorem application_written {nodes : List NodeOutcome} {key : SourceResourceKey}
    (h : (commitApplications now nodes ledger).2.applications.lookup key ≠
      ledger.applications.lookup key) :
    ∃ n ∈ nodes, n.received = true ∧ key = ⟨n.bestSource, n.resource⟩ := by
  induction nodes generalizing ledger with
  | nil => exact absurd rfl h
  | cons n rest ih =>
    rw [commitApplications] at h
    split at h
    · obtain ⟨n', hn', hspec⟩ := ih h
      exact ⟨n', List.mem_cons_of_mem n hn', hspec⟩
    case isFalse hskip =>
      by_cases hkey : key = ⟨n.bestSource, n.resource⟩
      · exact ⟨n, List.mem_cons_self, by simp_all, hkey⟩
      · dsimp only at h
        split at h
        · rw [← PropagationLedger.lookup_recordApplication (l := ledger) hkey] at h
          obtain ⟨n', hn', hspec⟩ := ih h
          exact ⟨n', List.mem_cons_of_mem n hn', hspec⟩
        · exact absurd (PropagationLedger.lookup_recordApplication hkey) h

theorem applications_commitHops {hops : List HopRecord} :
    (commitHops now hops ledger).applications = ledger.applications := by
  induction hops generalizing ledger with
  | nil => rfl
  | cons hop rest ih =>
    rw [commitHops]
    split
    · exact ih
    · dsimp only
      split
      · exact ih.trans PropagationLedger.applications_recordDamping
      · exact PropagationLedger.applications_recordDamping

theorem applications_commitDamping {explanations : List PropagationExplanation} :
    (commitDamping now explanations ledger).applications = ledger.applications := by
  unfold commitDamping
  exact List.foldlRecOn (motive := fun l : PropagationLedger => l.applications = ledger.applications)
    _ _ rfl fun l hl e _ => applications_commitHops.trans hl

/-- A damping record changes only for an accepted hop over that edge. -/
theorem damping_written_hop {hops : List HopRecord} {key : EdgeTargetKey}
    (h : (commitHops now hops ledger).dampings.lookup key ≠ ledger.dampings.lookup key) :
    ∃ hop ∈ hops, hop.accepted = true ∧ key = ⟨hop.dst, hop.edge⟩ := by
  induction hops generalizing ledger with
  | nil => exact absurd rfl h
  | cons hop rest ih =>
    rw [commitHops] at h
    split at h
    · obtain ⟨hop', hhop', hspec⟩ := ih h
      exact ⟨hop', List.mem_cons_of_mem hop hhop', hspec⟩
    case isFalse haccepted =>
      by_cases hkey : key = ⟨hop.dst, hop.edge⟩
      · exact ⟨hop, List.mem_cons_self, by simpa using haccepted, hkey⟩
      · dsimp only at h
        split at h
        · rw [← PropagationLedger.lookup_recordDamping (l := ledger) hkey] at h
          obtain ⟨hop', hhop', hspec⟩ := ih h
          exact ⟨hop', List.mem_cons_of_mem hop hhop', hspec⟩
        · exact absurd (PropagationLedger.lookup_recordDamping hkey) h

theorem damping_written {explanations : List PropagationExplanation} {key : EdgeTargetKey}
    (h : (commitDamping now explanations ledger).dampings.lookup key ≠
      ledger.dampings.lookup key) :
    ∃ e ∈ explanations, ∃ hop ∈ e.hops, hop.accepted = true ∧ key = ⟨hop.dst, hop.edge⟩ := by
  induction explanations generalizing ledger with
  | nil => exact absurd rfl h
  | cons e rest ih =>
    change (commitDamping now rest (commitHops now e.hops ledger)).dampings.lookup key ≠ _ at h
    by_cases hsame : (commitHops now e.hops ledger).dampings.lookup key = ledger.dampings.lookup key
    · rw [← hsame] at h
      obtain ⟨e', he', hspec⟩ := ih h
      exact ⟨e', List.mem_cons_of_mem e he', hspec⟩
    · exact ⟨e, List.mem_cons_self, damping_written_hop hsame⟩

theorem commitDamping_of_no_hops {explanations : List PropagationExplanation}
    (h : ∀ e ∈ explanations, e.hops = []) : commitDamping now explanations ledger = ledger := by
  unfold commitDamping
  refine List.foldlRecOn (motive := fun l => l = ledger) _ _ rfl fun l hl e he => ?_
  rw [h e he]
  exact hl

/-! ## What is reported of a replay -/

/-- The accepted signals whose lineage the ledger knows. -/
def replays (policy : PropagationPolicy) (ledger : PropagationLedger)
    (request : PropagationRequest) : List PressureSignal :=
  (admission policy request).accepted.filter fun s => !isLive ledger s

theorem mem_replays {s : PressureSignal} (hs : s ∈ (admission policy request).accepted)
    (h : ledger.hasLineage s.lineage = true) : s ∈ replays policy ledger request :=
  List.mem_filter.mpr ⟨hs, by simp [isLive, h]⟩

/-- The explanations of a request are those of the replays, then those of live signals. -/
theorem explanations_progress : ∃ traversed,
    (progress pq topo policy ledger fences pins request).explanations =
      (replays policy ledger request).map
        (fun s => (baseExplanation topo policy request s).finalize) ++ traversed ∧
    ∀ e ∈ traversed, ∃ s ∈ liveSignals policy ledger request, e.source = s.source := by
  rw [progress_eq]
  refine List.foldlRecOn (motive := fun p : Progress => ∃ traversed, p.explanations =
      (replays policy ledger request).map
        (fun s => (baseExplanation topo policy request s).finalize) ++ traversed ∧
      ∀ e ∈ traversed, ∃ s ∈ liveSignals policy ledger request, e.source = s.source) _ _
    ⟨[], (List.append_nil _).symm, by simp⟩ ?_
  rintro p ⟨traversed, hexplanations, hlive⟩ s hs
  cases traverse_cases pq topo policy ledger fences pins request p s with
  | refused _ _ _ hexpl => exact ⟨traversed, hexpl.trans hexplanations, hlive⟩
  | @ran _ e _ _ hexpl _ hsource =>
    refine ⟨traversed ++ [e], ?_, fun e' he' => ?_⟩
    · rw [hexpl, hexplanations, List.append_assoc]
    · rcases List.mem_append.mp he' with he' | he'
      · exact hlive e' he'
      · rw [List.mem_singleton.mp he']
        exact ⟨s, hs, hsource⟩

theorem filter_map_of_pairwise {α β : Type} {l : List α} {f : α → β} {p : β → Bool} {a : α}
    (ha : a ∈ l) (hpa : p (f a) = true)
    (h : l.Pairwise fun x y => ¬(p (f x) = true ∧ p (f y) = true)) :
    (l.map f).filter p = [f a] := by
  induction l with
  | nil => cases ha
  | cons x rest ih =>
    obtain ⟨hx, hrest⟩ := List.pairwise_cons.mp h
    rw [List.map_cons]
    rcases List.mem_cons.mp ha with rfl | ha
    · have hnone : (rest.map f).filter p = [] := by
        refine List.filter_eq_nil_iff.mpr fun b hb hpb => ?_
        obtain ⟨y, hy, rfl⟩ := List.mem_map.mp hb
        exact hx y hy ⟨hpa, hpb⟩
      rw [List.filter_cons_of_pos hpa, hnone]
    · rw [List.filter_cons_of_neg fun hpx => hx a ha ⟨hpx, hpa⟩]
      exact ih ha hrest

/-- A replay has one explanation, the one it had before any traversal. -/
theorem explanation_replay {s : PressureSignal} (hs : s ∈ replays policy ledger request) :
    (progress pq topo policy ledger fences pins request).explanations.filter
      (fun e => e.source == s.source) = [(baseExplanation topo policy request s).finalize] := by
  obtain ⟨traversed, hexplanations, hlive⟩ :=
    @explanations_progress pq topo policy ledger fences pins request
  obtain ⟨haccepted, hknown⟩ := List.mem_filter.mp hs
  have hnone : traversed.filter (fun e => e.source == s.source) = [] := by
    refine List.filter_eq_nil_iff.mpr fun e he hsource => ?_
    obtain ⟨s', hs', hsource'⟩ := hlive e he
    obtain ⟨haccepted', hlive'⟩ := List.mem_filter.mp hs'
    obtain rfl := accepted_source_injective haccepted' haccepted
      (hsource'.symm.trans (by simpa using hsource))
    rw [hlive'] at hknown
    cases hknown
  rw [hexplanations, List.filter_append, hnone, List.append_nil]
  refine filter_map_of_pairwise (f := fun s => (baseExplanation topo policy request s).finalize)
    hs (by exact beq_self_eq_true s.source) ?_
  refine (accepted_pairwise.sublist List.filter_sublist).imp fun {x y} hne hboth => hne ?_
  have hx : x.source = s.source := eq_of_beq hboth.1
  have hy : y.source = s.source := eq_of_beq hboth.2
  exact hx.trans hy.symm

theorem signalsIdempotent_progress :
    (progress pq topo policy ledger fences pins request).counters.signalsIdempotent =
      (replays policy ledger request).length := by
  have hadmitted : (admission policy request).counters.signalsIdempotent = 0 :=
    admission_invariant (P := fun a => a.counters.signalsIdempotent = 0) rfl fun a s _ ha => by
      unfold admitNext
      dsimp only
      split <;> exact ha
  rw [progress_eq]
  refine List.foldlRecOn (motive := fun p : Progress => p.counters.signalsIdempotent =
    (replays policy ledger request).length) _ _ ?_ fun p hp s _ => ?_
  · change (admission policy request).counters.signalsIdempotent + _ = _
    rw [hadmitted, Nat.zero_add]
    rfl
  · have hrun := signalsIdempotent_run
      (traversalContext topo policy ledger fences pins request s)
      (startTraversal pq topo policy request p s)
    unfold traverse
    dsimp only
    split <;> exact hrun.trans hp

theorem signalsIdempotent_propagate (h : Ready topo policy liveEpoch pins request) :
    (propagate pq (.of topo policy ledger fences liveEpoch) request).1.counters.signalsIdempotent =
      (replays policy ledger request).length := by
  have hplan : PlanCase pq topo policy ledger fences liveEpoch request
    (plan pq topo policy ledger fences liveEpoch request) := plan_cases
  unfold propagate EngineContext.of
  dsimp only
  revert hplan
  generalize plan pq topo policy ledger fences liveEpoch request = r
  intro hplan
  cases hplan with
  | refused hready => exact absurd h (hready pins)
  | allRefused =>
    rw [finalize_counters]
    exact signalsIdempotent_progress
  | planned =>
    rw [finalize_counters]
    dsimp only
    split
    · unfold commit
      dsimp only
      split <;> exact signalsIdempotent_progress
    · exact signalsIdempotent_progress

/-! ## Runs -/

/-- A call of the engine: everything but the ledger. -/
structure Call where
  topology : Option Topology
  policy : Option PropagationPolicy
  fences : Option FenceTable
  liveEpoch : Epoch
  request : PropagationRequest

namespace Call

variable (pq : EntryQueue) (ledger : PropagationLedger) (c : Call)

/-- The context of the call on a ledger. -/
def context : EngineContext :=
  { topology := c.topology, policy := c.policy, ledger := some ledger, fences := c.fences
    liveEpoch := c.liveEpoch }

def outcome : PropagationOutcome := (propagate pq (c.context ledger) c.request).1

/-- The ledger after the call. -/
def after : PropagationLedger := (propagate pq (c.context ledger) c.request).2.getD ledger

/-- The lineages that the call marks, in order: none unless it commits. -/
def marks : List Digest128 :=
  match c.topology, c.policy with
  | some topo, some policy =>
    match plan pq topo policy ledger c.fences c.liveEpoch c.request with
    | .error _ => []
    | .ok p => if !c.request.dryRun && !p.truncated then p.live.map PressureSignal.lineage else []
  | _, _ => []

theorem lineages_after : (c.after pq ledger).lineages =
    (c.marks pq ledger).foldl Window.mark ledger.lineages := by
  unfold after marks context propagate
  dsimp only
  cases c.topology with
  | none => rfl
  | some topo =>
    cases c.policy with
    | none => rfl
    | some policy =>
      dsimp only
      cases plan pq topo policy ledger c.fences c.liveEpoch c.request with
      | error o => rfl
      | ok p =>
        dsimp only
        split
        · exact lineages_commit
        · rfl

end Call

variable (pq) in
/-- The ledger after a run of calls. -/
def ledgerAfter (ledger : PropagationLedger) (calls : List Call) : PropagationLedger :=
  calls.foldl (fun ledger c => c.after pq ledger) ledger

variable (pq) in
/-- The lineages that a run of calls marks, in order. -/
def marksOf : PropagationLedger → List Call → List Digest128
  | _, [] => []
  | ledger, c :: rest => c.marks pq ledger ++ marksOf (c.after pq ledger) rest

theorem lineages_ledgerAfter {calls : List Call} : (ledgerAfter pq ledger calls).lineages =
    (marksOf pq ledger calls).foldl Window.mark ledger.lineages := by
  induction calls generalizing ledger with
  | nil => rfl
  | cons c rest ih =>
    rw [marksOf, List.foldl_append, ← Call.lineages_after]
    exact ih

/-- A committed call of the run has put the lineage into the ledger, and since then fewer new
lineages have come in than the ledger holds. -/
def Retained (pq : EntryQueue) (ledger : PropagationLedger) (calls : List Call)
    (lineage : Digest128) : Prop :=
  ∃ before c later earlier behind, calls = before ++ c :: later ∧
    c.marks pq (ledgerAfter pq ledger before) = earlier ++ lineage :: behind ∧
    lineage ∉ (earlier.foldl Window.mark (ledgerAfter pq ledger before).lineages).queue ∧
    (((earlier ++ [lineage]).foldl Window.mark (ledgerAfter pq ledger before).lineages).inserted
      (behind ++ marksOf pq (c.after pq (ledgerAfter pq ledger before)) later)).toFinset.card <
        ledger.lineages.capacity

theorem hasLineage_of_retained {calls : List Call} {lineage : Digest128}
    (h : Retained pq ledger calls lineage) :
    (ledgerAfter pq ledger calls).hasLineage lineage = true := by
  obtain ⟨before, c, later, earlier, behind, rfl, hmarks, hnew, hfew⟩ := h
  have hcapacity : (ledgerAfter pq ledger before).lineages.capacity = ledger.lineages.capacity := by
    rw [lineages_ledgerAfter, Window.capacity_foldl_mark]
  have hafter : ledgerAfter pq ledger (before ++ c :: later) =
      ledgerAfter pq (c.after pq (ledgerAfter pq ledger before)) later := by
    unfold ledgerAfter
    rw [List.foldl_append, List.foldl_cons]
  rw [← hcapacity, ← Window.capacity_foldl_mark (l := earlier ++ [lineage])] at hfew
  have hlast : ∃ front, ((earlier ++ [lineage]).foldl Window.mark
      (ledgerAfter pq ledger before).lineages).queue = front ++ lineage :: [] := by
    rw [List.foldl_append, List.foldl_cons, List.foldl_nil]
    have hroom : ([] : List Digest128).length <
        (earlier.foldl Window.mark (ledgerAfter pq ledger before).lineages).capacity :=
      Window.positive _
    exact Window.queue_mark_new hnew (List.append_nil _).symm hroom
  obtain ⟨front, hfront⟩ := hlast
  have hstays := Window.mem_foldl_mark_of_few hfront hfew
  unfold PropagationLedger.hasLineage
  rw [hafter, lineages_ledgerAfter, Call.lineages_after, hmarks, Window.has_iff,
    ← List.foldl_append]
  rw [← List.foldl_append] at hstays
  simpa using hstays

/-! ## Replays leave no trace -/

/-- The call treats the signal as a replay: it is counted, has one empty explanation, contributes
to no resource, and no record is written for it. -/
structure Replayed (policy : PropagationPolicy) (request : PropagationRequest)
    (ledger ledger' : PropagationLedger) (o : PropagationOutcome) (s : PressureSignal) : Prop where
  counted : s ∈ replays policy ledger request ∧
    o.counters.signalsIdempotent = (replays policy ledger request).length
  explained : ∃ e, o.explanations.filter (fun e => e.source == s.source) = [e] ∧
    e.signal = s.id ∧ e.lineage = s.lineage ∧ e.hops = [] ∧ e.suppressed = []
  silent : ∀ n ∈ o.nodes, (∀ x ∈ n.contributions, x.source ≠ s.source) ∧
    (n.received = true → n.bestSource ≠ s.source)
  applications : ∀ r, ledger'.applications.lookup ⟨s.source, r⟩ =
    ledger.applications.lookup ⟨s.source, r⟩
  dampings : ∀ key, ledger'.dampings.lookup key ≠ ledger.dampings.lookup key →
    ∃ e ∈ o.explanations, e.source ≠ s.source ∧
      ∃ hop ∈ e.hops, hop.accepted = true ∧ key = ⟨hop.dst, hop.edge⟩

/-- A replay has another source than every live signal. -/
theorem source_ne_of_replay {s s' : PressureSignal} (hs : s ∈ replays policy ledger request)
    (hs' : s' ∈ liveSignals policy ledger request) : s'.source ≠ s.source := by
  obtain ⟨haccepted, hknown⟩ := List.mem_filter.mp hs
  obtain ⟨haccepted', hlive⟩ := List.mem_filter.mp hs'
  intro hsource
  obtain rfl := accepted_source_injective haccepted' haccepted hsource
  rw [hlive] at hknown
  cases hknown

/-- The parts of `Replayed` that speak of the outcome, for an outcome that reports the progress. -/
theorem replayed_of_writes {s : PressureSignal} {o : PropagationOutcome}
    (hs : s ∈ replays policy ledger request)
    (hcount : o.counters.signalsIdempotent = (replays policy ledger request).length)
    (hexpl : o.explanations = (progress pq topo policy ledger fences pins request).explanations)
    (hnodes : o.nodes = aggregateNodes policy (progress pq topo policy ledger fences pins request).acc)
    (happ : ∀ key, ledger'.applications.lookup key ≠ ledger.applications.lookup key →
      ∃ n ∈ o.nodes, n.received = true ∧ key = ⟨n.bestSource, n.resource⟩)
    (hdamp : ∀ key, ledger'.dampings.lookup key ≠ ledger.dampings.lookup key →
      ∃ e ∈ o.explanations, ∃ hop ∈ e.hops, hop.accepted = true ∧ key = ⟨hop.dst, hop.edge⟩) :
    Replayed policy request ledger ledger' o s := by
  have hone := hexpl ▸ @explanation_replay pq topo policy ledger fences pins request s hs
  have hsilent : ∀ n ∈ o.nodes, (∀ x ∈ n.contributions, x.source ≠ s.source) ∧
      (n.received = true → n.bestSource ≠ s.source) := by
    intro n hn
    rw [hnodes] at hn
    refine ⟨fun x hx => ?_, fun hrecv => ?_⟩
    · obtain ⟨s', hs', hsource, -⟩ := contribution_from n hn x hx
      exact hsource ▸ source_ne_of_replay hs hs'
    · obtain ⟨s', hs', hsource⟩ := bestSource_from n hn hrecv
      exact hsource ▸ source_ne_of_replay hs hs'
  refine ⟨⟨hs, hcount⟩, ⟨_, hone, rfl, rfl, rfl, rfl⟩, hsilent, fun r => ?_, fun key hkey => ?_⟩
  · by_contra hne
    obtain ⟨n, hn, hrecv, hkey⟩ := happ _ hne
    exact (hsilent n hn).2 hrecv (congrArg SourceResourceKey.source hkey).symm
  · obtain ⟨e, he, hop, hhop, hspec⟩ := hdamp key hkey
    refine ⟨e, he, fun hsource => ?_, hop, hhop, hspec⟩
    -- the one explanation of the replay has no hops
    have hmem : e ∈ o.explanations.filter fun e => e.source == s.source :=
      List.mem_filter.mpr ⟨he, beq_iff_eq.mpr hsource⟩
    rw [hone] at hmem
    rw [List.mem_singleton.mp hmem] at hhop
    cases hhop

/-- A call changes an application record only for a received resource, and a damping record only
for an accepted hop. -/
theorem records_written (pq : EntryQueue) (ledger : PropagationLedger) (c : Call) :
    (∀ key, (c.after pq ledger).applications.lookup key ≠ ledger.applications.lookup key →
      ∃ n ∈ (c.outcome pq ledger).nodes, n.received = true ∧ key = ⟨n.bestSource, n.resource⟩) ∧
    ∀ key, (c.after pq ledger).dampings.lookup key ≠ ledger.dampings.lookup key →
      ∃ e ∈ (c.outcome pq ledger).explanations, ∃ hop ∈ e.hops,
        hop.accepted = true ∧ key = ⟨hop.dst, hop.edge⟩ := by
  have hcase := propagate_cases pq (c.context ledger) c.request
  unfold Call.after Call.outcome
  revert hcase
  generalize propagate pq (c.context ledger) c.request = r
  intro hcase
  cases hcase with
  | refused => exact ⟨fun _ h => absurd rfl h, fun _ h => absurd rfl h⟩
  | allRefused _ _ hl =>
    cases hl
    exact ⟨fun _ h => absurd rfl h, fun _ h => absurd rfl h⟩
  | kept _ _ hl =>
    cases hl
    exact ⟨fun _ h => absurd rfl h, fun _ h => absurd rfl h⟩
  | @committed _ policy _ written _ _ _ _ _ hl _ _ _ hcommit =>
    cases hl
    have hwritten : (commitApplications c.request.now _
        (markLineages (liveSignals policy ledger c.request) ledger)).2 = written :=
      congrArg Prod.snd hcommit
    simp only [finalize_nodes, finalize_explanations, Option.getD_some]
    refine ⟨fun key hkey => ?_, fun key hkey => ?_⟩
    · rw [applications_commitDamping, ← hwritten,
        ← (applications_markLineages (liveSignals policy ledger c.request) ledger).1] at hkey
      exact application_written hkey
    · have hdampings : written.dampings = ledger.dampings := by
        rw [← hwritten]
        exact dampings_commitApplications.trans (dampings_markLineages _ ledger)
      rw [← hdampings] at hkey
      exact damping_written hkey

/-- A call replays every accepted signal whose lineage the ledger knows. -/
theorem replayed_of_known (pq : EntryQueue) {c : Call} {s : PressureSignal}
    (htopo : c.topology = some topo) (hpolicy : c.policy = some policy)
    (hready : Ready topo policy c.liveEpoch pins c.request)
    (hs : s ∈ (admission policy c.request).accepted) (hknown : ledger.hasLineage s.lineage = true) :
    Replayed policy c.request ledger (c.after pq ledger) (c.outcome pq ledger) s := by
  have hcontext : c.context ledger = .of topo policy ledger c.fences c.liveEpoch := by
    unfold Call.context EngineContext.of
    rw [htopo, hpolicy]
  have houtcome : c.outcome pq ledger =
      (propagate pq (.of topo policy ledger c.fences c.liveEpoch) c.request).1 := by
    rw [Call.outcome, hcontext]
  have hreport := report_of_ready pq ledger c.fences hready
  rw [← houtcome] at hreport
  obtain ⟨happ, hdamp⟩ := records_written pq ledger c
  refine replayed_of_writes (mem_replays hs hknown) ?_ hreport.explanations hreport.nodes happ hdamp
  rw [houtcome]
  exact signalsIdempotent_propagate hready

/-- Without live signals a call leaves the ledger as it was. -/
theorem after_of_no_live (pq : EntryQueue) {c : Call}
    (h : ∀ policy, c.policy = some policy → liveSignals policy ledger c.request = []) :
    c.after pq ledger = ledger := by
  have hcase := propagate_cases pq (c.context ledger) c.request
  unfold Call.after
  revert hcase
  generalize propagate pq (c.context ledger) c.request = r
  intro hcase
  cases hcase with
  | refused => rfl
  | allRefused _ _ hl =>
    cases hl
    rfl
  | kept _ _ hl =>
    cases hl
    rfl
  | committed _ hp hl _ _ _ hcommit =>
    cases hl
    have hnone := h _ hp
    rw [nodes_of_no_live hnone, hnone] at hcommit
    cases hcommit
    refine commitDamping_of_no_hops fun e he => ?_
    rcases explanation_from e he with hhops | ⟨s, hs, -⟩
    · exact hhops
    · rw [hnone] at hs
      cases hs

/-- After any run of calls, an accepted signal that carries a retained lineage is a replay, and a
call that accepts nothing but such signals leaves the ledger as it was. -/
theorem replays_idempotent (pq : EntryQueue) (ledger : PropagationLedger) (calls : List Call)
    (c : Call) :
    (∀ topo policy pins, c.topology = some topo → c.policy = some policy →
      Ready topo policy c.liveEpoch pins c.request →
      ∀ s ∈ (admission policy c.request).accepted, Retained pq ledger calls s.lineage →
        Replayed policy c.request (ledgerAfter pq ledger calls)
          (c.after pq (ledgerAfter pq ledger calls)) (c.outcome pq (ledgerAfter pq ledger calls)) s) ∧
    ((∀ policy, c.policy = some policy → ∀ s ∈ (admission policy c.request).accepted,
        Retained pq ledger calls s.lineage) →
      c.after pq (ledgerAfter pq ledger calls) = ledgerAfter pq ledger calls) := by
  refine ⟨fun topo policy pins htopo hpolicy hready s hs hretained => ?_, fun hall => ?_⟩
  · exact replayed_of_known pq htopo hpolicy hready hs (hasLineage_of_retained hretained)
  · refine after_of_no_live pq fun policy hpolicy => List.filter_eq_nil_iff.mpr fun s hs hlive => ?_
    rw [isLive, hasLineage_of_retained (hall policy hpolicy s hs)] at hlive
    cases hlive

/-- The probe at the first of two resources. -/
def probeCall (now : Tick) : Call :=
  let topo := probeTopology [probeResource ⟨7⟩, probeResource ⟨8⟩] [probeEdge ⟨1⟩ ⟨7⟩ ⟨8⟩]
  { topology := some topo, policy := some probePolicy, fences := none, liveEpoch := probeEpoch
    request := probeRequest probePolicy topo ⟨7⟩ now }

/-- The lineage that the first call committed makes the second call a replay. -/
theorem replay_of_probe :
    let ledger := ledgerAfter .scan (.make 4 4 4) [probeCall 5]
    Replayed probePolicy (probeCall 6).request ledger ((probeCall 6).after .scan ledger)
        ((probeCall 6).outcome .scan ledger)
        (probeSignal probePolicy
          (probeTopology [probeResource ⟨7⟩, probeResource ⟨8⟩] [probeEdge ⟨1⟩ ⟨7⟩ ⟨8⟩]) ⟨7⟩ 6) ∧
      (probeCall 6).after .scan ledger = ledger := by
  have hvalid : probePolicy.validate.ok = true := by decide
  have hdigest : (probeTopology [probeResource ⟨7⟩, probeResource ⟨8⟩]
      [probeEdge ⟨1⟩ ⟨7⟩ ⟨8⟩]).digest.isZero = false := by decide +kernel
  have haccepted := @admission_probe probePolicy _ ⟨7⟩ 6 hvalid hdigest (by decide)
  have hretained : Retained .scan (.make 4 4 4) [probeCall 5] { lo := 1 } := by
    refine ⟨[], probeCall 5, [], [], [], rfl, ?_, by decide +kernel, by decide +kernel⟩
    decide +kernel
  refine ⟨(replays_idempotent .scan _ _ (probeCall 6)).1 _ _ _ rfl rfl
    (ready_probe hvalid hdigest (by decide)) _ ?_ hretained,
    (replays_idempotent .scan _ _ (probeCall 6)).2 fun policy hpolicy s hs => ?_⟩
  · exact haccepted ▸ List.mem_cons_self
  · cases hpolicy
    have hone : s ∈ [probeSignal probePolicy _ ⟨7⟩ 6] := haccepted ▸ hs
    rw [List.mem_singleton.mp hone]
    exact hretained

end PropagationEngine

end Backpressure
