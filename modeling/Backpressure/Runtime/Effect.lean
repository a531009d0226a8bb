import Backpressure.Engine.Cooldown
import Backpressure.Engine.Shares
import Backpressure.Engine.Truncation
import Backpressure.Runtime.Attempt

/-!
# What an accepted publish leaves in the ledger

A publish is accepted when the engine has run twice with the same outcome. A truncated run is not
written to the ledger, and is accepted all the same.
-/

namespace Backpressure

/-- The ledger has the lineage of the signal, and of every resource that the outcome reports an
application of that magnitude at that time. -/
structure PropagationLedger.Shows (l : PropagationLedger) (signal : PressureSignal) (now : Tick)
    (o : PropagationOutcome) : Prop where
  lineage : l.hasLineage signal.lineage = true
  applications : ∀ n ∈ o.nodes, n.received = true → n.applied.isZero = false →
    l.applications.lookup ⟨signal.source, n.resource⟩ = some ⟨n.applied, now, true⟩

namespace PropagationEngine

variable {pq : EntryQueue} {topo : Topology} {policy : PropagationPolicy}
  {ledger : PropagationLedger} {fences : Option FenceTable} {liveEpoch : Epoch}
  {pins : List (Option Generation)} {request : PropagationRequest} {s : PressureSignal}

theorem live_of_accepted (hsingle : request.signals = [s])
    (hsome : (progress pq topo policy ledger fences pins request).counters.signalsAccepted ≠ 0) :
    liveSignals policy ledger request = [s] := by
  have hlive : liveSignals policy ledger request ≠ [] := by
    intro hnone
    rw [progress_eq, hnone, List.foldl_nil] at hsome
    have hnone : (unstarted policy ledger topo request).counters.signalsAccepted = 0 :=
      unstarted_spec.accepted
    exact hsome hnone
  have haccepted : (admission policy request).accepted = [s] := by
    apply accepted_of_single hsingle
    intro hnone
    apply hlive
    rw [liveSignals, hnone, List.filter_nil]
  unfold liveSignals at hlive ⊢
  rw [haccepted, List.filter_singleton] at hlive ⊢
  cases hs : isLive ledger s with
  | true => rfl
  | false =>
    rw [hs] at hlive
    exact absurd rfl hlive

/-- What a committed run writes for its only signal. -/
theorem shows_committed {o : PropagationOutcome} {ledger' : PropagationLedger} {st : Status}
    (hlive : liveSignals policy ledger request = [s])
    (hnodes : o.nodes =
      aggregateNodes policy (progress pq topo policy ledger fences pins request).acc)
    (hcommit : commitApplications request.now
      (aggregateNodes policy (progress pq topo policy ledger fences pins request).acc)
      (markLineages (liveSignals policy ledger request) ledger) = (st, ledger'))
    (hok : st.ok = true) {explanations : List PropagationExplanation} :
    (commitDamping request.now explanations ledger').Shows s request.now o := by
  have hafter : (commitApplications request.now
      (aggregateNodes policy (progress pq topo policy ledger fences pins request).acc)
      (markLineages (liveSignals policy ledger request) ledger)).2 = ledger' :=
    congrArg Prod.snd hcommit
  constructor
  · have hmarked : ledger'.lineages = ledger.lineages.mark s.lineage := by
      rw [← hafter, lineages_commitApplications, lineages_markLineages, hlive]
      rfl
    unfold PropagationLedger.hasLineage
    rw [lineages_commitDamping, hmarked, Lib.Window.has_iff]
    exact Lib.Window.mem_mark_self
  · intro n hn hreceived happlied
    rw [hnodes] at hn
    have hrecorded := application_recorded (by rw [hcommit]; exact hok) hn hreceived happlied
      fun n' hn' => outcome_unique hn hn'
    obtain ⟨s', hs', hsource⟩ := bestSource_from n hn hreceived
    rw [hlive, List.mem_singleton] at hs'
    rw [hafter, hsource, hs'] at hrecorded
    rw [applications_commitDamping]
    exact hrecorded

/-- A run with one signal that is accepted shows in the ledger unless its records are cut. -/
theorem shows_iff {o : PropagationOutcome} {ledger' : PropagationLedger}
    (hsingle : request.signals = [s]) (hpins : request.pins = []) (hdry : request.dryRun = false)
    (hrun : propagate pq (.of topo policy ledger fences liveEpoch) request = (o, some ledger'))
    (hok : o.status.ok = true) (hone : o.counters.signalsAccepted ≠ 0) :
    ledger'.Shows s request.now o ↔ ¬Starved pq topo policy ledger fences
      (List.replicate topo.edges.length none) request s := by
  have hcase := propagate_cases pq (.of topo policy ledger fences liveEpoch) request
  rw [hrun] at hcase
  have hpinned : ∀ {pins}, Ready topo policy liveEpoch pins request →
      pins = List.replicate topo.edges.length none := fun hready => by
    have hresolved := hready.pins
    rw [hpins] at hresolved
    exact (Except.ok.inj hresolved).symm
  have hflag : ∀ pins, liveSignals policy ledger request = [s] →
      ((progress pq topo policy ledger fences pins request).truncated = true ↔
        Starved pq topo policy ledger fences pins request s) := fun pins hlive => by
    rw [progress_flags.1, hlive]
    simp
  generalize hend : some ledger' = after at hcase
  cases hcase with
  | refused _ hno =>
    rw [finalize_status, hno] at hok
    cases hok
  | allRefused _ _ _ _ hno =>
    rw [finalize_status] at hok
    exact absurd (hok.symm.trans hno) (by decide)
  | @kept _ _ _ pins counters ht hp hl hready hkept haccepted =>
    cases ht
    cases hp
    cases hl
    cases hend
    rw [finalize_counters] at hone
    have hlive := live_of_accepted hsingle (haccepted ▸ hone)
    have htruncated := hkept.resolve_left (by rw [hdry]; decide)
    have hstarved := (hflag pins hlive).mp htruncated
    rw [hpinned hready] at hstarved
    refine iff_of_false (fun hshows => ?_) (not_not.mpr hstarved)
    have hfresh : s ∈ liveSignals policy ledger request := by rw [hlive]; exact List.mem_cons_self
    have hnew := (List.mem_filter.mp hfresh).2
    rw [isLive, hshows.lineage] at hnew
    cases hnew
  | @committed _ _ _ written pins st counters ht hp hl hready _ hwhole hcommit haccepted =>
    cases ht
    cases hp
    cases hl
    cases hend
    rw [finalize_counters] at hone
    have hlive := live_of_accepted hsingle (haccepted ▸ hone)
    refine iff_of_true (shows_committed hlive (by rw [finalize_nodes]; rfl) hcommit ?_) ?_
    · rwa [finalize_status] at hok
    · have huncut : (progress pq topo policy ledger fences pins request).truncated = false := hwhole
      rw [← hpinned hready, ← hflag pins hlive, huncut]
      exact Bool.false_ne_true

end PropagationEngine

namespace Fabric

variable {pq : EntryQueue} {F F' : Fabric} {d d' : Disk} {request : PropagationRequest}
  {planned o : PropagationOutcome} {now : Tick}

/-- An accepted publish returns what the engine has done to the ledger. -/
theorem publish_accepted {signal : PressureSignal}
    (h : F.publish pq signal now d = (.ok o, F', d')) (hok : o.status.ok = true) :
    ∃ topology policy, F.topology = some topology ∧ F.policy = some policy ∧
      PropagationEngine.propagate pq (.of topology policy F.ledger (some F.fences) F.epoch)
        (requestOf policy topology F.epoch F.attempts [signal] now) = (o, some F'.ledger) := by
  have hruns := publish_runs pq F signal now d
  rw [h] at hruns
  cases hruns with
  | turnedAway _ hno =>
    rw [hno o rfl] at hok
    cases hok
  | @attempted topology policy _ hattempts hends =>
    refine ⟨topology, policy, hattempts.hasTopology, hattempts.hasPolicy, ?_⟩
    have hcontext : F.context = .of topology policy F.ledger (some F.fences) F.epoch := by
      unfold context EngineContext.of
      rw [← hattempts.hasTopology, ← hattempts.hasPolicy]
    have hrun := @propagate_context pq F (F.request topology policy [signal] now)
    rw [hcontext] at hrun
    generalize hend : F.attempt pq topology policy _ now d = ended at hends
    generalize hafter : (Except.ok o, F', d') = after at hends
    cases hends with
    | failed =>
      cases hafter
      rw [(reported hend).1 o rfl] at hok
      cases hok
    | @done o₁ F₁ F₂ d₁ hsame =>
      obtain ⟨houtcome, hcompacted⟩ := Prod.mk.inj hafter
      cases houtcome
      have hran := (reported hend).2 o rfl
      have hledger : F'.ledger = F₁.ledger := by
        rw [show F' = (F₂.journalCompactionLocked d₁).1 from congrArg Prod.fst hcompacted,
          ledger_journalCompactionLocked, hsame.ledger]
      rw [hledger]
      exact hrun.trans (Prod.ext (congrArg Prod.fst hran).symm
        (congrArg some (congrArg Prod.snd hran).symm))
    | refused => cases hafter
    | mismatch => cases hafter
    | uncommitted => cases hafter

/-- An accepted publish has taken effect exactly when the records of its signal are not cut. -/
theorem publish_effective_iff {signal : PressureSignal}
    (h : F.publish pq signal now d = (.ok o, F', d')) (hok : o.status.ok = true)
    (hone : o.counters.signalsAccepted = 1) :
    F'.ledger.Shows signal now o ↔ ∀ topology policy,
      F.topology = some topology → F.policy = some policy →
        ¬PropagationEngine.Starved pq topology policy F.ledger (some F.fences)
          (List.replicate topology.edges.length none)
          (requestOf policy topology F.epoch F.attempts [signal] now) signal := by
  obtain ⟨topology, policy, htopology, hpolicy, hrun⟩ := publish_accepted h hok
  have hshows := PropagationEngine.shows_iff (s := signal) rfl rfl rfl hrun hok (by omega)
  refine hshows.trans ?_
  constructor
  · intro hcovered topology' policy' htopology' hpolicy'
    rw [htopology] at htopology'
    rw [hpolicy] at hpolicy'
    cases htopology'
    cases hpolicy'
    exact hcovered
  · intro hcovered
    exact hcovered topology policy htopology hpolicy

/-- A policy that pays for two records, with no room for a second resource. -/
def narrowPolicy : PropagationPolicy :=
  { probePolicy with maxExpansions := 1, maxVisited := 1, maxRecords := 2, maxPathRecords := 2 }

def narrowFabric (edges : List DependencyEdge) (F : Fabric) : Fabric :=
  let F := (F.installTopology
    [probeResource ⟨7⟩, probeResource ⟨8⟩, { probeResource ⟨9⟩ with protection := .sealed }]
    edges 1 {}).2.1
  let F := (F.installPolicy narrowPolicy 2 {}).2.1
  (F.registerPublisher ⟨1⟩ { boot := { lo := 1 }, seq := 1 } 3).2

/-- A publish that is counted as accepted; whether the ledger then has the lineage is `kept`. -/
def accepts (F : Fabric) (signal : PressureSignal) (kept : Bool) : Bool :=
  match F.publish .scan signal 5 {} with
  | (.ok o, F', _) =>
    o.status.ok && decide (o.counters.signalsAccepted = 1) &&
      decide (F'.ledger.hasLineage signal.lineage = kept)
  | (.error _, _, _) => false

/-- A full signal at the first resource. -/
def narrowSignal (F : Fabric) : PressureSignal :=
  probeSignal narrowPolicy (F.topology.getD (probeTopology [] [])) ⟨7⟩ 5

theorem accepted_of_accepts {signal : PressureSignal} {kept : Bool}
    (h : F.accepts signal kept = true) : ∃ o F' d', F.publish .scan signal 5 {} = (.ok o, F', d') ∧
      o.status.ok = true ∧ o.counters.signalsAccepted = 1 ∧
      F'.ledger.hasLineage signal.lineage = kept := by
  unfold accepts at h
  generalize hrun : F.publish .scan signal 5 {} = after at h
  obtain ⟨result, F', d'⟩ := after
  cases result with
  | error st => cases h
  | ok o =>
    dsimp only at h
    rw [Bool.and_eq_true, Bool.and_eq_true, decide_eq_true_iff, decide_eq_true_iff] at h
    exact ⟨o, F', d', rfl, h.1.1, h.1.2, h.2⟩

/-- Without edges two records are enough. -/
theorem uncut_effective : ∃ F, (openAt {} {} {}).1 = .ok F ∧ ∃ o F' d',
    let F := F.narrowFabric []
    F.publish .scan F.narrowSignal 5 {} = (.ok o, F', d') ∧
      (o.nodes.map fun n => (n.resource, n.applied.raw)) = [(⟨7⟩, 65536)] ∧
      F'.ledger.Shows F.narrowSignal 5 o := by
  refine ⟨{ blank {} {} with epoch := ⟨1⟩ }, rfl, ?_⟩
  generalize hnarrow : narrowFabric [] { blank {} {} with epoch := ⟨1⟩ } = F
  have haccepts : F.accepts F.narrowSignal true = true := by
    rw [← hnarrow]
    decide +kernel
  obtain ⟨o, F', d', hpublish, hok, hone, -⟩ := accepted_of_accepts haccepts
  have hnodes : o.nodes.map (fun n => (n.resource, n.applied.raw)) = [(⟨7⟩, 65536)] := by
    have hrun : (F.publish .scan F.narrowSignal 5 {}).1.toOption.map (fun o =>
        o.nodes.map fun n => (n.resource, n.applied.raw)) = some [(⟨7⟩, 65536)] := by
      rw [← hnarrow]
      decide +kernel
    rw [hpublish] at hrun
    exact Option.some.inj hrun
  have hcovered : ∀ topology ∈ F.topology, ∀ policy ∈ F.policy,
      PropagationEngine.demandOf .scan topology policy F.ledger (some F.fences)
        (List.replicate topology.edges.length none)
        (requestOf policy topology F.epoch F.attempts [F.narrowSignal] 5) F.narrowSignal ≤
      PropagationEngine.recordBudget policy
        (requestOf policy topology F.epoch F.attempts [F.narrowSignal] 5) := by
    rw [← hnarrow]
    decide +kernel
  exact ⟨o, F', d', hpublish, hnodes, (publish_effective_iff hpublish hok hone).mpr
    fun topology policy htopology hpolicy =>
      Nat.not_lt_of_le (hcovered topology htopology policy hpolicy)⟩

/-- Three edges that are refused for three reasons cut the records, and the publish is counted as
accepted without a trace in the ledger. -/
theorem accepted_lost : ∃ F, (openAt {} {} {}).1 = .ok F ∧ ∃ o F' d',
    let F := F.narrowFabric [
      { probeEdge ⟨1⟩ ⟨7⟩ ⟨8⟩ with attenuation := .zero },
      { probeEdge ⟨2⟩ ⟨7⟩ ⟨8⟩ with flags := ⟨EdgeFlagKind.recoveryOnly.mask⟩ },
      probeEdge ⟨3⟩ ⟨7⟩ ⟨9⟩]
    F.publish .scan F.narrowSignal 5 {} = (.ok o, F', d') ∧ o.status.ok = true ∧
      o.counters.signalsAccepted = 1 ∧ ¬F'.ledger.Shows F.narrowSignal 5 o := by
  refine ⟨{ blank {} {} with epoch := ⟨1⟩ }, rfl, ?_⟩
  generalize hedges : [_, _, _] = edges
  have haccepts : (narrowFabric edges { blank {} {} with epoch := ⟨1⟩ }).accepts
      (narrowFabric edges { blank {} {} with epoch := ⟨1⟩ }).narrowSignal false = true := by
    rw [← hedges]
    decide +kernel
  obtain ⟨o, F', d', hpublish, hok, hone, hlost⟩ := accepted_of_accepts haccepts
  refine ⟨o, F', d', hpublish, hok, hone, fun hshows => ?_⟩
  rw [hshows.lineage] at hlost
  cases hlost

end Fabric

end Backpressure
