import Backpressure.Engine.Atomicity
import Backpressure.Engine.NoIncrease
import Backpressure.Engine.Probe

/-!
# What a signal leaves behind

Contributions come from the traversals of live signals, marked lineages are theirs, and every
signal of a request that is not accepted is listed among the rejections. A signal that is refused
at the admission leaves nothing but its rejection record.
-/

namespace Backpressure

namespace Traversal

variable {pq : EntryQueue} {ctx : TraversalContext} {c c' : Control} {t t' : Traversal pq}
  {P : NodeAccumulator → Prop}

/-- Every accumulator has the property. -/
def Throughout (P : NodeAccumulator → Prop) (acc : Accumulators) : Prop :=
  ∀ i a, acc.lookup i = some a → P a

/-- A property that fresh accumulators have and that neither a mark nor the withdrawal of a receipt
takes away. -/
structure Markless (P : NodeAccumulator → Prop) : Prop where
  fresh : ∀ id, P { resource := id }
  alike : ∀ a b : NodeAccumulator, a.Alike b → P a → P b
  withdrawn : ∀ a, P a → P { a with received := false }

namespace Throughout

variable {acc acc' : Accumulators}

theorem empty : Throughout P ∅ := fun i a ha => by
  rw [AList.lookup_empty] at ha
  cases ha

theorem alike {topo : Topology} (hP : Markless P) (h : Throughout P acc)
    (halike : acc.Alike topo acc') : Throughout P acc' := by
  intro i a' ha'
  rcases halike.adds i a' ha' with ⟨a, ha, hsame⟩ | ⟨r, -, hsame⟩
  · exact hP.alike a a' hsame (h i a ha)
  · exact hP.alike _ a' hsame (hP.fresh r.id)

theorem update {i : Nat} {id : ResourceId} {f : NodeAccumulator → NodeAccumulator}
    (hP : Markless P) (h : Throughout P acc) (hf : ∀ a, P a → P (f a)) :
    Throughout P (acc.update i id f) := by
  intro j a ha
  by_cases hj : j = i
  · subst hj
    rw [Accumulators.lookup_update_self] at ha
    obtain rfl := Option.some.inj ha
    refine hf _ ?_
    cases hl : acc.lookup j with
    | none =>
      rw [Accumulators.at'_of_none hl]
      exact hP.fresh id
    | some b =>
      rw [Accumulators.at'_of_lookup hl]
      exact h j b hl
  · rw [Accumulators.lookup_update_ne hj] at ha
    exact h j a ha

end Throughout

theorem throughout_step (hP : Markless P) (own : ∀ e a, P a → P (settleAccumulator ctx e a))
    (h : Throughout P t.acc) (hstep : Step ctx c t c' t') : Throughout P t'.acc := by
  cases hstep with
  | tidy htidy => exact h.alike hP htidy.acc
  | skip => exact h
  | @settle _ entry => exact h.update hP (own entry)
  | abandon _ _ htidy => exact h.alike hP htidy.acc
  | accept => exact h
  | leave => exact h

/-- A property that the settlements of a signal keep, its traversal keeps. -/
theorem throughout_run (hP : Markless P) (own : ∀ e a, P a → P (settleAccumulator ctx e a))
    (h : Throughout P t.acc) (hrun : RunCase ctx t (.success, t')) : Throughout P t'.acc := by
  cases hrun with
  | refused hst => cases hst
  | blocked _ _ htidy => exact Throughout.alike hP (h.update hP hP.withdrawn) htidy.acc
  | traversed _ _ _ _ htidy _ _ hstops =>
    exact (final_steps htidy hstops).invariant (P := fun _ u => Throughout P u.acc) h
      fun _ _ _ _ hu hstep => throughout_step hP own hu hstep

end Traversal

namespace PropagationEngine

open Traversal

variable {pq : EntryQueue} {topo : Topology} {policy : PropagationPolicy}
  {ledger : PropagationLedger} {fences : Option FenceTable} {pins : List (Option Generation)}
  {request : PropagationRequest}

/-- A property that the settlements of the live signals keep holds of every accumulator. -/
theorem throughout_progress {P : NodeAccumulator → Prop} (hP : Markless P)
    (own : ∀ s ∈ liveSignals policy ledger request, topo.indexOf s.origin ≠ none → ∀ e a, P a →
      P (settleAccumulator (traversalContext topo policy ledger fences pins request s) e a)) :
    Throughout P (progress pq topo policy ledger fences pins request).acc := by
  refine progress_invariant (P := fun p => Throughout P p.acc) (fun p hp => ?_) fun p s hs hp => ?_
  · rw [hp.acc]
    exact .empty
  · cases traverse_cases pq topo policy ledger fences pins request p s with
    | refused _ _ hacc => exact hacc ▸ hp
    | ran hrun hacc =>
      have hknown : topo.indexOf s.origin ≠ none := by
        cases hrun with
        | refused hst => cases hst
        | blocked horigin => exact fun hnone => absurd (horigin.indexOf.symm.trans hnone) (by simp)
        | traversed horigin => exact fun hnone => absurd (horigin.indexOf.symm.trans hnone) (by simp)
      rw [hacc]
      exact throughout_run hP (own s hs hknown) hp hrun

/-- Every contribution of an outcome is that of a live signal with a known origin. -/
theorem contribution_from : ∀ n ∈ aggregateNodes policy
      (progress pq topo policy ledger fences pins request).acc, ∀ x ∈ n.contributions,
    ∃ s ∈ liveSignals policy ledger request, x.source = s.source ∧ x.signal = s.id ∧
      topo.indexOf s.origin ≠ none := by
  have hmarkless : Markless fun a => ∀ x ∈ a.contributions,
      ∃ s ∈ liveSignals policy ledger request, x.source = s.source ∧ x.signal = s.id ∧
        topo.indexOf s.origin ≠ none := by
    refine ⟨fun _ x hx => ?_, fun a b hsame h x hx => h x (hsame.contributions ▸ hx), fun _ h => h⟩
    cases hx
  intro n hn x hx
  obtain ⟨i, a, ha, rfl⟩ := mem_aggregateNodes.mp hn
  refine throughout_progress hmarkless (fun s hs hknown e a h x hx => ?_) i a ha x hx
  rcases contributions_settle hx with hx | rfl
  · exact h x hx
  · exact ⟨s, hs, rfl, rfl, hknown⟩

/-- The best source of a received resource is that of a live signal. -/
theorem bestSource_from : ∀ n ∈ aggregateNodes policy
      (progress pq topo policy ledger fences pins request).acc, n.received = true →
    ∃ s ∈ liveSignals policy ledger request, n.bestSource = s.source := by
  have hmarkless : Markless fun a => a.received = true →
      ∃ s ∈ liveSignals policy ledger request, a.bestSource = s.source := by
    refine ⟨fun _ hrecv => ?_, fun a b hsame h hb => ?_, fun _ _ hrecv => ?_⟩
    · cases hrecv
    · have hbest : b.bestSource = a.bestSource := (congrArg NodeAccumulator.bestSource hsame).symm
      rw [hbest]
      exact h (hsame.received.symm.trans hb)
    · cases hrecv
  intro n hn hrecv
  obtain ⟨i, a, ha, rfl⟩ := mem_aggregateNodes.mp hn
  refine throughout_progress hmarkless (fun s hs _ e a h _ => ?_) i a ha hrecv
  by_cases hbetter : (!a.received || decide (a.bestPotential.raw < e.potential.raw)) = true
  · refine ⟨s, hs, ?_⟩
    unfold settleAccumulator
    rw [if_pos hbetter]
    dsimp only
    split <;> rfl
  · obtain ⟨s', hs', hbest⟩ := h (by
      by_contra hnot
      exact hbetter (by simp [hnot]))
    refine ⟨s', hs', hbest ▸ ?_⟩
    unfold settleAccumulator
    rw [if_neg hbetter]
    dsimp only
    split <;> rfl

/-- The signal is accepted or listed as refused. -/
def Decided (s : PressureSignal) (a : Admission) : Prop :=
  s ∈ a.accepted ∨ ∃ r ∈ a.rejections, r.signal = s.id ∧ r.source = s.source ∧ r.status.ok = false

theorem decided_admitNext (a : Admission) (s : PressureSignal) :
    Decided s (admitNext policy request a s) := by
  unfold admitNext
  dsimp only
  split
  case isTrue => exact .inl (List.mem_append_right _ List.mem_cons_self)
  case isFalse hst =>
    exact .inr ⟨_, List.mem_append_right _ List.mem_cons_self, rfl, rfl, by simpa using hst⟩

theorem Decided.admitNext {a : Admission} {s : PressureSignal} (h : Decided s a)
    (s' : PressureSignal) : Decided s (admitNext policy request a s') := by
  unfold PropagationEngine.admitNext
  dsimp only
  split
  · exact h.imp_left fun hs => List.mem_append_left _ hs
  · refine h.imp_right ?_
    rintro ⟨r, hr, hlisted⟩
    exact ⟨r, List.mem_append_left _ hr, hlisted⟩

/-- Every signal of a request is accepted or listed as refused. -/
theorem decided_admission {s : PressureSignal} (hs : s ∈ request.signals) :
    Decided s (admission policy request) := by
  unfold admission
  generalize ({ counters := { signalsReceived := request.signals.length } } : Admission) = a
  generalize request.signals = l at hs
  induction l using List.reverseRecOn with
  | nil => cases hs
  | append_singleton rest last ih =>
    rw [List.foldl_append, List.foldl_cons, List.foldl_nil]
    rcases List.mem_append.mp hs with hs | hs
    · exact (ih hs).admitNext last
    · rw [List.mem_singleton.mp hs]
      exact decided_admitNext _ last

/-- The traversals add rejections and take none back. -/
theorem rejections_progress : ∀ r ∈ (admission policy request).rejections,
    r ∈ (progress pq topo policy ledger fences pins request).rejections := by
  intro r hr
  rw [progress_eq]
  refine List.foldlRecOn (motive := fun p : Progress => r ∈ p.rejections) _ _ hr fun p hp s _ => ?_
  cases traverse_cases pq topo policy ledger fences pins request p s with
  | refused _ _ _ _ _ hrej =>
    rw [hrej]
    exact List.mem_append_left _ hp
  | ran _ _ _ _ _ _ _ hrej =>
    rw [hrej]
    exact hp

/-- A lineage known after a commit was known before, or is that of a live signal. -/
theorem hasLineage_of_commit {live : List PressureSignal} {nodes : List NodeOutcome} {now : Tick}
    {explanations : List PropagationExplanation} {ledger ledger' : PropagationLedger} {st : Status}
    {lineage : Digest128}
    (hcommit : commitApplications now nodes (markLineages live ledger) = (st, ledger'))
    (h : (commitDamping now explanations ledger').hasLineage lineage = true) :
    ledger.hasLineage lineage = true ∨ ∃ s ∈ live, s.lineage = lineage := by
  have hwritten : ledger' = (commitApplications now nodes (markLineages live ledger)).2 :=
    (congrArg Prod.snd hcommit).symm
  have hlineages : ledger'.lineages = (markLineages live ledger).lineages := by
    rw [hwritten]
    exact lineages_commitApplications
  unfold PropagationLedger.hasLineage at h
  rw [lineages_commitDamping, hlineages, lineages_markLineages, Lib.Window.has_iff] at h
  rcases Lib.Window.mem_of_mem_foldl_mark h with hnew | hold
  · exact .inr (List.mem_map.mp hnew)
  · exact .inl (Lib.Window.has_iff.mpr hold)

/-- The call refuses the signal, which then has no contribution in any outcome and no lineage in
the ledger: what bears its identity or its lineage belongs to another signal of the request. -/
structure Untraced (ctx : EngineContext) (request : PropagationRequest) (s : PressureSignal)
    (r : PropagationOutcome × Option PropagationLedger) : Prop where
  refused : Silent r.1 ∨ ∃ x ∈ r.1.rejections, x.signal = s.id ∧ x.source = s.source ∧
    x.status.ok = false
  contributes : ∀ n ∈ r.1.nodes, ∀ x ∈ n.contributions, x.source = s.source → x.signal = s.id →
    ∃ s' ∈ request.signals, s' ≠ s ∧ s'.source = s.source ∧ s'.id = s.id
  lineage : ∀ ledger', r.2 = some ledger' → ledger'.hasLineage s.lineage = true →
    (∃ ledger, ctx.ledger = some ledger ∧ ledger.hasLineage s.lineage = true) ∨
      ∃ s' ∈ request.signals, s' ≠ s ∧ s'.lineage = s.lineage

/-- A signal that the admission refuses leaves no trace. -/
theorem untraced_of_not_accepted (pq : EntryQueue) {ctx : EngineContext} {s : PressureSignal}
    (hs : s ∈ request.signals)
    (hnot : ∀ topo policy pins, ctx.topology = some topo → ctx.policy = some policy →
      Ready topo policy ctx.liveEpoch pins request → s ∉ (admission policy request).accepted) :
    Untraced ctx request s (propagate pq ctx request) := by
  -- what a plan reports about a signal that was not accepted
  have hreport : ∀ topo policy ledger pins, s ∉ (admission policy request).accepted →
      (∃ x ∈ (progress pq topo policy ledger ctx.fences pins request).rejections,
        x.signal = s.id ∧ x.source = s.source ∧ x.status.ok = false) ∧
      ∀ n ∈ aggregateNodes policy (progress pq topo policy ledger ctx.fences pins request).acc,
        ∀ x ∈ n.contributions, x.source = s.source → x.signal = s.id →
          ∃ s' ∈ request.signals, s' ≠ s ∧ s'.source = s.source ∧ s'.id = s.id := by
    intro topo policy ledger pins hrefused
    obtain ⟨r, hr, hlisted⟩ := (decided_admission hs).resolve_left hrefused
    refine ⟨⟨r, rejections_progress r hr, hlisted⟩, fun n hn x hx hsource hid => ?_⟩
    obtain ⟨s', hs', hsource', hid', -⟩ := contribution_from n hn x hx
    have haccepted := (List.mem_filter.mp hs').1
    refine ⟨s', (accepted_of_mem haccepted).requested, ?_, hsource'.symm.trans hsource,
      hid'.symm.trans hid⟩
    rintro rfl
    exact hrefused haccepted
  have hcase := propagate_cases pq ctx request
  revert hcase
  generalize propagate pq ctx request = r
  intro hcase
  cases hcase with
  | refused _ hst hexpl hnodes =>
    refine ⟨.inl ⟨by simp [hst], by simp [hexpl], by simp [hnodes]⟩, by simp [hnodes], ?_⟩
    exact fun ledger' hl hhas => .inl ⟨ledger', hl, hhas⟩
  | allRefused ht hp hl hready =>
    obtain ⟨hlisted, hcontributes⟩ := hreport _ _ _ _ (hnot _ _ _ ht hp hready)
    refine ⟨.inr (by simpa using hlisted), by simpa using hcontributes, fun ledger' hl' hhas => .inl ⟨_, hl, ?_⟩⟩
    obtain rfl := Option.some.inj hl'
    exact hhas
  | kept ht hp hl hready =>
    obtain ⟨hlisted, hcontributes⟩ := hreport _ _ _ _ (hnot _ _ _ ht hp hready)
    refine ⟨.inr (by simpa using hlisted), by simpa using hcontributes, fun ledger' hl' hhas => .inl ⟨_, hl, ?_⟩⟩
    obtain rfl := Option.some.inj hl'
    exact hhas
  | committed ht hp hl hready _ _ hcommit =>
    have hrefused := hnot _ _ _ ht hp hready
    obtain ⟨hlisted, hcontributes⟩ := hreport _ _ _ _ hrefused
    refine ⟨.inr (by simpa using hlisted), by simpa using hcontributes, fun ledger' hl' hhas => ?_⟩
    obtain rfl := Option.some.inj hl'
    rcases hasLineage_of_commit hcommit hhas with hold | ⟨s', hs', hlineage⟩
    · exact .inl ⟨_, hl, hold⟩
    · have haccepted := (List.mem_filter.mp hs').1
      refine .inr ⟨s', (accepted_of_mem haccepted).requested, ?_, hlineage⟩
      rintro rfl
      exact hrefused haccepted

/-! ## Expired grants -/

/-- A request of one signal, which every check of the request lets through. -/
def soleRequest (policy : PropagationPolicy) (topo : Topology) (s : PressureSignal) (now : Tick) :
    PropagationRequest :=
  { id := ⟨1⟩
    policyId := policy.id
    policyGeneration := policy.generation
    topologyDigest := topo.digest
    epoch := s.epoch
    now
    signals := [s] }

theorem admission_sole {s : PressureSignal} {now : Tick}
    (hvalid : (s.validate policy now).ok = true) (hdigest : s.topologyDigest = topo.digest) :
    (admission policy (soleRequest policy topo s now)).accepted = [s] ∧
      (admission policy (soleRequest policy topo s now)).rejections = [] := by
  have hadmit : (admitSignal policy (soleRequest policy topo s now) [] s).ok = true :=
    admitSignal_ok.mpr ⟨hvalid, hdigest, rfl, by simp⟩
  unfold admission
  simp only [soleRequest, List.foldl_cons, List.foldl_nil, admitNext] at hadmit ⊢
  rw [if_pos hadmit]
  exact ⟨rfl, rfl⟩

theorem ready_sole {s : PressureSignal} {now : Tick} (hvalid : (s.validate policy now).ok = true)
    (hdigest : s.topologyDigest = topo.digest) :
    Ready topo policy s.epoch (List.replicate topo.edges.length none)
      (soleRequest policy topo s now) := by
  have hpolicy : policy.validate.ok = true := by
    simp only [PressureSignal.validate, Status.ok_andThen, Bool.and_eq_true] at hvalid
    exact hvalid.1
  refine ⟨?_, (PropagationPolicy.valid_of_validate hpolicy).sources, Nat.zero_le _, rfl, ?_⟩
  · simp [checkRequest, hpolicy, soleRequest, StrongId.valid, StrongId.kInvalid]
  · rw [(admission_sole hvalid hdigest).1]
    exact List.cons_ne_nil _ _

/-- A valid signal whose lineage is known already is not refused. -/
theorem not_refused_replay (pq : EntryQueue) {s : PressureSignal} {now : Tick}
    (hvalid : (s.validate policy now).ok = true) (hdigest : s.topologyDigest = topo.digest) :
    let ctx := EngineContext.of topo policy ((PropagationLedger.make 1 1 1).markLineage s.lineage)
      none s.epoch
    ¬Untraced ctx (soleRequest policy topo s now) s
      (propagate pq ctx (soleRequest policy topo s now)) := by
  intro ctx huntraced
  have hready := ready_sole hvalid hdigest
  have hknown : isLive ((PropagationLedger.make 1 1 1).markLineage s.lineage) s = false := by
    have hmem : s.lineage ∈ ((PropagationLedger.make 1 1 1).markLineage s.lineage).lineages.queue :=
      Lib.Window.mem_mark_self
    simp only [isLive, PropagationLedger.hasLineage, Lib.Window.has_iff.mpr hmem, Bool.not_true]
  -- the replay has its explanation, and nothing is listed
  have hprogress : ∀ pins, (progress pq topo policy
        ((PropagationLedger.make 1 1 1).markLineage s.lineage) none pins
        (soleRequest policy topo s now)).explanations ≠ [] ∧
      (progress pq topo policy ((PropagationLedger.make 1 1 1).markLineage s.lineage) none pins
        (soleRequest policy topo s now)).rejections = [] := by
    have hlive : liveSignals policy ((PropagationLedger.make 1 1 1).markLineage s.lineage)
        (soleRequest policy topo s now) = [] := by
      rw [liveSignals, (admission_sole hvalid hdigest).1,
        List.filter_cons_of_neg (by simp [hknown]), List.filter_nil]
    intro pins
    rw [progress_eq, hlive, List.foldl_nil]
    unfold unstarted
    dsimp only
    rw [(admission_sole hvalid hdigest).1, (admission_sole hvalid hdigest).2,
      List.filter_cons_of_pos (by simp [hknown])]
    exact ⟨List.cons_ne_nil _ _, rfl⟩
  -- so no outcome of an admitted request refuses it
  have hoverall : ∀ pins, ∀ o : PropagationOutcome, o.explanations = (progress pq topo policy
        ((PropagationLedger.make 1 1 1).markLineage s.lineage) none pins
        (soleRequest policy topo s now)).explanations →
      o.rejections = (progress pq topo policy
        ((PropagationLedger.make 1 1 1).markLineage s.lineage) none pins
        (soleRequest policy topo s now)).rejections →
      ¬(Silent o ∨ ∃ x ∈ o.rejections, x.signal = s.id ∧ x.source = s.source ∧
        x.status.ok = false) := by
    rintro pins o hexpl hrej (hsilent | ⟨x, hx, -⟩)
    · exact (hprogress pins).1 (hexpl ▸ hsilent.explanations)
    · rw [hrej, (hprogress pins).2] at hx
      cases hx
  have hrefused := huntraced.refused
  have hcase := propagate_cases pq ctx (soleRequest policy topo s now)
  revert hcase hrefused
  generalize propagate pq ctx (soleRequest policy topo s now) = r
  intro hrefused hcase
  cases hcase with
  | refused hnot => exact hnot topo policy _ rfl rfl rfl hready
  | allRefused ht hp hl =>
    cases ht
    cases hp
    cases hl
    exact hoverall _ _ (by simp; rfl) (by simp; rfl) hrefused
  | kept ht hp hl =>
    cases ht
    cases hp
    cases hl
    exact hoverall _ _ (by simp; rfl) (by simp; rfl) hrefused
  | committed ht hp hl =>
    cases ht
    cases hp
    cases hl
    exact hoverall _ _ (by simp; rfl) (by simp; rfl) hrefused

/-- The expired grants of a signal are refused in every call exactly when the signal does not
pass its validation, or is bound to another topology. -/
theorem expired_grant_refused_iff (topo : Topology) (policy : PropagationPolicy)
    (s : PressureSignal) (now : Tick) :
    (∀ (pq : EntryQueue) (ctx : EngineContext) (request : PropagationRequest),
      ctx.topology = some topo → ctx.policy = some policy → request.now = now →
      s ∈ request.signals → s.authority.expiredAt now = true →
      Untraced ctx request s (propagate pq ctx request)) ↔
    ¬(s.authority.expiredAt now = true ∧ (s.validate policy now).ok = true ∧
      s.topologyDigest = topo.digest) := by
  constructor
  · rintro h ⟨hexpired, hvalid, hdigest⟩
    exact not_refused_replay .scan hvalid hdigest
      (h .scan _ (soleRequest policy topo s now) rfl rfl rfl List.mem_cons_self hexpired)
  · rintro h pq ctx request htopo hpolicy rfl hs hexpired
    refine untraced_of_not_accepted pq hs fun topo' policy' pins htopo' hpolicy' hready haccepted => ?_
    obtain rfl := Option.some.inj (htopo.symm.trans htopo')
    obtain rfl := Option.some.inj (hpolicy.symm.trans hpolicy')
    have hchecked := accepted_of_mem haccepted
    have hbound : request.topologyDigest = topo.digest := by
      have hcheck := hready.checked
      simp only [checkRequest, Status.ok_andThen, Status.ok_guard, ne_eq, reduceCtorEq,
        not_false_eq_true, Bool.and_eq_true, not_not] at hcheck
      exact hcheck.2.2.2.2.1
    exact h ⟨hexpired, hchecked.valid, hchecked.topologyDigest.trans hbound⟩

/-- The probe under a grant that expired at tick 3. -/
def expiredProbe (topo : Topology) : PressureSignal :=
  { probeSignal probePolicy topo ⟨7⟩ 5 with
    authority :=
      { level := .globalLevel, epoch := ⟨1⟩, policyGeneration := probePolicy.generation
        expiresAt := 3 } }

/-- At tick 5 the grant that expired at tick 3 still carries its pressure to the next resource,
and its lineage into the ledger. -/
theorem expired_grant_propagates :
    let topo := probeTopology [probeResource ⟨7⟩, probeResource ⟨8⟩] [probeEdge ⟨1⟩ ⟨7⟩ ⟨8⟩]
    let s := expiredProbe topo
    let request := { probeRequest probePolicy topo ⟨7⟩ 5 with signals := [s] }
    let r := propagate .scan (.of topo probePolicy (.make 4 4 4) none probeEpoch) request
    s.authority.expiredAt request.now = true ∧ r.1.status.ok = true ∧ r.1.rejections = [] ∧
      (∃ n ∈ r.1.nodes, n.resource = ⟨8⟩ ∧ n.received = true ∧
        ∃ x ∈ n.contributions, x.source = s.source ∧ x.signal = s.id) ∧
      r.2.any (fun ledger => ledger.hasLineage s.lineage) = true := by
  decide +kernel

end PropagationEngine

end Backpressure
