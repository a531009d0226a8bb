import Backpressure.Engine.Evidence
import Backpressure.Engine.Removal

/-!
# Lineages on trust

The publishers of some sources bind the lineages of their signals, the others write into the field
what they like. Nothing that lets a signal through looks at what its lineage says about its content,
so a call takes foreign lineages as soon as a signal of the others gets that far.
-/

namespace Backpressure

namespace PressureSignal

/-- The signal with another lineage. -/
def withLineage (s : PressureSignal) (lineage : Digest128) : PressureSignal := { s with lineage }

/-- The signal without its lineage. -/
def unbound (s : PressureSignal) : PressureSignal := s.withLineage {}

variable {s s' : PressureSignal} {lineage lineage' : Digest128} {policy : PropagationPolicy}
  {now : Tick}

@[simp] theorem unbound_withLineage : (s.withLineage lineage).unbound = s.unbound := rfl

@[simp] theorem source_withLineage : (s.withLineage lineage).source = s.source := rfl

theorem bindLineage_eq : s.bindLineage = s.withLineage s.computeLineage := rfl

@[simp] theorem computeLineage_unbound : s.unbound.computeLineage = s.computeLineage :=
  computeLineage_withLineage s {}

theorem withLineage_of_unbound (h : s'.unbound = s.unbound) : s' = s.withLineage s'.lineage := by
  have hback : s'.unbound.withLineage s'.lineage = s.unbound.withLineage s'.lineage := by rw [h]
  exact hback

/-- The check of a signal asks of its lineage only whether there is one. -/
theorem validate_withLineage (h : lineage.isZero = lineage'.isZero) :
    (s.withLineage lineage).validate policy now = (s.withLineage lineage').validate policy now := by
  have hlineage : (s.withLineage lineage).lineage.isZero =
      (s.withLineage lineage').lineage.isZero := h
  unfold validate
  rw [hlineage]
  rfl

/-- A signal without a lineage is refused. -/
theorem validate_unbound : (s.unbound.validate policy now).ok = false := by
  cases hok : (s.unbound.validate policy now).ok with
  | false => rfl
  | true =>
    obtain ⟨-, -, -, hlineage⟩ := of_validate hok
    cases hlineage

/-- Some lineage is not that of the content. -/
theorem exists_foreign (s : PressureSignal) :
    ∃ lineage : Digest128, lineage.isZero = false ∧ lineage ≠ s.computeLineage := by
  by_cases hone : (⟨0, 1⟩ : Digest128) = s.computeLineage
  · exact ⟨⟨0, 2⟩, rfl, fun htwo => absurd (hone.trans htwo.symm) (by decide)⟩
  · exact ⟨⟨0, 1⟩, rfl, hone⟩

end PressureSignal

namespace PropagationEngine

variable {pq : EntryQueue} {topo : Topology} {policy : PropagationPolicy}
  {ledger : PropagationLedger} {pins : List (Option Generation)} {ctx : EngineContext}
  {request : PropagationRequest} {s : PressureSignal}
  {l before after accepted : List PressureSignal}
  {bound : SourceId → Prop}

/-- The signal passes what the admission checks besides its lineage and the sources before it. -/
structure Presentable (policy : PropagationPolicy) (request : PropagationRequest)
    (s : PressureSignal) : Prop where
  valid : ((s.withLineage ⟨0, 1⟩).validate policy request.now).ok = true
  topologyDigest : s.topologyDigest = request.topologyDigest
  epoch : s.epoch = request.epoch

/-- Lineages that the publishers may write: those of the bound sources call `bind_lineage`. -/
structure Written (bound : SourceId → Prop) (request : PropagationRequest)
    (l : List PressureSignal) : Prop where
  contents : l.map PressureSignal.unbound = request.signals.map PressureSignal.unbound
  own : ∀ s ∈ l, bound s.source → ∃ content : PressureSignal, s = content.bindLineage

/-- The call takes a lineage on trust: the request passes its checks and a signal of no bound source
those of the admission, and the signal has an origin in the topology, or the ledger knows a lineage
that is not the signal's own. -/
def Trusts (bound : SourceId → Prop) (ctx : EngineContext) (request : PropagationRequest) : Prop :=
  ∃ topo policy ledger pins, ctx.topology = some topo ∧ ctx.policy = some policy ∧
    ctx.ledger = some ledger ∧ (checkRequest topo policy ctx.liveEpoch request).ok = true ∧
    request.signals.length ≤ policy.maxSources.toNat ∧ request.pins.length ≤ kMaxDependencyPins ∧
    resolvePins topo request.pins = .ok pins ∧
    ∃ s ∈ request.signals, ¬bound s.source ∧ Presentable policy request s ∧
      ((topo.indexOf s.origin).isSome = true ∨ ∃ lineage, ledger.hasLineage lineage = true ∧
        lineage.isZero = false ∧ lineage ≠ s.computeLineage)

open Classical in
/-- Bound sources bind, the others leave the field empty. -/
noncomputable def fill (bound : SourceId → Prop) (s : PressureSignal) : PressureSignal :=
  if bound s.source then s.bindLineage else s.unbound

theorem unbound_fill : (fill bound s).unbound = s.unbound := by
  unfold fill
  split
  · rw [PressureSignal.bindLineage_eq, PressureSignal.unbound_withLineage]
  · exact PressureSignal.unbound_withLineage

theorem source_fill : (fill bound s).source = s.source := by
  unfold fill
  split
  · rw [PressureSignal.bindLineage_eq, PressureSignal.source_withLineage]
  · exact PressureSignal.source_withLineage

theorem written_fill : Written bound request (request.signals.map (fill bound)) where
  contents := by
    rw [List.map_map]
    exact List.map_congr_left fun s _ => unbound_fill
  own s hs hbound := by
    obtain ⟨content, -, rfl⟩ := List.mem_map.mp hs
    rw [source_fill] at hbound
    exact ⟨content, if_pos hbound⟩

/-- Only signals of bound sources are accepted when the others leave the field empty. -/
theorem accepted_fill (haccepted : ∀ s ∈ accepted, bound s.source) :
    ∀ s ∈ (l.map (fill bound)).foldl (acceptNext policy request) accepted, bound s.source := by
  induction l generalizing accepted with
  | nil => exact haccepted
  | cons s rest ih =>
    rw [List.map_cons, List.foldl_cons]
    refine ih ?_
    unfold acceptNext
    split
    case isFalse => exact haccepted
    case isTrue hok =>
      intro s' hs'
      rcases List.mem_append.mp hs' with hs' | hs'
      · exact haccepted s' hs'
      · rw [List.mem_singleton.mp hs', source_fill]
        by_contra hnot
        have hfill : fill bound s = s.unbound := if_neg hnot
        have hvalid := (admitSignal_ok.mp hok).1
        rw [hfill, PressureSignal.validate_unbound] at hvalid
        cases hvalid

theorem mem_foldl_acceptNext (hs : s ∈ accepted) :
    s ∈ l.foldl (acceptNext policy request) accepted := by
  induction l generalizing accepted with
  | nil => exact hs
  | cons s' rest ih =>
    rw [List.foldl_cons]
    refine ih ?_
    unfold acceptNext
    split
    · exact List.mem_append_left _ hs
    · exact hs

/-- A presentable signal of another source is accepted with any lineage. -/
theorem accepted_foreign {lineage : Digest128} (h : Presentable policy request s)
    (hfree : ¬bound s.source) (hlineage : lineage.isZero = false) :
    s.withLineage lineage ∈ acceptedAmong policy request
      (before.map (fill bound) ++ s.withLineage lineage :: after.map (fill bound)) := by
  have hvalid : ((s.withLineage lineage).validate policy request.now).ok = true := by
    have hsame : lineage.isZero = (⟨0, 1⟩ : Digest128).isZero := hlineage
    rw [PressureSignal.validate_withLineage hsame]
    exact h.valid
  have hothers : ∀ other ∈ acceptedAmong policy request (before.map (fill bound)),
      other.source ≠ (s.withLineage lineage).source := by
    intro other hother hsource
    have hbound : bound other.source := accepted_fill (by simp) other hother
    rw [hsource] at hbound
    exact hfree hbound
  have hadmit : (admitSignal policy request (acceptedAmong policy request (before.map (fill bound)))
      (s.withLineage lineage)).ok = true :=
    admitSignal_ok.mpr ⟨hvalid, h.topologyDigest, h.epoch, hothers⟩
  rw [acceptedAmong_append, List.foldl_cons]
  refine mem_foldl_acceptNext ?_
  rw [acceptNext, if_pos hadmit]
  exact List.mem_append_right _ (List.mem_singleton_self _)

/-- The checks of a request do not look into its signals. -/
theorem checkRequest_withSignals {liveEpoch : Epoch} (h : l.length = request.signals.length) :
    checkRequest topo policy liveEpoch (withSignals request l) =
      checkRequest topo policy liveEpoch request := by
  have hnil : l = [] ↔ request.signals = [] := by
    rw [← List.length_eq_zero_iff, h, List.length_eq_zero_iff]
  unfold checkRequest
  simp only [withSignals, hnil]

/-- A foreign lineage that gets through gets through on trust. -/
theorem trusts_of_admissible (hwritten : Written bound request l)
    (h : Admissible ctx (withSignals request l) s) (hforeign : s.lineage ≠ s.computeLineage) :
    Trusts bound ctx request := by
  obtain ⟨topo, policy, ledger, pins, ht, hp, hl, hready, hs, hthrough⟩ := h
  have hlength : l.length = request.signals.length := by
    rw [← List.length_map PressureSignal.unbound, hwritten.contents, List.length_map]
  have haccepted := accepted_of_mem hs
  obtain ⟨s', hs', hunbound⟩ : ∃ s' ∈ request.signals, s'.unbound = s.unbound := by
    have hmem : s.unbound ∈ l.map PressureSignal.unbound := List.mem_map_of_mem haccepted.requested
    rw [hwritten.contents] at hmem
    exact List.mem_map.mp hmem
  have hlineage : s.lineage.isZero = false := (PressureSignal.of_validate haccepted.valid).2.2.2
  have hback : s'.withLineage s.lineage = s :=
    (PressureSignal.withLineage_of_unbound hunbound.symm).symm
  have hfields := congrArg (fun x : PressureSignal =>
    (x.topologyDigest, x.epoch, x.origin, x.source, x.computeLineage)) hunbound
  simp only [Prod.mk.injEq, PressureSignal.computeLineage_unbound] at hfields
  obtain ⟨hdigest, hepoch, horigin, hsource, hcompute⟩ := hfields
  have hfree : ¬bound s'.source := by
    intro hbound
    have hbound' : bound s.source := hsource ▸ hbound
    obtain ⟨content, rfl⟩ := hwritten.own s haccepted.requested hbound'
    exact hforeign content.lineage_bindLineage
  refine ⟨topo, policy, ledger, pins, ht, hp, hl, ?_, ?_, hready.pinCount, hready.pins, s', hs',
    hfree, ⟨?_, hdigest.trans haccepted.topologyDigest, hepoch.trans haccepted.epoch⟩, ?_⟩
  · rw [← checkRequest_withSignals hlength]
    exact hready.checked
  · rw [← hlength]
    exact hready.sources
  · have hvalid : ((s'.withLineage s.lineage).validate policy request.now).ok = true := by
      rw [hback]
      exact haccepted.valid
    have hone : (⟨0, 1⟩ : Digest128).isZero = s.lineage.isZero := hlineage.symm
    rw [PressureSignal.validate_withLineage hone]
    exact hvalid
  · rcases hthrough with hknown | horigin'
    · refine .inr ⟨s.lineage, hknown, hlineage, ?_⟩
      rw [hcompute]
      exact hforeign
    · refine .inl ?_
      have heq : s'.origin = s.origin := horigin
      rw [heq]
      exact horigin'

/-- A call that takes lineages on trust lets through one that is not that of the content. -/
theorem admissible_of_trusts (h : Trusts bound ctx request) :
    ∃ l s, Written bound request l ∧ Admissible ctx (withSignals request l) s ∧
      s.lineage ≠ s.computeLineage := by
  obtain ⟨topo, policy, ledger, pins, ht, hp, hl, hchecked, hsources, hpinCount, hpins, s, hs,
    hfree, hpresentable, hthrough⟩ := h
  obtain ⟨lineage, hlineage, hforeign, hthrough⟩ : ∃ lineage : Digest128, lineage.isZero = false ∧
      lineage ≠ s.computeLineage ∧
      (ledger.hasLineage lineage = true ∨ (topo.indexOf s.origin).isSome = true) := by
    rcases hthrough with horigin | ⟨lineage, hknown, hlineage, hforeign⟩
    · obtain ⟨lineage, hlineage, hforeign⟩ := s.exists_foreign
      exact ⟨lineage, hlineage, hforeign, .inr horigin⟩
    · exact ⟨lineage, hlineage, hforeign, .inl hknown⟩
  obtain ⟨before, after, hsplit⟩ := List.append_of_mem hs
  have hwritten : Written bound request
      (before.map (fill bound) ++ s.withLineage lineage :: after.map (fill bound)) := by
    refine ⟨?_, fun s' hs' hbound => ?_⟩
    · have hfill : ∀ l : List PressureSignal,
          (l.map (fill bound)).map PressureSignal.unbound = l.map PressureSignal.unbound := by
        intro l
        rw [List.map_map]
        exact List.map_congr_left fun s _ => unbound_fill
      rw [hsplit, List.map_append, List.map_cons, List.map_append, List.map_cons, hfill, hfill,
        PressureSignal.unbound_withLineage]
    · have hwhole := (@written_fill request bound).own s'
      rw [hsplit, List.map_append, List.map_cons] at hwhole
      rcases List.mem_append.mp hs' with hs' | hs'
      · exact hwhole (List.mem_append_left _ hs') hbound
      · rcases List.mem_cons.mp hs' with rfl | hs'
        · exact absurd hbound hfree
        · exact hwhole (List.mem_append_right _ (List.mem_cons_of_mem _ hs')) hbound
  have hlength := congrArg List.length hwritten.contents
  rw [List.length_map, List.length_map] at hlength
  have haccepted : s.withLineage lineage ∈ (admission policy (withSignals request
      (before.map (fill bound) ++ s.withLineage lineage :: after.map (fill bound)))).accepted := by
    rw [accepted_withSignals]
    exact accepted_foreign hpresentable hfree hlineage
  refine ⟨_, s.withLineage lineage, hwritten, ⟨topo, policy, ledger, pins, ht, hp, hl,
    ⟨?_, ?_, hpinCount, hpins, List.ne_nil_of_mem haccepted⟩, haccepted, hthrough⟩, ?_⟩
  · rw [checkRequest_withSignals hlength]
    exact hchecked
  · exact hlength.trans_le hsources
  · have hcompute : (s.withLineage lineage).computeLineage = s.computeLineage :=
      PressureSignal.computeLineage_withLineage s lineage
    rw [hcompute]
    exact hforeign

/-- Where some sources bind their lineages and the others write what they like, two calls take
nothing but lineages of contents exactly when neither takes a lineage on trust. -/
theorem content_addressed_iff (pq : EntryQueue) (ctx ctx' : EngineContext)
    (request request' : PropagationRequest) (bound : SourceId → Prop) :
    (∀ l l', Written bound request l → Written bound request' l' →
      ContentAddressed pq ctx ctx' (withSignals request l) (withSignals request' l')) ↔
      ¬Trusts bound ctx request ∧ ¬Trusts bound ctx' request' := by
  constructor
  · intro h
    refine ⟨fun htrusts => ?_, fun htrusts => ?_⟩
    · obtain ⟨l, s, hwritten, hadmissible, hforeign⟩ := admissible_of_trusts htrusts
      exact hforeign ((h l _ hwritten written_fill).first s (taken_iff.mpr hadmissible))
    · obtain ⟨l, s, hwritten, hadmissible, hforeign⟩ := admissible_of_trusts htrusts
      exact hforeign ((h _ l written_fill hwritten).second s (taken_iff.mpr hadmissible))
  · rintro ⟨hfirst, hsecond⟩ l l' hwritten hwritten'
    have hown : ∀ s, Taken pq ctx (withSignals request l) s → s.lineage = s.computeLineage := by
      intro s hs
      by_contra hforeign
      exact hfirst (trusts_of_admissible hwritten (taken_iff.mp hs) hforeign)
    have hown' : ∀ s, Taken pq ctx' (withSignals request' l') s →
        s.lineage = s.computeLineage := by
      intro s hs
      by_contra hforeign
      exact hsecond (trusts_of_admissible hwritten' (taken_iff.mp hs) hforeign)
    refine ⟨hown, hown', fun s s' hs hs' hfree => ?_⟩
    rw [hown s hs, hown' s' hs']
    exact PressureSignal.computeLineage_eq_iff hfree

/-- The probe brings a lineage that is not its own, and is taken. -/
theorem foreign_lineage_taken :
    ¬∀ (pq : EntryQueue) (ctx ctx' : EngineContext) (request request' : PropagationRequest),
      ContentAddressed pq ctx ctx' request request' := by
  intro h
  let topo := probeTopology [probeResource ⟨7⟩] []
  let ctx := EngineContext.of topo probePolicy (.make 4 4 4) none probeEpoch
  have hvalid : probePolicy.validate.ok = true := by decide
  have hdigest : topo.digest.isZero = false := by decide +kernel
  have hindex : (topo.indexOf ⟨7⟩).isSome = true := by decide +kernel
  have hforeign : (probeSignal probePolicy topo ⟨7⟩ 5).lineage ≠
      (probeSignal probePolicy topo ⟨7⟩ 5).computeLineage := by
    decide +kernel
  have hadmissible : Admissible ctx (probeRequest probePolicy topo ⟨7⟩ 5)
      (probeSignal probePolicy topo ⟨7⟩ 5) := by
    refine ⟨topo, probePolicy, _, _, rfl, rfl, rfl, ready_probe hvalid hdigest (by decide), ?_,
      .inr hindex⟩
    rw [admission_probe hvalid hdigest (by decide)]
    exact List.mem_singleton_self _
  exact hforeign ((h .scan ctx ctx _ {}).first _ (taken_iff.mpr hadmissible))

end PropagationEngine

end Backpressure
