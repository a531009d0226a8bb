import Backpressure.Engine.Served
import Backpressure.Engine.Alone

/-!
# More hops

A signal that is granted more hops need not reach more resources: its strongest path to a resource
may become a longer one, and leave less of the grant for what lies behind. Where the longer grant
runs out nowhere that it leads farther from the origin, nothing is lost.
-/

namespace Backpressure

/-- The signal under a grant of so many hops. -/
def PressureSignal.withHops (s : PressureSignal) (k : UInt32) : PressureSignal :=
  { s with authority := { s.authority with maxHopsGranted := k } }

/-- The traversal of the signal under another grant of hops. -/
def TraversalContext.withHops (ctx : TraversalContext) (k : UInt32) : TraversalContext :=
  { ctx with signal := ctx.signal.withHops k }

namespace Traversal

variable {pq : EntryQueue} {ctx : TraversalContext} {t t' : Traversal pq} {e e' : QueueEntry}
  {edge : DependencyEdge} {res toRes : Resource} {settled settled' : List Nat} {k : UInt32}
  {expansions expansions' fanout fanout' i j : Nat}

/-- Where the second traversal settles a resource farther from the origin than the first, it refuses
no edge of the resource for the hop bound. -/
def NoFarther (ctx ctx' : TraversalContext) (t t' : Traversal pq) : Prop :=
  ∀ e ∈ settlements ctx t, ∀ e' ∈ settlements ctx' t', e'.node = e.node → e.depth < e'.depth →
    ∀ y ∈ handled ctx' t', y.node = e.node → .maxHops ∉ refusals y.fates

/-- An edge that passes the gates under one grant can be refused under another for a budget, for
its hops, or because its target is settled. -/
theorem admits_withHops (k : UInt32) (settled' : List Nat) (expansions' fanout' : Nat)
    (e' : QueueEntry) (h : Admitted ctx settled expansions fanout e i edge j toRes)
    (hindex : ctx.topo.indexOf edge.dst = some j) :
    (ctx.withHops k).admits settled' expansions' fanout' e' i edge = .ok j ∨
    ∃ reason verdict,
      (ctx.withHops k).admits settled' expansions' fanout' e' i edge = .error (reason, verdict) ∧
      (reason = .maxFanout ∨ reason = .expansionBudgetExhausted ∨
        reason = .nodeAlreadySettled ∧ j ∈ settled' ∨
        reason = .maxHops ∧ (ctx.withHops k).hopBound edge < e'.depth + 1) := by
  have hpin : (ctx.withHops k).pinRefuses i edge = false := h.pin
  have htarget : (ctx.withHops k).topo.indexOf edge.dst = some j := hindex
  have hresource : (ctx.withHops k).topo.resourceAt j = some toRes := h.resourceAt
  have hcovers : (ctx.withHops k).signal.authority.covers edge.dst = true := h.covered
  have hingress : (ctx.withHops k).ingressFence edge.dst = none := h.ingress
  unfold TraversalContext.admits
  by_cases hfan : (ctx.withHops k).policy.maxFanout.toNat ≤ fanout'
  · rw [if_pos hfan]
    exact .inr ⟨_, _, rfl, .inl rfl⟩
  · rw [if_neg hfan]
    by_cases hexp : (ctx.withHops k).policy.maxExpansions.toNat ≤ expansions'
    · rw [if_pos hexp]
      exact .inr ⟨_, _, rfl, .inr (.inl rfl)⟩
    · rw [if_neg hexp, hpin, if_neg Bool.false_ne_true, h.attenuation, if_neg Bool.false_ne_true,
        h.pressure, if_neg Bool.false_ne_true, htarget]
      dsimp only
      rw [hresource]
      dsimp only
      rw [h.receives, if_neg (by exact nofun)]
      by_cases hset : j ∈ settled'
      · rw [if_pos hset]
        exact .inr ⟨_, _, rfl, .inr (.inr (.inl ⟨rfl, hset⟩))⟩
      · rw [if_neg hset, hcovers, if_neg (by exact nofun), hingress, if_neg (by exact nofun)]
        by_cases hhops : (ctx.withHops k).hopBound edge < e'.depth + 1
        · rw [if_pos hhops]
          exact .inr ⟨_, _, rfl, .inr (.inr (.inr ⟨rfl, hhops⟩))⟩
        · rw [if_neg hhops]
          exact .inl rfl

/-- An edge that does not amplify attenuates. -/
theorem carries_plain (hplain : edge.isAmplifying = false) : ctx.carries e edge =
    .ok ⟨e.potential.attenuated edge.attenuation, e.cumulativeGainQ16, e.amplified⟩ := by
  unfold TraversalContext.carries
  dsimp only
  rw [hplain, if_neg Bool.false_ne_true]

theorem tame_of_plain (hplain : ∀ edge ∈ ctx.topo.edges, edge.isAmplifying = false) :
    ctx.Tame e := by
  rintro edge carried ⟨i, -, hedge, -, hcarries, -⟩
  rw [carries_plain (hplain edge (List.mem_of_getElem? hedge))] at hcarries
  obtain rfl := Except.ok.inj hcarries
  exact Potential.attenuated_raw_le _ _

/-- Without damping records only the floor damps, and it lets more potential through. -/
theorem undamped_of_clear {next next' : Potential} (hclear : ctx.ledger.dampings = ∅)
    (h : ctx.damps edge next = none) (hle : next.raw ≤ next'.raw) :
    (ctx.withHops k).damps edge next' = none := by
  have hpresent : ((ctx.withHops k).ledger.damping edge.dst edge.id).present = false := by
    change (ctx.ledger.damping edge.dst edge.id).present = false
    unfold PropagationLedger.damping
    rw [hclear, AList.lookup_empty]
    rfl
  have hcool : (ctx.withHops k).coolingDown edge next' = false := by
    unfold TraversalContext.coolingDown
    simp only [hpresent, Bool.and_false, Bool.false_and]
  unfold TraversalContext.damps at h ⊢
  split at h
  · cases h
  case isFalse hfloor =>
    have hfloor' : ¬next'.raw < (ctx.withHops k).floorPotential.raw := fun hlt =>
      hfloor (Nat.lt_of_le_of_lt hle hlt)
    rw [if_neg hfloor', hcool, if_neg Bool.false_ne_true]

theorem hopBound_withHops (hmore : ctx.authorityHops ≤ (ctx.withHops k).authorityHops) :
    ctx.hopBound edge ≤ (ctx.withHops k).hopBound edge :=
  Nat.le_min.mpr ⟨Nat.min_le_left _ _, (Nat.min_le_right _ _).trans hmore⟩

/-- What is crossed from a resource under one grant is answered under more hops, if the resource is
settled with no less, and is refused no edge for its hops when it is settled farther away. -/
theorem attains_withHops {c : CrossedEdge} (hexp : Expandable ctx e res)
    (hi : c.edgeIndex ∈ ctx.topo.outEdgeIndicesAt e.node) (hpassed : c.Passed ctx settled' e)
    (hplain : c.edge.isAmplifying = false) (hclear : ctx.ledger.dampings = ∅)
    (hmore : ctx.authorityHops ≤ (ctx.withHops k).authorityHops)
    (hstopped : PropagationEngine.Unstopped (ctx.withHops k) t')
    (hanswers : Answers (ctx.withHops k) t' e' res settled expansions) (hnode : e'.node = e.node)
    (hle : e.potential.raw ≤ e'.potential.raw) (hnear : e.depth < e'.depth →
      .maxHops ∉ refusals
        ((ctx.withHops k).handledAt (e'.node :: settled) expansions e' res).fates) :
    Attains (ctx.withHops k) t' c.toIndex c.carried.next.raw := by
  obtain ⟨expansions₀, fanout₀, hadm⟩ := hpassed.admitted
  obtain ⟨toRes, hadmitted⟩ := of_admits hadm
  have hindex := indexOf_of_admits hadm
  have hcarried : c.carried.next = e.potential.attenuated c.edge.attenuation := by
    have hcarries := hpassed.carries
    rw [carries_plain hplain] at hcarries
    exact (congrArg TraversalContext.Carried.next (Except.ok.inj hcarries)).symm
  have hless : c.carried.next.raw ≤ (e'.potential.attenuated c.edge.attenuation).raw := by
    rw [hcarried, Potential.raw_attenuated, Potential.raw_attenuated]
    exact Nat.div_le_div_right (Nat.mul_le_mul_right _ hle)
  have hi' : c.edgeIndex ∈ (ctx.withHops k).topo.outEdgeIndicesAt e'.node := hnode ▸ hi
  have hedge : (ctx.withHops k).topo.edgeAt c.edgeIndex = some c.edge := hpassed.edgeAt
  have hrefusals := hstopped.2.2 _ hanswers.handled
  -- the resource is not closed
  have hopen : ¬(ctx.withHops k).authorityHops ≤ e'.depth := by
    intro hdepth
    have hclosed : (ctx.withHops k).handledAt (e'.node :: settled) expansions e' res =
        ⟨e'.node, res, (ctx.withHops k).closedFates e'.node .maxHops, false⟩ := if_pos hdepth
    have hlt := hexp.depth
    refine hnear (by omega) ?_
    rw [hclosed]
    refine List.mem_filterMap.mpr ⟨.refused c.edge .maxHops false, ?_, rfl⟩
    exact List.mem_map_of_mem (List.mem_filterMap.mpr ⟨c.edgeIndex, hi', hedge⟩)
  have hforwards : ¬(!res.canForward) = true := by
    rw [hexp.forwards]
    exact Bool.false_ne_true
  have hegress : ((ctx.withHops k).egressFence res.id).isSome = false := by
    have hnone : (ctx.withHops k).egressFence res.id = none := hexp.egress
    rw [hnone]
    rfl
  have hhandled : (ctx.withHops k).handledAt (e'.node :: settled) expansions e' res =
      ⟨e'.node, res, (ctx.withHops k).fates (e'.node :: settled) e' res
        ((ctx.withHops k).topo.outEdgeIndicesAt e'.node) expansions 0, false⟩ := by
    unfold TraversalContext.handledAt
    rw [if_neg hopen, if_neg hforwards, hegress, if_neg Bool.false_ne_true]
  obtain ⟨hresource, -, hearlier, hcrossed⟩ := hanswers
  rw [hhandled] at hrefusals hcrossed hnear
  dsimp only at hrefusals hcrossed hnear
  obtain ⟨expansions', fanout', hfate⟩ := mem_fates (e'.node :: settled) e' res expansions 0
    hi' hedge
  have hrefused : ∀ {reason verdict}, (ctx.withHops k).admits (e'.node :: settled) expansions' fanout'
      e' c.edgeIndex c.edge = .error (reason, verdict) → reason ∈ refusals
        ((ctx.withHops k).fates (e'.node :: settled) e' res
          ((ctx.withHops k).topo.outEdgeIndicesAt e'.node) expansions 0) := by
    intro reason verdict herror
    refine List.mem_filterMap.mpr ⟨_, hfate, ?_⟩
    unfold TraversalContext.fateOf
    rw [herror]
    rfl
  rcases admits_withHops k (e'.node :: settled) expansions' fanout' e' hadmitted hindex with
    hok | ⟨reason, verdict, herror, hreason⟩
  · -- the edge is crossed
    have hcarries : (ctx.withHops k).carries e' c.edge =
        .ok ⟨e'.potential.attenuated c.edge.attenuation, e'.cumulativeGainQ16, e'.amplified⟩ :=
      carries_plain hplain
    have hfate' : (ctx.withHops k).fateOf (e'.node :: settled) expansions' fanout' e' res c.edgeIndex
        c.edge = .crossed c.edge (acceptedHop e' res c.edge
          ⟨e'.potential.attenuated c.edge.attenuation, e'.cumulativeGainQ16, e'.amplified⟩) := by
      unfold TraversalContext.fateOf
      rw [hok]
      dsimp only
      rw [hcarries]
      dsimp only
      rw [undamped_of_clear hclear hpassed.undamped hless]
    rw [hfate'] at hfate
    obtain ⟨j, hj, e'', he'', hnode'', hp⟩ := hcrossed _ (List.mem_filterMap.mpr ⟨_, hfate, rfl⟩)
    obtain rfl : j = c.toIndex := Option.some.inj (hj.symm.trans hindex)
    exact ⟨e'', he'', hnode'', hless.trans hp⟩
  · rcases hreason with rfl | rfl | ⟨rfl, hset⟩ | ⟨rfl, hhops⟩
    · exact absurd rfl (hrefusals _ (hrefused herror)).2
    · exact absurd rfl (hrefusals _ (hrefused herror)).1
    · obtain ⟨e'', he'', hnode'', hp⟩ := hearlier _ hset
      exact ⟨e'', he'', hnode'', hless.trans ((Potential.attenuated_raw_le _ _).trans hp)⟩
    · have hbound : ctx.hopBound c.edge ≤ (ctx.withHops k).hopBound c.edge := hopBound_withHops hmore
      have hhops₀ := hadmitted.hops
      exact absurd (hrefused herror) (hnear (by omega))

/-- The grant of hops plays no part in how a traversal starts. -/
theorem enter_withHops (k : UInt32) (t' : Traversal pq) {s : Traversal pq} (h : t.enter ctx = .ok s) :
    ∃ s', t'.enter (ctx.withHops k) = .ok s' := by
  unfold enter at h ⊢
  split at h
  · cases h
  case h_2 i hindex =>
    have hindex' : (ctx.withHops k).topo.indexOf (ctx.withHops k).signal.origin = some i := hindex
    rw [hindex']
    dsimp only
    split at h
    · cases h
    case h_2 origin hres =>
      have hres' : (ctx.withHops k).topo.resourceAt i = some origin := hres
      rw [hres']
      dsimp only
      split at h
      · cases h
      case isFalse hseed =>
        have hseed' : ¬(ctx.withHops k).seed.isZero = true := hseed
        rw [if_neg hseed']
        dsimp only at h
        split at h
        · cases h
        case h_2 hfence =>
          have hfence' : (ctx.withHops k).ingressFence origin.id = none := hfence
          rw [hfence']
          dsimp only
          split at h
          · cases h
          case isFalse hrecv =>
            rw [if_neg hrecv]
            exact ⟨_, rfl⟩

/-- Under more hops every resource is settled with no less, as long as no budget stops the traversal
and the hops run out nowhere that it settles farther away. -/
theorem reaches_withHops (fresh : t.Fresh) (fresh' : t'.Fresh)
    (hplain : ∀ edge ∈ ctx.topo.edges, edge.isAmplifying = false) (hclear : ctx.ledger.dampings = ∅)
    (hmore : ctx.authorityHops ≤ (ctx.withHops k).authorityHops)
    (hstopped : PropagationEngine.Unstopped (ctx.withHops k) t')
    (hnear : NoFarther ctx (ctx.withHops k) t t') (he : e ∈ settlements ctx t) :
    Attains (ctx.withHops k) t' e.node e.potential.raw := by
  have htame : ∀ e ∈ settlements (ctx.withHops k) t', (ctx.withHops k).Tame e :=
    fun e _ => tame_of_plain hplain
  rcases run_settles ctx fresh with ⟨-, -, hnone⟩ | ⟨t₁, hrun⟩
  · rw [hnone] at he
    cases he
  · obtain ⟨i, origin, horigin, htoured⟩ := visits_run fresh hrun
    cases henter : t.enter ctx with
    | error done =>
      rw [settlements_of_error henter] at he
      cases he
    | ok s =>
      obtain ⟨s', henter'⟩ := enter_withHops k t' henter
      obtain ⟨i', origin', horigin', hserved⟩ := served_run fresh' hstopped henter'
      obtain rfl : i' = i := Option.some.inj (horigin'.indexOf.symm.trans horigin.indexOf)
      rw [← entries_visits] at he
      obtain ⟨x, hx, rfl⟩ := List.mem_map.mp he
      refine htoured.toTour.induction (P := fun e => Attains (ctx.withHops k) t' e.node
        e.potential.raw) ?_ ?_ (htoured.entries x hx)
      · exact hserved (originEntry (ctx.withHops k) i') (.inl rfl)
      · rintro y hy c hc settled hpassed ⟨e', he', hnode, hle⟩
        obtain ⟨res, settled', expansions, hanswers⟩ := answers fresh' hstopped htame he'
        have hlawful := htoured.lawful y hy
        have hexp := hlawful.expandable (List.ne_nil_of_mem hc)
        have hres : res = y.res := by
          have hsame := hanswers.resourceAt
          rw [hnode] at hsame
          exact Option.some.inj (hsame.symm.trans hlawful.resourceAt)
        subst hres
        refine attains_withHops hexp (hlawful.indices.subset (List.mem_map_of_mem hc)) hpassed
          (hplain c.edge (List.mem_of_getElem? hpassed.edgeAt)) hclear hmore hstopped hanswers hnode hle
          fun hlt => ?_
        exact hnear y.entry (entries_visits ▸ List.mem_map_of_mem hy) e' he' hnode hlt _
          hanswers.handled (res_handledAt.2.trans hnode)

end Traversal

namespace PropagationEngine

open Traversal

variable {pq : EntryQueue} {topo : Topology} {policy : PropagationPolicy} {ledger : PropagationLedger}
  {fences : Option FenceTable} {pins : List (Option Generation)} {liveEpoch : Epoch}
  {request : PropagationRequest} {o : PropagationOutcome} {resource : ResourceId} {now : Tick}
  {s a a' : PressureSignal} {k k' : UInt32} {l l' accepted accepted' : List PressureSignal}

/-- The outcome reports that the resource has received pressure. -/
def Receives (o : PropagationOutcome) (resource : ResourceId) : Prop :=
  ∃ n ∈ o.nodes, n.resource = resource ∧ n.received = true

/-- The resources that receive pressure are those that the live signals settle. -/
theorem receives_iff (h : Report pq topo policy ledger fences liveEpoch request pins o) :
    Receives o resource ↔ ∃ s ∈ liveSignals policy ledger request,
      ∃ e ∈ reach pq topo policy ledger fences pins request s, ∃ r,
        topo.resourceAt e.node = some r ∧ r.id = resource := by
  unfold Receives
  rw [h.nodes]
  constructor
  · rintro ⟨n, hn, rfl, hreceived⟩
    obtain ⟨i, r, x, rest, hr, harrivals, hout⟩ := outcome_received hn hreceived
    have hx : x ∈ arrivalsAt pq topo policy ledger fences pins request i := by
      rw [harrivals]
      exact List.mem_cons_self
    obtain ⟨hx, hnode⟩ := List.mem_filter.mp hx
    obtain ⟨s, hs, hx⟩ := List.mem_flatMap.mp hx
    obtain ⟨e, he, rfl⟩ := List.mem_map.mp hx
    have hnode : e.node = i := of_decide_eq_true hnode
    exact ⟨s, hs, e, he, r, hnode ▸ hr, hout.resource.symm⟩
  · rintro ⟨s, hs, e, he, r, hr, rfl⟩
    have hx : arrivalOf (traversalContext topo policy ledger fences pins request s) e ∈
        arrivalsAt pq topo policy ledger fences pins request e.node :=
      List.mem_filter.mpr ⟨List.mem_flatMap.mpr ⟨s, hs, List.mem_map_of_mem he⟩,
        decide_eq_true rfl⟩
    cases harrivals : arrivalsAt pq topo policy ledger fences pins request e.node with
    | nil =>
      rw [harrivals] at hx
      cases hx
    | cons x rest =>
      obtain ⟨n, hn, hout⟩ := exists_outcome hr harrivals
      exact ⟨n, hn, hout.resource, hout.received⟩

/-! ## Two grants of one signal -/

/-- Signals of two requests in the same place: the same, or one signal under two grants. -/
def Regranted (s : PressureSignal) (k k' : UInt32) (a a' : PressureSignal) : Prop :=
  a' = a ∨ a = s.withHops k ∧ a' = s.withHops k'

/-- The number of granted hops plays no part in what is checked, as long as it is not zero. -/
theorem validate_withHops (hk : k ≠ 0) (hk' : k' ≠ 0) :
    (s.withHops k).validate policy now = (s.withHops k').validate policy now := by
  have hauthority : (s.withHops k).authority.validate = (s.withHops k').authority.validate := by
    unfold AuthorityVector.validate PressureSignal.withHops
    simp only [hk, hk', and_false, if_false]
  unfold PressureSignal.validate
  rw [hauthority]
  rfl

theorem Regranted.source (h : Regranted s k k' a a') : a'.source = a.source := by
  rcases h with rfl | ⟨rfl, rfl⟩
  · rfl
  · rfl

theorem sources_of_regranted (h : List.Forall₂ (Regranted s k k') l l') :
    l'.map PressureSignal.source = l.map PressureSignal.source := by
  induction h with
  | nil => rfl
  | cons hfirst _ ih => rw [List.map_cons, List.map_cons, hfirst.source, ih]

theorem admitSignal_regranted (hk : k ≠ 0) (hk' : k' ≠ 0) (h : Regranted s k k' a a')
    (haccepted : List.Forall₂ (Regranted s k k') accepted accepted') :
    (admitSignal policy request accepted a).ok = (admitSignal policy request accepted' a').ok := by
  have hothers : (∀ other ∈ accepted, other.source ≠ a.source) ↔
      ∀ other ∈ accepted', other.source ≠ a'.source := by
    rw [← List.forall_mem_map (f := PressureSignal.source) (P := fun id => id ≠ a.source),
      ← List.forall_mem_map (f := PressureSignal.source) (P := fun id => id ≠ a'.source),
      sources_of_regranted haccepted, h.source]
  refine Bool.eq_iff_iff.mpr ?_
  rw [admitSignal_ok, admitSignal_ok, hothers]
  rcases h with rfl | ⟨rfl, rfl⟩
  · rfl
  · rw [validate_withHops hk hk']
    rfl

theorem acceptedAmong_regranted (hk : k ≠ 0) (hk' : k' ≠ 0)
    (h : List.Forall₂ (Regranted s k k') l l') :
    List.Forall₂ (Regranted s k k') (acceptedAmong policy request l)
      (acceptedAmong policy request l') := by
  have hfold : ∀ accepted accepted', List.Forall₂ (Regranted s k k') accepted accepted' →
      List.Forall₂ (Regranted s k k') (l.foldl (acceptNext policy request) accepted)
        (l'.foldl (acceptNext policy request) accepted') := by
    induction h with
    | nil => exact fun _ _ haccepted => haccepted
    | @cons a a' rest rest' hfirst _ ih =>
      intro accepted accepted' haccepted
      refine ih _ _ ?_
      unfold acceptNext
      rw [admitSignal_regranted hk hk' hfirst haccepted]
      split
      · exact List.rel_append haccepted (.cons hfirst .nil)
      · exact haccepted
  exact hfold [] [] .nil

theorem exists_regranted (h : List.Forall₂ (Regranted s k k') l l') (ha : a ∈ l) :
    ∃ a' ∈ l', Regranted s k k' a a' := by
  induction h with
  | nil => cases ha
  | @cons b b' rest rest' hfirst _ ih =>
    rcases List.mem_cons.mp ha with rfl | ha
    · exact ⟨b', List.mem_cons_self, hfirst⟩
    · obtain ⟨a', ha', hregranted⟩ := ih ha
      exact ⟨a', List.mem_cons_of_mem _ ha', hregranted⟩

/-- Every live signal is live under the other grant. -/
theorem live_regranted (hk : k ≠ 0) (hk' : k' ≠ 0) (h : List.Forall₂ (Regranted s k k') l l')
    (ha : a ∈ liveSignals policy ledger (withSignals request l)) :
    ∃ a' ∈ liveSignals policy ledger (withSignals request l'), Regranted s k k' a a' := by
  obtain ⟨haccepted, hlive⟩ := List.mem_filter.mp ha
  rw [accepted_withSignals] at haccepted
  obtain ⟨a', ha', hregranted⟩ := exists_regranted (acceptedAmong_regranted hk hk' h) haccepted
  refine ⟨a', List.mem_filter.mpr ⟨accepted_withSignals ▸ ha', ?_⟩, hregranted⟩
  rcases hregranted with rfl | ⟨rfl, rfl⟩
  · exact hlive
  · exact hlive

/-- The request with one of its signals under a grant of so many hops. -/
def granting (request : PropagationRequest) (before after : List PressureSignal) (s : PressureSignal)
    (k : UInt32) : PropagationRequest :=
  withSignals request (before ++ s.withHops k :: after)

/-- The traversal of the signal by itself, under a grant of so many hops. -/
def grantStart (pq : EntryQueue) (topo : Topology) (policy : PropagationPolicy)
    (ledger : PropagationLedger) (request : PropagationRequest) (before after : List PressureSignal)
    (s : PressureSignal) (k : UInt32) : Traversal pq :=
  startTraversal pq topo policy (granting request before after s k)
    (unstarted policy ledger topo (granting request before after s k)) (s.withHops k)

theorem authorityHops_mono {ctx : TraversalContext}
    (hgrant : ctx.signal.authority.maxHopsGranted = k) (hk : k ≠ 0) (hmore : k ≤ k') :
    ctx.authorityHops ≤ (ctx.withHops k').authorityHops := by
  have hgrant' : (ctx.withHops k').signal.authority.maxHopsGranted = k' := rfl
  have hk' : k' ≠ 0 := by
    rintro rfl
    exact hk (UInt32.le_antisymm hmore (UInt32.zero_le))
  have hle := UInt32.le_iff_toNat_le.mp hmore
  unfold TraversalContext.authorityHops
  rw [hgrant, hgrant', if_neg hk, if_neg hk']
  exact min_le_min hle (Nat.le_refl _)

/-- Under a grant of more hops nothing that received pressure is lost, as long as no budget stops the
traversal of the signal and the hops run out nowhere that it settles farther from its origin than
before. -/
theorem more_hops_reach (pq : EntryQueue) (topo : Topology) (policy : PropagationPolicy)
    (ledger : PropagationLedger) (fences : Option FenceTable) (liveEpoch : Epoch)
    (request : PropagationRequest) (before after : List PressureSignal) (s : PressureSignal)
    (k k' : UInt32) (hplain : ∀ edge ∈ topo.edges, edge.isAmplifying = false)
    (hclear : ledger.dampings = ∅) (hk : k ≠ 0) (hmore : k ≤ k')
    (hstopped : ∀ pins, resolvePins topo request.pins = .ok pins →
      Unstopped (traversalContext topo policy ledger fences pins request (s.withHops k'))
        (grantStart pq topo policy ledger request before after s k'))
    (hnear : ∀ pins, resolvePins topo request.pins = .ok pins →
      NoFarther (traversalContext topo policy ledger fences pins request (s.withHops k))
        (traversalContext topo policy ledger fences pins request (s.withHops k'))
        (grantStart pq topo policy ledger request before after s k)
        (grantStart pq topo policy ledger request before after s k')) (resource : ResourceId) :
    Receives (propagate pq (.of topo policy ledger fences liveEpoch)
        (granting request before after s k)).1 resource →
      Receives (propagate pq (.of topo policy ledger fences liveEpoch)
        (granting request before after s k')).1 resource := by
  intro hreceives
  have hk' : k' ≠ 0 := by
    rintro rfl
    exact hk (UInt32.le_antisymm hmore UInt32.zero_le)
  have hsignals : List.Forall₂ (Regranted s k k') (before ++ s.withHops k :: after)
      (before ++ s.withHops k' :: after) :=
    List.rel_append (List.forall₂_same.mpr fun _ _ => .inl rfl)
      (.cons (.inr ⟨rfl, rfl⟩) (List.forall₂_same.mpr fun _ _ => .inl rfl))
  rcases propagate_report pq topo policy ledger fences liveEpoch (granting request before after s k)
    with ⟨hsilent, -⟩ | ⟨pins, hreport⟩
  · obtain ⟨n, hn, -⟩ := hreceives
    rw [hsilent.nodes] at hn
    cases hn
  · have hgranted := hreport.ready
    have hready : Ready topo policy liveEpoch pins (granting request before after s k') := by
      have hsources : (before ++ s.withHops k :: after).length ≤ policy.maxSources.toNat :=
        hgranted.sources
      have haccepted := hgranted.accepted
      unfold granting at haccepted
      rw [accepted_withSignals] at haccepted
      have hkept : acceptedAmong policy request (before ++ s.withHops k' :: after) ≠ [] := by
        have hlength := (@acceptedAmong_regranted policy request s k k' _ _ hk hk' hsignals).length_eq
        intro hnil
        rw [hnil, List.length_nil] at hlength
        exact haccepted (List.length_eq_zero_iff.mp hlength)
      have hready := ready_withSignals hgranted (hsignals.length_eq ▸ hsources)
        (l := before ++ s.withHops k' :: after) hkept
      exact hready
    have hreport' := report_of_ready pq ledger fences hready
    have hpins : resolvePins topo request.pins = .ok pins := hreport.ready.pins
    obtain ⟨a, ha, e, he, r, hr, hid⟩ := (receives_iff hreport).mp hreceives
    obtain ⟨a', ha', hregranted⟩ := live_regranted hk hk' hsignals ha
    refine (receives_iff hreport').mpr ⟨a', ha', ?_⟩
    rcases hregranted with rfl | ⟨rfl, rfl⟩
    · -- another signal settles what it settled before
      refine ⟨e, ?_, r, hr, hid⟩
      have hsame := @settlements_startTraversal pq topo policy ledger fences pins
        (granting request before after s k') a'
        (unstarted policy ledger topo (granting request before after s k))
      exact hsame ▸ he
    · have hhops : (traversalContext topo policy ledger fences pins request
            (s.withHops k)).authorityHops ≤ ((traversalContext topo policy ledger fences pins request
            (s.withHops k)).withHops k').authorityHops :=
        authorityHops_mono rfl hk hmore
      obtain ⟨e', he', hnode, -⟩ := reaches_withHops startTraversal_fresh startTraversal_fresh hplain
        hclear hhops (hstopped pins hpins) (hnear pins hpins) he
      exact ⟨e', he', r, hnode ▸ hr, hid⟩

/-- A shortcut that carries half leads from resource 7 to resource 8, and so does a longer way that
carries everything. -/
def detourTopology : Topology :=
  probeTopology ([7, 8, 9, 10, 11].map fun id => probeResource ⟨id⟩)
    [{ probeEdge ⟨1⟩ ⟨7⟩ ⟨8⟩ with attenuation := .fromRawSaturating 32768 }, probeEdge ⟨2⟩ ⟨7⟩ ⟨9⟩,
      probeEdge ⟨3⟩ ⟨9⟩ ⟨10⟩, probeEdge ⟨4⟩ ⟨10⟩ ⟨8⟩, probeEdge ⟨5⟩ ⟨8⟩ ⟨11⟩]

def detourRequest : PropagationRequest := probeRequest probePolicy detourTopology ⟨7⟩ 5

def detourSignal : PressureSignal := probeSignal probePolicy detourTopology ⟨7⟩ 5

/-- One hop reaches resource 8; with four hops it is reached the longer way, and resource 11 still
lies within the grant. -/
theorem more_hops_detour :
    Receives (propagate .scan (.of detourTopology probePolicy (.make 4 4 4) none probeEpoch)
      (granting detourRequest [] [] detourSignal 4)).1 ⟨8⟩ := by
  have hpins : resolvePins detourTopology detourRequest.pins =
      .ok [none, none, none, none, none] := by decide +kernel
  refine more_hops_reach .scan detourTopology probePolicy (.make 4 4 4) none probeEpoch detourRequest
    [] [] detourSignal 1 4 (by decide +kernel) rfl (by decide) (by decide)
    ?_ ?_ ⟨8⟩ (by unfold Receives; decide +kernel)
  · intro pins h
    obtain rfl := Except.ok.inj (hpins.symm.trans h)
    exact ⟨by decide +kernel, by decide +kernel, by decide +kernel⟩
  · intro pins h
    obtain rfl := Except.ok.inj (hpins.symm.trans h)
    unfold NoFarther
    decide +kernel

/-- With two hops the pressure reaches resource 11 over the shortcut; with three it takes the longer
way to resource 8, and ends there. -/
theorem more_hops_lose :
    ¬∀ (pq : EntryQueue) (topo : Topology) (policy : PropagationPolicy) (ledger : PropagationLedger)
      (fences : Option FenceTable) (liveEpoch : Epoch) (request : PropagationRequest)
      (before after : List PressureSignal) (s : PressureSignal) (k k' : UInt32), topo.Built →
      policy.validate.ok = true → (∀ edge ∈ topo.edges, edge.isAmplifying = false) →
      ledger.dampings = ∅ → k ≠ 0 → k ≤ k' →
      (∀ pins, resolvePins topo request.pins = .ok pins → ∀ grant, grant = k ∨ grant = k' →
        Unstopped (traversalContext topo policy ledger fences pins request (s.withHops grant))
          (grantStart pq topo policy ledger request before after s grant)) →
      ∀ resource,
        Receives (propagate pq (.of topo policy ledger fences liveEpoch)
          (granting request before after s k)).1 resource →
        Receives (propagate pq (.of topo policy ledger fences liveEpoch)
          (granting request before after s k')).1 resource := by
  intro h
  have hbuilt : detourTopology.Built := built_probeTopology (by decide +kernel)
  have hpins : resolvePins detourTopology detourRequest.pins =
      .ok [none, none, none, none, none] := by decide +kernel
  have hlost := h .scan detourTopology probePolicy (.make 4 4 4) none probeEpoch detourRequest [] []
    detourSignal 2 3 hbuilt (by decide +kernel) (by decide +kernel) rfl
    (by decide) (by decide) ?_ ⟨11⟩ (by unfold Receives; decide +kernel)
  · revert hlost
    unfold Receives
    decide +kernel
  · rintro pins h grant (rfl | rfl)
    · obtain rfl := Except.ok.inj (hpins.symm.trans h)
      exact ⟨by decide +kernel, by decide +kernel, by decide +kernel⟩
    · obtain rfl := Except.ok.inj (hpins.symm.trans h)
      exact ⟨by decide +kernel, by decide +kernel, by decide +kernel⟩

end PropagationEngine

end Backpressure
