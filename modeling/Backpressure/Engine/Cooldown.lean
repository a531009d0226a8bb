import Backpressure.Engine.Accounts
import Backpressure.Engine.Budget
import Backpressure.Lib.Spaced

/-!
# Cooldown over whole runs

The damping records remember the last crossing of every edge. The gate reads the records, so it
keeps the crossings of one edge apart over whole runs of committed calls.
-/

namespace Backpressure

/-- An accepted hop of a call. -/
structure Crossing where
  tick : Tick
  hop : HopRecord

namespace Crossing

def key (x : Crossing) : EdgeTargetKey := ⟨x.hop.dst, x.hop.edge⟩

def magnitude (x : Crossing) : Magnitude := x.hop.potentialAfter.toMagnitude

/-- What the damping ledger keeps of the crossing. -/
def record (x : Crossing) : DampingRecord := ⟨x.magnitude, x.tick, true⟩

/-- The crossings that share a key of the damping ledger. -/
def under (key : EdgeTargetKey) (l : List Crossing) : List Crossing := l.filter fun x => x.key = key

/-- The crossings of one edge. -/
def along (edge : EdgeId) (l : List Crossing) : List Crossing := l.filter fun x => x.hop.edge = edge

/-- The accepted hops of an explanation. -/
def ofHops (now : Tick) (hops : List HopRecord) : List Crossing :=
  (hops.filter HopRecord.accepted).map fun hop => ⟨now, hop⟩

end Crossing

/-! ## What the ledger remembers -/

namespace PropagationLedger

variable {base ledger ledger' : PropagationLedger} {l : List Crossing} {x : Crossing}

/-- The records are those of the last crossings where there are any, and the former ones
elsewhere. -/
def Follows (base ledger : PropagationLedger) (l : List Crossing) : Prop :=
  ∀ key, ledger.dampings.lookup key =
    ((Crossing.under key l).getLast?.map Crossing.record).or (base.dampings.lookup key)

/-- The damping records are those of the last crossings. -/
def Remembers (ledger : PropagationLedger) (l : List Crossing) : Prop :=
  ∀ key, ledger.dampings.lookup key = (Crossing.under key l).getLast?.map Crossing.record

theorem Follows.congr (h : Follows base ledger l) (hsame : ledger'.dampings = ledger.dampings) :
    Follows base ledger' l := fun key => by rw [hsame, h key]

/-- A ledger remembers the crossings when it follows them from no records. -/
theorem remembers_iff_follows (hempty : base.dampings = ∅) :
    ledger.Remembers l ↔ Follows base ledger l := by
  unfold Remembers Follows
  simp only [hempty, AList.lookup_empty, Option.or_none]

theorem dampingRejections_recordDamping {target : ResourceId} {edge : EdgeId} {m : Magnitude}
    {tick : Tick} : (ledger.recordDamping target edge m tick).2.dampingRejections =
      ledger.dampingRejections +
        if (ledger.recordDamping target edge m tick).1.ok then 0 else 1 := by
  unfold recordDamping
  dsimp only
  split <;> rfl

theorem Follows.refl : Follows ledger ledger [] := fun _ => rfl

theorem Follows.record (h : Follows base ledger l)
    (hok : (ledger.recordDamping x.hop.dst x.hop.edge x.magnitude x.tick).1.ok = true) :
    Follows base (ledger.recordDamping x.hop.dst x.hop.edge x.magnitude x.tick).2 (l ++ [x]) := by
  intro key
  unfold Crossing.under
  rw [List.filter_append]
  by_cases hkey : x.key = key
  · rw [List.filter_cons_of_pos (by simpa using hkey), List.filter_nil, List.getLast?_concat]
    unfold recordDamping at hok ⊢
    dsimp only at hok ⊢
    split
    case isTrue hfull =>
      rw [if_pos hfull] at hok
      cases hok
    case isFalse =>
      rw [← hkey]
      exact AList.lookup_insert _
  · rw [List.filter_cons_of_neg (by simpa using hkey), List.filter_nil, List.append_nil,
      lookup_recordDamping fun hsame => hkey hsame.symm]
    exact h key

end PropagationLedger

namespace PropagationEngine

open PropagationLedger

variable {pq : EntryQueue} {topo : Topology} {policy : PropagationPolicy}
  {base ledger ledger' : PropagationLedger} {l : List Crossing} {now : Tick} {c : Call}

theorem dampingRejections_commitHops {hops : List HopRecord} :
    ledger.dampingRejections ≤ (commitHops now hops ledger).dampingRejections := by
  induction hops generalizing ledger with
  | nil => exact Nat.le_refl _
  | cons hop rest ih =>
    rw [commitHops]
    split
    · exact ih
    · have hrecord := @dampingRejections_recordDamping ledger hop.dst hop.edge
        hop.potentialAfter.toMagnitude now
      dsimp only
      split
      · exact (hrecord ▸ Nat.le_add_right _ _).trans ih
      · exact hrecord ▸ Nat.le_add_right _ _

theorem Follows.commitHops {hops : List HopRecord} (h : Follows base ledger l)
    (hroom : (commitHops now hops ledger).dampingRejections = ledger.dampingRejections) :
    Follows base (PropagationEngine.commitHops now hops ledger) (l ++ Crossing.ofHops now hops) := by
  induction hops generalizing ledger l with
  | nil =>
    rw [Crossing.ofHops, List.filter_nil, List.map_nil, List.append_nil]
    exact h
  | cons hop rest ih =>
    rw [PropagationEngine.commitHops] at hroom ⊢
    unfold Crossing.ofHops at ih ⊢
    by_cases haccepted : hop.accepted = true
    · have hrecord := @dampingRejections_recordDamping ledger hop.dst hop.edge
        hop.potentialAfter.toMagnitude now
      have hmono := @dampingRejections_commitHops
        (ledger.recordDamping hop.dst hop.edge hop.potentialAfter.toMagnitude now).2 now rest
      rw [if_neg (by simp [haccepted])] at hroom ⊢
      rw [List.filter_cons_of_pos haccepted, List.map_cons, List.append_cons]
      dsimp only at hroom ⊢
      split
      case isTrue hok =>
        rw [if_pos hok] at hroom hrecord
        exact ih (Follows.record (x := ⟨now, hop⟩) h hok) (hroom.trans hrecord.symm)
      case isFalse hfull =>
        rw [if_neg hfull] at hroom hrecord
        omega
    · rw [if_pos (by simpa using haccepted)] at hroom ⊢
      rw [List.filter_cons_of_neg haccepted]
      exact ih h hroom

theorem dampingRejections_commitDamping {explanations : List PropagationExplanation} :
    ledger.dampingRejections ≤ (commitDamping now explanations ledger).dampingRejections := by
  unfold commitDamping
  exact List.foldlRecOn (motive := fun ledger' : PropagationLedger =>
    ledger.dampingRejections ≤ ledger'.dampingRejections) _ _ (Nat.le_refl _)
    fun ledger' hle e _ => hle.trans dampingRejections_commitHops

theorem Follows.commitDamping {explanations : List PropagationExplanation}
    (h : Follows base ledger l)
    (hroom : (commitDamping now explanations ledger).dampingRejections = ledger.dampingRejections) :
    Follows base (PropagationEngine.commitDamping now explanations ledger)
      (l ++ explanations.flatMap fun e => Crossing.ofHops now e.hops) := by
  induction explanations generalizing ledger l with
  | nil =>
    rw [List.flatMap_nil, List.append_nil]
    exact h
  | cons e rest ih =>
    have hfirst := @dampingRejections_commitHops ledger now e.hops
    have hrest := @dampingRejections_commitDamping (PropagationEngine.commitHops now e.hops ledger)
      now rest
    have hstep : PropagationEngine.commitDamping now (e :: rest) ledger =
        PropagationEngine.commitDamping now rest
          (PropagationEngine.commitHops now e.hops ledger) := rfl
    rw [hstep] at hroom ⊢
    rw [List.flatMap_cons, ← List.append_assoc]
    exact ih (Follows.commitHops h (by omega)) (by omega)

end PropagationEngine

/-! ## The gate -/

/-- The last crossing of the edge is less than its cooldown ago, and what the edge would carry now
does not exceed it by more than the hysteresis. -/
structure HeldBack (policy : PropagationPolicy) (now : Tick) (edge : DependencyEdge)
    (offered : Potential) (last : Crossing) : Prop where
  recent : now.toNat < last.tick.toNat + (policy.effectiveCooldown edge.cooldownTicks).toNat
  weak : offered.toMagnitude.raw ≤ last.magnitude.raw + policy.hysteresisDelta.raw

section Gate

variable {ctx : TraversalContext} {edge : DependencyEdge} {next : Potential} {l : List Crossing}
  {last : Crossing}

/-- The gate refuses by the last crossing that the ledger remembers. -/
theorem heldBack_of_coolingDown (hmemory : ctx.ledger.Remembers l)
    (hticks : ∀ x ∈ l, x.tick.toNat ≤ ctx.now.toNat) (h : ctx.coolingDown edge next = true) :
    ∃ last, (Crossing.under ⟨edge.dst, edge.id⟩ l).getLast? = some last ∧
      HeldBack ctx.policy ctx.now edge next last := by
  unfold TraversalContext.coolingDown PropagationLedger.damping at h
  rw [hmemory] at h
  cases hlast : (Crossing.under ⟨edge.dst, edge.id⟩ l).getLast? with
  | none => simp [hlast] at h
  | some last =>
    have hmem : last ∈ l := (List.mem_filter.mp (List.mem_of_getLast? hlast)).1
    have htick := hticks last hmem
    simp only [hlast, Option.map_some, Option.getD_some, Crossing.record, Bool.and_eq_true,
      decide_eq_true_eq] at h
    obtain ⟨⟨-, hnear⟩, hweak⟩ := h
    refine ⟨last, rfl, ?_, ?_⟩
    · split at hnear
      case isTrue hlt =>
        rw [UInt64.lt_iff_toNat_lt, UInt64.toNat_sub_of_le _ _ (UInt64.le_iff_toNat_le.mpr htick)]
          at hnear
        omega
      case isFalse hge =>
        rw [UInt64.lt_iff_toNat_lt] at hnear hge
        have hzero : (0 : UInt64).toNat = 0 := rfl
        omega
    · unfold Q16.fromRawSaturating at hweak
      dsimp only at hweak
      omega

/-- Whatever passes the gate soon after the last crossing exceeds it by more than the
hysteresis. -/
theorem outgrows_of_undamped (hmemory : ctx.ledger.Remembers l) (h : ctx.damps edge next = none)
    (hlast : (Crossing.under ⟨edge.dst, edge.id⟩ l).getLast? = some last)
    (htick : last.tick.toNat ≤ ctx.now.toNat)
    (hnear : ctx.now.toNat <
      last.tick.toNat + (ctx.policy.effectiveCooldown edge.cooldownTicks).toNat) :
    last.magnitude.raw + ctx.policy.hysteresisDelta.raw < next.toMagnitude.raw := by
  have hopen : ctx.coolingDown edge next = false := by
    unfold TraversalContext.damps at h
    split at h
    · cases h
    · split at h
      · cases h
      case isFalse hcool => simpa using hcool
  unfold TraversalContext.coolingDown PropagationLedger.damping at hopen
  rw [hmemory, hlast] at hopen
  simp only [Option.map_some, Option.getD_some, Crossing.record, Bool.and_eq_false_imp,
    Bool.and_eq_true, decide_eq_true_eq] at hopen
  have hpositive : 0 < ctx.policy.effectiveCooldown edge.cooldownTicks := by
    rw [UInt64.lt_iff_toNat_lt]
    have hzero : (0 : UInt64).toNat = 0 := rfl
    omega
  have helapsed : (if last.tick < ctx.now then ctx.now - last.tick else 0) <
      ctx.policy.effectiveCooldown edge.cooldownTicks := by
    split
    · rw [UInt64.lt_iff_toNat_lt, UInt64.toNat_sub_of_le _ _ (UInt64.le_iff_toNat_le.mpr htick)]
      omega
    · exact hpositive
  have hgrown := of_decide_eq_false (hopen ⟨⟨hpositive, trivial⟩, decide_eq_true helapsed⟩)
  have hmax := next.toMagnitude.le_one
  unfold Q16.fromRawSaturating at hgrown
  dsimp only at hgrown
  omega

end Gate

/-! ## Refusals by the gate -/

namespace Traversal

variable {pq : EntryQueue} {ctx : TraversalContext} {t : Traversal pq} {x : Handled}
  {edge : DependencyEdge} {counted : Bool} {entry : QueueEntry} {res : Resource} {node : Nat}
  {settled l : List Nat} {expansions fanout : Nat} {reason : SuppressionReason}

/-- The gate refuses what the edge would carry from the entry. -/
def Cools (ctx : TraversalContext) (entry : QueueEntry) (edge : DependencyEdge) : Prop :=
  ∃ carried, ctx.carries entry edge = .ok carried ∧ ctx.coolingDown edge carried.next = true

theorem cools_of_fateOf {i : Nat} {edge' : DependencyEdge}
    (h : ctx.fateOf settled expansions fanout entry res i edge =
      .refused edge' .hysteresisNotExceeded counted) : edge' = edge ∧ Cools ctx entry edge := by
  unfold TraversalContext.fateOf at h
  split at h
  case h_1 hadm =>
    cases h
    exact absurd rfl (early_admits _ _ hadm).2
  · split at h
    case h_1 hcar =>
      cases h
      exact absurd rfl (early_carries hcar).2
    case h_2 carried hcar =>
      split at h
      case h_2 => cases h
      case h_1 hdamp =>
        cases h
        refine ⟨rfl, carried, hcar, ?_⟩
        unfold TraversalContext.damps at hdamp
        split at hdamp
        · cases hdamp
        · split at hdamp
          case isTrue hcool => exact hcool
          case isFalse => cases hdamp

theorem cools_of_fates
    (h : .refused edge .hysteresisNotExceeded counted ∈
      ctx.fates settled entry res l expansions fanout) : Cools ctx entry edge := by
  obtain ⟨_, _, -, _, _, hfate⟩ := ctx.fateOf_of_refused h
  obtain ⟨rfl, hcools⟩ := cools_of_fateOf hfate
  exact hcools

/-- Only a settled resource has edges that the gate refuses. -/
theorem cools_of_handled (hx : x ∈ handled ctx t)
    (h : .refused edge .hysteresisNotExceeded counted ∈ x.fates) :
    ∃ entry ∈ settlements ctx t, entry.node = x.node ∧
      ctx.topo.resourceAt entry.node = some x.res ∧
      ∀ edge counted, .refused edge .hysteresisNotExceeded counted ∈ x.fates →
        Cools ctx entry edge := by
  rcases handled_cases hx with hblocked | ⟨entry, hentry, res, hres, settled, expansions, rfl⟩
  · obtain ⟨-, -, reason, hearly, hfates⟩ := blockedOrigin_cases hblocked
    rw [hfates] at h
    exact absurd (ctx.reason_of_closedFates h).symm hearly.2
  · obtain ⟨hres', hnode⟩ := @res_handledAt ctx settled expansions entry res
    refine ⟨entry, hentry, hnode.symm, by rw [hres']; exact hres, fun edge counted hmem => ?_⟩
    exact cools_of_fates (ctx.fates_of_handledAt hmem (by decide))

theorem edges_fates : (ctx.fates settled entry res l expansions fanout).map Fate.edge =
    l.filterMap ctx.topo.edgeAt := by
  induction l generalizing expansions fanout with
  | nil => rfl
  | cons i rest ih =>
    rw [TraversalContext.fates, List.filterMap_cons]
    cases hedge : ctx.topo.edgeAt i with
    | none => exact ih
    | some edge =>
      dsimp only
      have hsame : (ctx.fateOf settled expansions fanout entry res i edge).edge = edge := by
        unfold TraversalContext.fateOf
        split
        · rfl
        · split
          · rfl
          · split <;> rfl
      split
      case h_1 hfate =>
        rw [hfate] at hsame
        rw [List.map_cons, ih]
        exact congrArg (· :: _) hsame
      case h_2 hfate =>
        rw [hfate] at hsame
        rw [List.map_cons, ih]
        exact congrArg (· :: _) hsame

theorem edges_closedFates : (ctx.closedFates node reason).map Fate.edge =
    (ctx.topo.outEdgeIndicesAt node).filterMap ctx.topo.edgeAt := by
  unfold TraversalContext.closedFates
  rw [List.map_map]
  exact List.map_id _

/-- The decisions over a resource are about its out-edges, in order. -/
theorem edges_handled (hx : x ∈ handled ctx t) : x.fates.map Fate.edge =
    (ctx.topo.outEdgeIndicesAt x.node).filterMap ctx.topo.edgeAt := by
  rcases handled_cases hx with hblocked | ⟨entry, -, res, -, settled, expansions, rfl⟩
  · obtain ⟨-, -, reason, -, hfates⟩ := blockedOrigin_cases hblocked
    rw [hfates]
    exact edges_closedFates
  · rw [res_handledAt.2]
    unfold TraversalContext.handledAt
    split
    · exact edges_closedFates
    · split
      · exact edges_closedFates
      · split
        · exact edges_closedFates
        · exact edges_fates

end Traversal

/-! ## Committed calls -/

namespace PropagationEngine

open PropagationLedger Traversal

variable {pq : EntryQueue} {topo : Topology} {policy : PropagationPolicy}
  {ledger ledger' : PropagationLedger} {fences : Option FenceTable} {pins : List (Option Generation)}
  {request : PropagationRequest} {s : PressureSignal} {l : List Crossing} {now : Tick} {c : Call}

/-- The accepted hops that a call reports. -/
def Call.crossings (pq : EntryQueue) (ledger : PropagationLedger) (c : Call) : List Crossing :=
  (c.outcome pq ledger).explanations.flatMap fun e => Crossing.ofHops c.request.now e.hops

/-- The accepted hops that a run of calls reports, in order. -/
def crossingsOf (pq : EntryQueue) : PropagationLedger → List Call → List Crossing
  | _, [] => []
  | ledger, c :: rest => c.crossings pq ledger ++ crossingsOf pq (c.after pq ledger) rest

/-- A committed and complete call with one signal; every crossing finds room in the damping
ledger. -/
structure Steady (pq : EntryQueue) (topo : Topology) (policy : PropagationPolicy)
    (ledger : PropagationLedger) (c : Call) : Prop where
  topology : c.topology = some topo
  policy : c.policy = some policy
  single : ∃ s, c.request.signals = [s]
  committed : c.request.dryRun = false
  ok : (c.outcome pq ledger).status.ok = true
  complete : (c.outcome pq ledger).complete = true
  room : (c.after pq ledger).dampingRejections = ledger.dampingRejections

/-- A run of such calls. -/
def SteadyRun (pq : EntryQueue) (topo : Topology) (policy : PropagationPolicy) :
    PropagationLedger → List Call → Prop
  | _, [] => True
  | ledger, c :: rest =>
    Steady pq topo policy ledger c ∧ SteadyRun pq topo policy (c.after pq ledger) rest

theorem dampingRejections_commitApplications {nodes : List NodeOutcome} :
    (commitApplications now nodes ledger).2.dampingRejections = ledger.dampingRejections := by
  have hrecord : ∀ (ledger : PropagationLedger) (source : SourceId) (resource : ResourceId)
      (m : Magnitude), (ledger.recordApplication source resource m now).2.dampingRejections =
        ledger.dampingRejections := by
    intro ledger source resource m
    unfold recordApplication
    dsimp only
    split <;> rfl
  induction nodes generalizing ledger with
  | nil => rfl
  | cons n rest ih =>
    rw [commitApplications]
    split
    · exact ih
    · dsimp only
      split
      · exact ih.trans (hrecord _ _ _ _)
      · exact hrecord _ _ _ _

/-- A committed call has passed the checks, and has written what it reports. -/
theorem written_call (htopo : c.topology = some topo) (hpolicy : c.policy = some policy)
    (hcommitted : c.request.dryRun = false) (hok : (c.outcome pq ledger).status.ok = true)
    (hcomplete : (c.outcome pq ledger).complete = true) : ∃ pins,
    Ready topo policy c.liveEpoch pins c.request ∧
    (c.outcome pq ledger).explanations =
      (progress pq topo policy ledger c.fences pins c.request).explanations ∧
    (progress pq topo policy ledger c.fences pins c.request).truncated = false ∧
    c.after pq ledger = PropagationEngine.committed pq topo policy ledger c.fences pins c.request := by
  by_cases hready : ∃ pins, Ready topo policy c.liveEpoch pins c.request
  · obtain ⟨pins, hready⟩ := hready
    have hreport := @report_call pq topo policy ledger pins c htopo hpolicy hready
    obtain ⟨-, hafter, -⟩ := committed_call htopo hpolicy hready.pins hcommitted hok hcomplete
    exact ⟨pins, hready, hreport.explanations, hreport.untruncated hcomplete, hafter⟩
  · obtain ⟨hsilent, -⟩ := @unready_call pq topo policy ledger c htopo hpolicy
      fun pins hpins => hready ⟨pins, hpins⟩
    exact absurd (hok.symm.trans hsilent.status) (by decide)

theorem Steady.written (h : Steady pq topo policy ledger c) : ∃ pins,
    Ready topo policy c.liveEpoch pins c.request ∧
    (c.outcome pq ledger).explanations =
      (progress pq topo policy ledger c.fences pins c.request).explanations ∧
    (progress pq topo policy ledger c.fences pins c.request).truncated = false ∧
    c.after pq ledger = PropagationEngine.committed pq topo policy ledger c.fences pins c.request :=
  written_call h.topology h.policy h.committed h.ok h.complete

/-- After a steady call the ledger remembers its crossings too. -/
theorem Steady.remembers (h : Steady pq topo policy ledger c) (hmemory : ledger.Remembers l) :
    (c.after pq ledger).Remembers (l ++ c.crossings pq ledger) := by
  obtain ⟨pins, -, hexplanations, -, hafter⟩ := h.written
  have hroom := h.room
  unfold Call.crossings
  rw [hafter] at hroom ⊢
  rw [hexplanations]
  unfold PropagationEngine.committed at hroom ⊢
  dsimp only at hroom ⊢
  have hempty : ledger.clear.dampings = ∅ := rfl
  rw [remembers_iff_follows hempty] at hmemory ⊢
  refine Follows.commitDamping (hmemory.congr ?_) (hroom.trans ?_)
  · exact dampings_commitApplications.trans (dampings_markLineages _ _)
  · rw [dampingRejections_commitApplications, markLineages_eq]
    rfl

theorem crossingsOf_append {before after : List Call} : crossingsOf pq ledger (before ++ after) =
    crossingsOf pq ledger before ++ crossingsOf pq (ledgerAfter pq ledger before) after := by
  induction before generalizing ledger with
  | nil => rfl
  | cons c rest ih =>
    rw [List.cons_append, crossingsOf, crossingsOf, ih, List.append_assoc]
    rfl

theorem SteadyRun.split {before after : List Call}
    (h : SteadyRun pq topo policy ledger (before ++ after)) :
    SteadyRun pq topo policy ledger before ∧
      SteadyRun pq topo policy (ledgerAfter pq ledger before) after := by
  induction before generalizing ledger with
  | nil => exact ⟨trivial, h⟩
  | cons c rest ih =>
    obtain ⟨hrest, hafter⟩ := ih h.2
    exact ⟨⟨h.1, hrest⟩, hafter⟩

/-- The ledger remembers the crossings of a run. -/
theorem remembers_run {calls : List Call} (h : SteadyRun pq topo policy ledger calls)
    (hmemory : ledger.Remembers l) :
    (ledgerAfter pq ledger calls).Remembers (l ++ crossingsOf pq ledger calls) := by
  induction calls generalizing ledger l with
  | nil =>
    rw [crossingsOf, List.append_nil]
    exact hmemory
  | cons c rest ih =>
    rw [crossingsOf, ← List.append_assoc]
    exact ih h.2 (h.1.remembers hmemory)

/-! ## The crossings of one call -/

theorem accepted_of_single (hsingle : request.signals = [s])
    (hsome : (admission policy request).accepted ≠ []) :
    (admission policy request).accepted = [s] := by
  rw [accepted_admission, hsingle] at hsome ⊢
  unfold acceptedAmong at hsome ⊢
  rw [List.foldl_cons, List.foldl_nil, acceptNext] at hsome ⊢
  split
  · rfl
  case isFalse hrefused =>
    rw [if_neg hrefused] at hsome
    exact absurd rfl hsome

/-- Every accepted signal has at most one explanation. -/
theorem length_explanations : (progress pq topo policy ledger fences pins request).explanations.length ≤
    (admission policy request).accepted.length := by
  have hall : ∀ (l : List PressureSignal) (p : Progress),
      (l.foldl (traverse pq topo policy ledger fences pins request) p).explanations.length ≤
        p.explanations.length + l.length := by
    intro l
    induction l with
    | nil => exact fun p => Nat.le_refl _
    | cons s rest ih =>
      intro p
      have hleft := traverse_left (p := p) (s := s) (Prod.mk.eta (p :=
        (startTraversal pq topo policy request p s).run
          (traversalContext topo policy ledger fences pins request s))).symm
      have hgrown : (traverse pq topo policy ledger fences pins request p s).explanations.length ≤
          p.explanations.length + 1 := by
        rw [hleft.explanations, List.length_append]
        split <;> simp
      have hrest := ih (traverse pq topo policy ledger fences pins request p s)
      rw [List.foldl_cons, List.length_cons]
      omega
  have hparts := List.length_eq_length_filter_add (l := (admission policy request).accepted)
    (isLive ledger)
  have hprogress := hall (liveSignals policy ledger request) (unstarted policy ledger topo request)
  rw [← @progress_eq pq topo policy ledger fences pins request] at hprogress
  have hreplays : (unstarted policy ledger topo request).explanations.length =
      ((admission policy request).accepted.filter fun s => !isLive ledger s).length :=
    List.length_map _
  unfold liveSignals at hprogress
  omega

/-- A crossing of an edge that the damping gate has let through. -/
structure Gated (topo : Topology) (policy : PropagationPolicy) (ledger : PropagationLedger)
    (edge : DependencyEdge) (x : Crossing) : Prop where
  mem : edge ∈ topo.edges
  id : x.hop.edge = edge.id
  dst : x.hop.dst = edge.dst
  undamped : ∃ ctx : TraversalContext, ctx.policy = policy ∧ ctx.ledger = ledger ∧ ctx.now = x.tick ∧
    ctx.damps edge x.hop.potentialAfter = none

section Sole

variable {u : Traversal pq}

/-- The damping gate has let every accepted hop of a traversal through. -/
theorem gated_hops
    (hrun : aloneTraversal pq topo policy ledger fences pins request s = (.success, u)) :
    ∀ hop ∈ u.expl.hops, ∃ edge, Gated topo policy ledger edge ⟨request.now, hop⟩ := by
  obtain ⟨i, origin, xs, -, -, htoured⟩ := toured_run startTraversal_fresh hrun
  intro hop hhop
  rw [htoured.hops] at hhop
  obtain ⟨x, hx, hhop⟩ := List.mem_flatMap.mp hhop
  obtain ⟨crossed, hcrossed, rfl⟩ := List.mem_map.mp hhop
  obtain ⟨settled, -, hpassed⟩ := (htoured.lawful x hx).passed crossed hcrossed
  exact ⟨crossed.edge, List.mem_of_getElem? hpassed.edgeAt, rfl, rfl, _, rfl, rfl, rfl,
    hpassed.undamped⟩

/-- A traversal crosses each edge at most once. -/
theorem nodup_hops (hbuilt : topo.Built) (hids : (topo.edges.map DependencyEdge.id).Nodup)
    (hrun : aloneTraversal pq topo policy ledger fences pins request s = (.success, u)) :
    (u.expl.hops.map HopRecord.edge).Nodup := by
  have hindexed := Topology.indexed_of_built hbuilt
  obtain ⟨i, origin, xs, -, -, htoured⟩ := toured_run startTraversal_fresh hrun
  have hnodup := htoured.nodup_crossings hindexed
  have hreports := htoured.reports hindexed
  revert hnodup hreports
  generalize crossings xs = edges
  generalize u.expl.hops = hops
  intro hnodup hreports
  have hsame : hops.map (fun hop => some hop.edge) =
      edges.map fun e => (topo.edges.map DependencyEdge.id)[e]? := by
    clear hnodup
    induction hreports with
    | nil => rfl
    | @cons e hop edges hops hhead _ ih =>
      obtain ⟨edge, hedge, hid, -⟩ := hhead.edge
      have hat : (topo.edges.map DependencyEdge.id)[e]? = some edge.id := by
        rw [List.getElem?_map]
        exact congrArg (Option.map DependencyEdge.id) hedge
      rw [List.map_cons, List.map_cons, ih, hat, hid]
  have hinside : ∀ e ∈ edges, e < (topo.edges.map DependencyEdge.id).length := by
    intro e he
    have hmem : (topo.edges.map DependencyEdge.id)[e]? ∈ hops.map fun hop => some hop.edge := by
      rw [hsame]
      exact List.mem_map_of_mem he
    obtain ⟨hop, -, hhop⟩ := List.mem_map.mp hmem
    exact (List.getElem?_eq_some_iff.mp hhop.symm).1
  have hkeys : (hops.map fun hop => some hop.edge).Nodup := by
    rw [hsame]
    refine hnodup.map_on fun e he e' he' heq => ?_
    exact (List.getElem?_inj (hinside e he) hids).mp heq
  have hsome : (hops.map HopRecord.edge).map some = hops.map fun hop => some hop.edge := by
    rw [List.map_map]
    rfl
  rw [← hsome] at hkeys
  exact hkeys.of_map

/-- A steady call reports the accepted hops of one traversal, if any. -/
theorem Steady.sole (h : Steady pq topo policy ledger c) : ∃ hops,
    c.crossings pq ledger = Crossing.ofHops c.request.now hops ∧
    (hops = [] ∨ ∃ pins s u,
      aloneTraversal pq topo policy ledger c.fences pins c.request s = (.success, u) ∧
        hops = u.expl.hops) := by
  obtain ⟨pins, hready, hexplanations, -⟩ := h.written
  obtain ⟨s, hsingle⟩ := h.single
  have haccepted := accepted_of_single hsingle hready.accepted
  have hfew := @length_explanations pq topo policy ledger c.fences pins c.request
  rw [haccepted, List.length_singleton] at hfew
  have hreported := @explanation_alone pq topo policy ledger c.fences pins c.request s
    (by rw [haccepted]; exact List.mem_singleton.mpr rfl)
  have hsources := @explanation_accepted pq topo policy ledger c.fences pins c.request
  rw [haccepted] at hsources
  unfold Call.crossings
  rw [hexplanations]
  revert hfew hreported hsources
  generalize (progress pq topo policy ledger c.fences pins c.request).explanations = explanations
  intro hfew hreported hsources
  cases explanations with
  | nil => exact ⟨[], rfl, .inl rfl⟩
  | cons e rest =>
    obtain rfl : rest = [] := List.length_eq_zero_iff.mp (by rw [List.length_cons] at hfew; omega)
    rw [List.flatMap_singleton]
    obtain ⟨s', hs', hsource⟩ := hsources List.mem_cons_self
    rw [List.mem_singleton.mp hs'] at hsource
    rcases hreported List.mem_cons_self hsource with ⟨-, rfl⟩ | ⟨-, u, hrun, hexplains⟩
    · exact ⟨[], rfl, .inl rfl⟩
    · exact ⟨e.hops, rfl, .inr ⟨pins, s, u, hrun, hexplains.hops⟩⟩

theorem Steady.gated (h : Steady pq topo policy ledger c) : ∀ x ∈ c.crossings pq ledger,
    x.tick = c.request.now ∧ ∃ edge, Gated topo policy ledger edge x := by
  obtain ⟨hops, hcrossings, hhops⟩ := h.sole
  intro x hx
  rw [hcrossings] at hx
  obtain ⟨hop, hhop, rfl⟩ := List.mem_map.mp hx
  have hmem := (List.mem_filter.mp hhop).1
  rcases hhops with rfl | ⟨pins, s, u, hrun, rfl⟩
  · cases hmem
  · exact ⟨rfl, gated_hops hrun hop hmem⟩

theorem Steady.nodup (hbuilt : topo.Built) (hids : (topo.edges.map DependencyEdge.id).Nodup)
    (h : Steady pq topo policy ledger c) :
    ((c.crossings pq ledger).map fun x => x.hop.edge).Nodup := by
  obtain ⟨hops, hcrossings, hhops⟩ := h.sole
  have hedges : ((c.crossings pq ledger).map fun x => x.hop.edge) =
      (hops.filter HopRecord.accepted).map HopRecord.edge := by
    rw [hcrossings, Crossing.ofHops, List.map_map]
    rfl
  rw [hedges]
  rcases hhops with rfl | ⟨pins, s, u, hrun, rfl⟩
  · exact List.nodup_nil
  · exact (nodup_hops hbuilt hids hrun).sublist (List.filter_sublist.map _)

end Sole

/-! ## Runs -/

/-- An edge of a topology with distinct edge identities is the one of its identity. -/
theorem eq_of_id (hids : (topo.edges.map DependencyEdge.id).Nodup) {edge edge' : DependencyEdge}
    (h : edge ∈ topo.edges) (h' : edge' ∈ topo.edges) (hid : edge.id = edge'.id) : edge = edge' :=
  List.inj_on_of_nodup_map hids h h' hid

/-- Every crossing of a run is made at the time of one of its calls, over an edge. -/
theorem crossings_run {calls : List Call} (h : SteadyRun pq topo policy ledger calls) :
    ∀ x ∈ crossingsOf pq ledger calls, (∃ c ∈ calls, x.tick = c.request.now) ∧
      ∃ edge ∈ topo.edges, x.hop.edge = edge.id ∧ x.hop.dst = edge.dst := by
  induction calls generalizing ledger with
  | nil => exact fun x hx => by cases hx
  | cons c rest ih =>
    intro x hx
    rcases List.mem_append.mp hx with hx | hx
    · obtain ⟨htick, edge, hgated⟩ := h.1.gated x hx
      exact ⟨⟨c, List.mem_cons_self, htick⟩, edge, hgated.mem, hgated.id, hgated.dst⟩
    · obtain ⟨⟨c', hc', htick⟩, hedge⟩ := ih h.2 x hx
      exact ⟨⟨c', List.mem_cons_of_mem c hc', htick⟩, hedge⟩

/-- The crossings of an edge are those under its key. -/
theorem along_eq_under (hids : (topo.edges.map DependencyEdge.id).Nodup) {edge : DependencyEdge}
    (hedge : edge ∈ topo.edges)
    (hl : ∀ x ∈ l, ∃ edge ∈ topo.edges, x.hop.edge = edge.id ∧ x.hop.dst = edge.dst) :
    Crossing.along edge.id l = Crossing.under ⟨edge.dst, edge.id⟩ l := by
  refine List.filter_congr fun x hx => ?_
  obtain ⟨edge', hedge', hid, hdst⟩ := hl x hx
  refine decide_eq_decide.mpr ⟨fun heq => ?_, fun hkey => ?_⟩
  · obtain rfl := eq_of_id hids hedge' hedge (hid.symm.trans heq)
    unfold Crossing.key
    rw [hid, hdst]
  · exact congrArg EdgeTargetKey.edge hkey

/-- The calls are made in order of time. -/
def InOrder (calls : List Call) : Prop :=
  calls.Pairwise fun c c' => c.request.now.toNat ≤ c'.request.now.toNat

/-- The crossings of an edge keep the distance that its cooldown asks for. -/
theorem spaced_run (hbuilt : topo.Built) (hids : (topo.edges.map DependencyEdge.id).Nodup)
    {edge : DependencyEdge} (hedge : edge ∈ topo.edges) {calls : List Call}
    (hrun : SteadyRun pq topo policy ledger calls) (hempty : ledger.Remembers [])
    (horder : InOrder calls) :
    Lib.Spaced (fun x : Crossing => x.tick.toNat) (fun x => x.magnitude.raw)
      (policy.effectiveCooldown edge.cooldownTicks).toNat policy.hysteresisDelta.raw
      (Crossing.along edge.id (crossingsOf pq ledger calls)) := by
  induction calls using List.reverseRecOn with
  | nil => exact List.Pairwise.nil
  | append_singleton before c ih =>
    obtain ⟨hbefore, hlast⟩ := hrun.split
    have hsteady := hlast.1
    obtain ⟨horder', -, hlater⟩ := List.pairwise_append.mp horder
    have hspaced := ih hbefore horder'
    have hall := crossings_run hbefore
    have hmemory := remembers_run hbefore hempty
    rw [List.nil_append] at hmemory
    have hover := along_eq_under hids hedge fun x hx => (hall x hx).2
    have hone := hsteady.nodup hbuilt hids
    rw [crossingsOf_append, crossingsOf, crossingsOf, List.append_nil]
    have hsplit : ∀ l l' : List Crossing, Crossing.along edge.id (l ++ l') =
        Crossing.along edge.id l ++ Crossing.along edge.id l' := fun _ _ => List.filter_append _ _
    rw [hsplit]
    cases hnew : Crossing.along edge.id (c.crossings pq (ledgerAfter pq ledger before)) with
    | nil =>
      rw [List.append_nil]
      exact hspaced
    | cons x rest =>
      -- a call crosses the edge at most once
      have hrest : rest = [] := by
        have hsub : ((Crossing.along edge.id (c.crossings pq (ledgerAfter pq ledger before))).map
            fun x => x.hop.edge).Nodup := hone.sublist (List.filter_sublist.map _)
        have hsame : ∀ y ∈ x :: rest, y.hop.edge = edge.id := fun y hy => by
          rw [← hnew] at hy
          simpa using (List.mem_filter.mp hy).2
        rw [hnew, List.map_cons, List.nodup_cons] at hsub
        refine List.eq_nil_iff_forall_not_mem.mpr fun y hy => hsub.1 ?_
        rw [hsame x List.mem_cons_self, ← hsame y (List.mem_cons_of_mem x hy)]
        exact List.mem_map_of_mem hy
      subst hrest
      have hmine : x ∈ Crossing.along edge.id (c.crossings pq (ledgerAfter pq ledger before)) :=
        hnew ▸ List.mem_cons_self
      obtain ⟨hx, hid⟩ := List.mem_filter.mp hmine
      have hid : x.hop.edge = edge.id := of_decide_eq_true hid
      obtain ⟨htick, edge', hgated⟩ := hsteady.gated x hx
      obtain rfl := eq_of_id hids hgated.mem hedge (hgated.id.symm.trans hid)
      refine hspaced.snoc fun a ha => ?_
      have hmem : a ∈ crossingsOf pq ledger before :=
        (List.mem_filter.mp (List.mem_of_getLast? ha)).1
      obtain ⟨⟨c', hc', htick'⟩, -⟩ := hall a hmem
      have hle : a.tick.toNat ≤ x.tick.toNat := by
        rw [htick, htick']
        exact hlater c' hc' c (List.mem_singleton.mpr rfl)
      refine ⟨hle, fun hnear => ?_⟩
      obtain ⟨ctx, rfl, hledger, hnow, hundamped⟩ := hgated.undamped
      rw [hover] at ha
      rw [← hnow] at hle hnear
      exact outgrows_of_undamped (hledger ▸ hmemory) hundamped ha hle hnear

/-! ## Results -/

/-- The record stands for out-edges of a settled resource, as many as it counts, and each was last
crossed too recently for what it would have carried. -/
def RefusedByHistory (pq : EntryQueue) (topo : Topology) (policy : PropagationPolicy)
    (ledger : PropagationLedger) (c : Call) (l : List Crossing) (r : SuppressedEdgeRecord) : Prop :=
  ∃ pins, ∃ s ∈ (admission policy c.request).accepted,
    ∃ entry ∈ reach pq topo policy ledger c.fences pins c.request s,
    ∃ (res : Resource) (edges : List DependencyEdge),
      topo.resourceAt entry.node = some res ∧ res.id = r.src ∧
      edges.Sublist ((topo.outEdgeIndicesAt entry.node).filterMap topo.edgeAt) ∧
      edges.length = r.count ∧ ∀ edge ∈ edges, ∃ carried last,
        (traversalContext topo policy ledger c.fences pins c.request s).carries entry edge =
          .ok carried ∧
        (Crossing.along edge.id l).getLast? = some last ∧
        HeldBack policy c.request.now edge carried.next last

/-- The decision refuses an edge by the hysteresis. -/
def refusedByGate (fate : Fate) : Bool := decide (fate.reason = some .hysteresisNotExceeded)

theorem count_refusals {fates : List Fate} :
    (refusals fates).count .hysteresisNotExceeded = (fates.filter refusedByGate).length := by
  induction fates with
  | nil => rfl
  | cons fate rest ih =>
    cases fate with
    | crossed edge hop => exact ih
    | refused edge reason counted =>
      rw [refusals_refused, List.count_cons, ih]
      by_cases hreason : reason = .hysteresisNotExceeded
      · rw [List.filter_cons_of_pos (by simp [refusedByGate, Fate.reason, hreason]), if_pos (by simp [hreason]),
          List.length_cons]
      · rw [List.filter_cons_of_neg (by simp [refusedByGate, Fate.reason, hreason]), if_neg (by simpa using hreason),
          Nat.add_zero]

theorem mem_refusedByGate {fates : List Fate} {fate : Fate}
    (h : fate ∈ fates.filter refusedByGate) :
    ∃ counted, .refused fate.edge .hysteresisNotExceeded counted ∈ fates := by
  obtain ⟨hmem, hrefused⟩ := List.mem_filter.mp h
  have hreason : fate.reason = some .hysteresisNotExceeded := of_decide_eq_true hrefused
  cases fate with
  | crossed => cases hreason
  | refused edge reason counted =>
    cases hreason
    exact ⟨counted, hmem⟩

/-- The records of hysteresis in a steady call go back to crossings that the ledger remembers. -/
theorem Steady.refused_by_history (hbuilt : topo.Built) (hfit : topo.DegreesFit)
    (hids : (topo.edges.map DependencyEdge.id).Nodup) (h : Steady pq topo policy ledger c)
    (hmemory : ledger.Remembers l) (hticks : ∀ x ∈ l, x.tick.toNat ≤ c.request.now.toNat)
    (hedges : ∀ x ∈ l, ∃ edge ∈ topo.edges, x.hop.edge = edge.id ∧ x.hop.dst = edge.dst)
    {e : PropagationExplanation} (he : e ∈ (c.outcome pq ledger).explanations)
    {r : SuppressedEdgeRecord} (hr : r ∈ e.suppressed) (hreason : r.reason = .hysteresisNotExceeded) :
    RefusedByHistory pq topo policy ledger c l r := by
  obtain ⟨pins, -, hexplanations, htrunc, -⟩ := h.written
  rw [hexplanations] at he
  obtain ⟨s, hs, hsource⟩ := explanation_accepted he
  have hwired : Wired topo := wired_of_indexed (Topology.indexed_of_built hbuilt) hfit
  have hfull : ¬CutShort pq topo policy ledger c.fences pins c.request s :=
    not_cutShort hs he hsource (explanations_untruncated htrunc e he)
  obtain ⟨haccounted, -⟩ := accounted_explanation hwired hs he hsource hfull
  obtain ⟨x, hx, hid, hsome, hcount⟩ := haccounted.record hr
  rw [hreason] at hsome hcount
  rw [count_refusals] at hcount
  unfold decisionsOf at hx
  split at hx
  case isFalse => cases hx
  have hout : x.fates.map Fate.edge =
      (topo.outEdgeIndicesAt x.node).filterMap topo.edgeAt := edges_handled hx
  obtain ⟨first, hfirst⟩ : ∃ fate, fate ∈ x.fates.filter refusedByGate := by
    refine List.exists_mem_of_length_pos ?_
    rw [← count_refusals]
    exact List.count_pos_iff.mpr hsome
  obtain ⟨counted, hmem⟩ := mem_refusedByGate hfirst
  obtain ⟨entry, hentry, hnode, hres, hcools⟩ := cools_of_handled hx hmem
  refine ⟨pins, s, hs, entry, hentry, x.res, (x.fates.filter refusedByGate).map Fate.edge, hres, hid,
    ?_, (List.length_map _).trans hcount, fun edge hedge => ?_⟩
  · rw [hnode, ← hout]
    exact List.filter_sublist.map _
  · obtain ⟨fate, hfate, rfl⟩ := List.mem_map.mp hedge
    obtain ⟨counted, hmem⟩ := mem_refusedByGate hfate
    obtain ⟨carried, hcarries, hcool⟩ := hcools _ _ hmem
    obtain ⟨last, hlast, hheld⟩ := @heldBack_of_coolingDown
      (traversalContext topo policy ledger c.fences pins c.request s) _ _ _ hmemory hticks hcool
    have hedge : fate.edge ∈ topo.edges := by
      have hin : fate.edge ∈ x.fates.map Fate.edge :=
        List.mem_map_of_mem (List.mem_filter.mp hfate).1
      rw [hout] at hin
      obtain ⟨i, -, hi⟩ := List.mem_filterMap.mp hin
      exact List.mem_of_getElem? hi
    refine ⟨carried, last, hcarries, ?_, hheld⟩
    rw [along_eq_under hids hedge hedges]
    exact hlast

/-- Over a run of steady calls on a ledger without damping records: a crossing that follows
another of the same edge within its cooldown exceeds it by more than the hysteresis, so that few
crossings of an edge fit into one cooldown; and an edge is refused by the hysteresis only for its
last crossing. -/
theorem cooldown_over_runs (pq : EntryQueue) (topo : Topology) (policy : PropagationPolicy)
    (ledger : PropagationLedger) (calls : List Call) (hbuilt : topo.Built) (hfit : topo.DegreesFit)
    (hids : (topo.edges.map DependencyEdge.id).Nodup) (hempty : ledger.dampings = ∅)
    (hrun : SteadyRun pq topo policy ledger calls) (horder : InOrder calls) :
    (∀ edge ∈ topo.edges,
      let crossed := Crossing.along edge.id (crossingsOf pq ledger calls)
      let cooldown := (policy.effectiveCooldown edge.cooldownTicks).toNat
      (∀ before a b after, crossed = before ++ a :: b :: after →
        b.tick.toNat < a.tick.toNat + cooldown →
          a.magnitude.raw + policy.hysteresisDelta.raw < b.magnitude.raw) ∧
      ∀ start, (crossed.filter fun x => start ≤ x.tick.toNat ∧
        x.tick.toNat < start + cooldown).length ≤ 1 + 65536 / (policy.hysteresisDelta.raw + 1)) ∧
    ∀ before c after, calls = before ++ c :: after →
      ∀ e ∈ (c.outcome pq (ledgerAfter pq ledger before)).explanations, ∀ r ∈ e.suppressed,
        r.reason = .hysteresisNotExceeded →
          RefusedByHistory pq topo policy (ledgerAfter pq ledger before) c
            (crossingsOf pq ledger before) r := by
  have hmemory : ledger.Remembers [] := fun key => by
    rw [hempty]
    exact AList.lookup_empty key
  refine ⟨fun edge hedge => ?_, fun before c after hcalls e he r hr hreason => ?_⟩
  · have hspaced := spaced_run hbuilt hids hedge hrun hmemory horder
    refine ⟨fun before a b after hcrossed hnear => ?_, fun start => ?_⟩
    · rw [hcrossed] at hspaced
      have htail := (List.pairwise_append.mp hspaced).2.1
      exact ((List.pairwise_cons.mp htail).1 b List.mem_cons_self).2 hnear
    · exact hspaced.length_window (fun x _ => x.magnitude.le_one) start
  · subst hcalls
    obtain ⟨hbefore, hafter⟩ := hrun.split
    have hall := crossings_run hbefore
    have hknown := remembers_run hbefore hmemory
    rw [List.nil_append] at hknown
    obtain ⟨-, -, hlater⟩ := List.pairwise_append.mp horder
    refine hafter.1.refused_by_history hbuilt hfit hids hknown (fun x hx => ?_)
      (fun x hx => (hall x hx).2) he hr hreason
    obtain ⟨⟨c', hc', htick⟩, -⟩ := hall x hx
    rw [htick]
    exact hlater c' hc' c List.mem_cons_self

/-- The probe as a call, with its own magnitude, lineage and time. -/
def cooldownCall (topo : Topology) (policy : PropagationPolicy) (magnitude : Magnitude)
    (lineage : Digest128) (now : Tick) : Call :=
  let signal := probeSignal policy topo ⟨7⟩ now
  { topology := some topo
    policy := some policy
    fences := none
    liveEpoch := probeEpoch
    request := { probeRequest policy topo ⟨7⟩ now with signals :=
      [{ signal with lineage, observation := .observed magnitude policy.thresholds }] } }

/-- Half, full and full pressure over one edge within its cooldown: the second crossing outgrows the
first, the third attempt is refused. -/
theorem cooldown_over_runs_probe :
    let topo := probeTopology [probeResource ⟨7⟩, probeResource ⟨8⟩] [probeEdge ⟨1⟩ ⟨7⟩ ⟨8⟩]
    let policy := { probePolicy with defaultCooldownTicks := 10 }
    let calls := [cooldownCall topo policy (.fromRawSaturating 32768) { lo := 1 } 5,
      cooldownCall topo policy .one { lo := 2 } 7, cooldownCall topo policy .one { lo := 3 } 9]
    (crossingsOf .scan (.make 4 4 4) calls).map Crossing.tick = [5, 7] ∧
    ∀ edge ∈ topo.edges, ∀ start,
      ((Crossing.along edge.id (crossingsOf .scan (.make 4 4 4) calls)).filter fun x =>
        start ≤ x.tick.toNat ∧ x.tick.toNat < start +
          (policy.effectiveCooldown edge.cooldownTicks).toNat).length ≤ 1 + 65536 / (0 + 1) := by
  intro topo policy calls
  refine ⟨by decide +kernel, fun edge hedge start => ?_⟩
  have hbuilt : topo.Built := built_probeTopology (by decide +kernel)
  have hfit : topo.DegreesFit := Topology.degreesFit_of_few (by decide +kernel)
  have hrun : SteadyRun .scan topo policy (.make 4 4 4) calls := by
    refine ⟨⟨rfl, rfl, ⟨_, rfl⟩, rfl, ?_, ?_, ?_⟩, ⟨rfl, rfl, ⟨_, rfl⟩, rfl, ?_, ?_, ?_⟩,
      ⟨rfl, rfl, ⟨_, rfl⟩, rfl, ?_, ?_, ?_⟩, trivial⟩
    all_goals decide +kernel
  exact ((cooldown_over_runs .scan topo policy (.make 4 4 4) calls hbuilt hfit (by decide +kernel) rfl
    hrun (by unfold InOrder; decide +kernel)).1 edge hedge).2 start

end PropagationEngine

end Backpressure
