import Mathlib.Data.Fintype.Card
import Backpressure.Engine.Damping
import Backpressure.Model.Commitment

/-!
# Edges that pressure can cross

An edge is passable when neither its own declaration nor its ends keep pressure from it. Nothing
else is ever crossed; and every passable edge is crossed in some call, whatever else the topology
holds, unless a pin turns it away.
-/

namespace Backpressure

namespace Topology

variable {topo : Topology}

theorem digest_ne_zero_of_built (h : topo.Built) : topo.digest.isZero = false := by
  obtain ⟨resources, edges, limits, allowCycles, hbuild⟩ := h
  rw [(declared_of_build hbuild).build_eq] at hbuild
  rw [digest_of_assemble hbuild]
  exact DigestBuilder.finish_isZero _

/-- The resources of a built topology are declared under valid identities. -/
theorem valid_of_built (h : topo.Built) {r : Resource} (hr : r ∈ topo.resources) :
    r.id.valid = true := by
  obtain ⟨resources, edges, limits, allowCycles, hbuild⟩ := h
  have hvalid : validateAll Resource.validate resources = .ok () := by
    unfold build at hbuild
    split at hbuild
    · cases hbuild
    · split at hbuild
      · cases hbuild
      · split at hbuild
        · cases hbuild
        · split at hbuild
          · cases hbuild
          case h_2 hok => exact hok
  rw [(declared_of_build hbuild).build_eq] at hbuild
  rw [(laid_of_assemble hbuild).resources] at hr
  have hok := validateAll_ok.mp hvalid r ((List.mem_insertionSort _).mp hr)
  unfold Resource.validate at hok
  split at hok
  · cases hok
  case isFalse hid => simpa using hid

/-- Neither the declaration of the edge nor its ends keep pressure from passing over it. -/
structure Passable (topo : Topology) (i : Nat) (edge : DependencyEdge) : Prop where
  edgeAt : topo.edgeAt i = some edge
  attenuation : edge.attenuation.isZero = false
  pressure : edge.flags.has .recoveryOnly = false
  forwards : ∃ a r, topo.indexOf edge.src = some a ∧ topo.resourceAt a = some r ∧
    r.canForward = true
  receives : ∃ b r, topo.indexOf edge.dst = some b ∧ topo.resourceAt b = some r ∧
    r.canReceive = true
  apart : edge.src ≠ edge.dst

end Topology

namespace Traversal

variable {pq : EntryQueue} {ctx : TraversalContext} {t t' u : Traversal pq} {entry : QueueEntry}
  {res : Resource} {i : Nat} {x : Visit} {c : CrossedEdge}

/-! ## What is crossed is passable -/

/-- Only a passable edge that no pin turns away is crossed. -/
theorem Visit.Lawful.passable (h : x.Lawful ctx) (hindexed : ctx.topo.Indexed)
    (hc : c ∈ x.crossed) : ctx.topo.Passable c.edgeIndex c.edge ∧
      ctx.pinRefuses c.edgeIndex c.edge = false := by
  obtain ⟨settled, hsettled, hpassed⟩ := h.passed c hc
  obtain ⟨expansions, fanout, hadm⟩ := hpassed.admitted
  obtain ⟨toRes, hadmitted⟩ := of_admits hadm
  obtain ⟨hedge, hsrc, -⟩ := h.leaves hindexed hc
  have hexp := h.expandable (List.ne_nil_of_mem hc)
  have hdst := indexOf_of_admits hadm
  refine ⟨⟨hedge, hadmitted.attenuation, hadmitted.pressure,
    ⟨_, _, hsrc, hexp.resourceAt, hexp.forwards⟩, ⟨_, _, hdst, hadmitted.resourceAt,
      hadmitted.receives⟩, fun hsame => ?_⟩, hadmitted.pin⟩
  rw [hsame, hdst] at hsrc
  exact hadmitted.unsettled (Option.some.inj hsrc ▸ hsettled)

/-! ## An edge that passes the gates is crossed -/

/-- What an attempt at an edge takes from the record budget. -/
theorem recordBudget_expandEdge {fanout : Nat} : match expandEdge ctx entry res fanout t i with
    | .refused u _ => u.recordBudget = t.recordBudget
    | .crossed u => u.recordBudget + 1 = t.recordBudget
    | .exhausted _ => t.recordBudget = 0 := by
  unfold expandEdge
  dsimp only
  cases ctx.topo.edgeAt i with
  | none => rfl
  | some edge =>
    dsimp only
    cases ctx.admits t.countConsidered.settled t.countConsidered.expansions fanout entry i edge with
    | error refusal => rfl
    | ok toIndex =>
      dsimp only
      cases ctx.carries entry edge with
      | error refusal => rfl
      | ok carried =>
        have hnoted : (if edge.isAmplifying then t.countConsidered.noteAmplification
            else t.countConsidered).recordBudget = t.recordBudget := by
          split <;> rfl
        dsimp only
        revert hnoted
        generalize (if edge.isAmplifying then t.countConsidered.noteAmplification
          else t.countConsidered) = noted
        intro hnoted
        cases ctx.damps edge carried.next with
        | some reason => exact hnoted
        | none =>
          dsimp only
          by_cases hspent : noted.recordBudget = 0
          · have hpush : noted.pushHop (acceptedHop entry res edge carried) = none := if_pos hspent
            rw [hpush]
            exact hnoted.symm.trans hspent
          · have hpush : noted.pushHop (acceptedHop entry res edge carried) = some _ :=
              if_neg hspent
            rw [hpush]
            dsimp only
            have hkept : ∀ v : Traversal pq,
                (v.cross entry res i toIndex carried).recordBudget = v.recordBudget := by
              intro v
              unfold cross pushQueue
              dsimp only
              split <;> rfl
            rw [hkept]
            dsimp only
            omega

/-- The edge passes the gates of the expansion while the budgets last. -/
structure Opens (ctx : TraversalContext) (settled : List Nat) (entry : QueueEntry)
    (c : CrossedEdge) : Prop where
  edgeAt : ctx.topo.edgeAt c.edgeIndex = some c.edge
  admits : ∀ expansions fanout, expansions < ctx.policy.maxExpansions.toNat →
    fanout < ctx.policy.maxFanout.toNat →
      ctx.admits settled expansions fanout entry c.edgeIndex c.edge = .ok c.toIndex
  carries : ctx.carries entry c.edge = .ok c.carried
  undamped : ctx.damps c.edge c.carried.next = none

/-- An edge that passes the gates is crossed when the budgets cover it and the edges that the
damping gate does not keep back. -/
theorem mem_crossedOf {l : List Nat} {fanout : Nat} (hres : ctx.topo.resourceAt entry.node = some res)
    (hmem : c.edgeIndex ∈ l) (hopens : Opens ctx t.settled entry c) (free : Nat → Bool)
    (hself : free c.edgeIndex = true)
    (hothers : ∀ j ∈ l, free j = false → ∀ edge, ctx.topo.edgeAt j = some edge →
      ∀ next, ctx.damps edge next ≠ none)
    (hfanout : fanout + l.countP free ≤ ctx.policy.maxFanout.toNat)
    (hexpansions : t.expansions + l.countP free ≤ ctx.policy.maxExpansions.toNat)
    (hrecords : l.countP free ≤ t.recordBudget) : c ∈ crossedOf ctx entry res l fanout t := by
  induction l generalizing fanout t with
  | nil => cases hmem
  | cons j rest ih =>
    rw [crossedOf]
    by_cases hj : j = c.edgeIndex
    · subst hj
      rw [List.countP_cons_of_pos hself] at hfanout hexpansions hrecords
      obtain ⟨u, hcrossed, -⟩ := expandEdge_crosses (t := t) res fanout hopens.edgeAt
        (hopens.admits _ _ (by omega) (by omega)) hopens.carries hopens.undamped (by omega)
      have hpassed : c.Passed ctx t.settled entry :=
        ⟨hopens.edgeAt, ⟨_, _, hopens.admits 0 0 (by omega) (by omega)⟩, hopens.carries,
          hopens.undamped⟩
      rw [hcrossed]
      dsimp only
      rw [hpassed.crossingOf]
      exact List.mem_cons_self
    · have hrest : c.edgeIndex ∈ rest := (List.mem_cons.mp hmem).resolve_left fun h => hj h.symm
      have hpos : 0 < rest.countP free := List.countP_pos_iff.mpr ⟨_, hrest, hself⟩
      have hcount := List.countP_cons (p := free) (a := j) (l := rest)
      have hcase := expandEdge_cases fanout j t hres
      have hbudget := @recordBudget_expandEdge pq ctx t entry res j fanout
      generalize expandEdge ctx entry res fanout t j = step at hcase hbudget ⊢
      cases hcase with
      | refused htidy =>
        dsimp only at hbudget ⊢
        have hexp := htidy.expansions
        refine ih hrest (htidy.settled ▸ hopens) (fun k hk => hothers k (List.mem_cons_of_mem j hk))
          ?_ ?_ ?_ <;> omega
      | exhausted =>
        dsimp only at hbudget
        omega
      | @crossed d u hindex hpassed _ _ htidy =>
        dsimp only at hbudget ⊢
        -- what the damping gate keeps back is not crossed
        have hfree : free j = true := by
          cases hfree : free j with
          | true => rfl
          | false =>
            exact absurd hpassed.undamped (hothers j List.mem_cons_self hfree d.edge
              (hindex ▸ hpassed.edgeAt) d.carried.next)
        rw [hfree, if_pos rfl] at hcount
        have hexp : u.expansions = t.expansions + 1 := htidy.expansions
        have hset : u.settled = t.settled := htidy.settled
        refine List.mem_append_right _ (ih hrest (hset ▸ hopens)
          (fun k hk => hothers k (List.mem_cons_of_mem j hk)) ?_ ?_ ?_) <;> omega

/-- A traversal that starts visits its origin first and goes through its edges. -/
theorem exists_visit {origin : Resource} (fresh : t.Fresh) (horigin : Origin ctx i origin)
    (hfence : ctx.ingressFence origin.id = none) (hrecv : origin.canReceive = true)
    (hseed : ctx.seed.isZero = false) (hroom : 0 < ctx.policy.maxVisited.toNat)
    (hexp : Expandable ctx (originEntry ctx i) origin) :
    ∃ x ∈ visits ctx t, ∃ u : Traversal pq,
      x.crossed = crossedOf ctx (originEntry ctx i) origin (ctx.topo.outEdgeIndicesAt i) 0 u ∧
      u.settled = [i] ∧ u.expansions = 0 ∧ u.recordBudget = t.recordBudget := by
  obtain ⟨s, henter, hline⟩ := enter_line fresh horigin hfence hrecv hseed
  have hlen : i < ctx.topo.resources.length := (List.getElem?_eq_some_iff.mp horigin.resourceAt).1
  have hsettling : settling ctx s = some (originEntry ctx i) :=
    hline.settling hroom hlen List.not_mem_nil
  obtain ⟨queue, hpop, -⟩ := hline.pops
  obtain ⟨begun, hbegun, -, hset, -, hexpansions, hbudget, -⟩ := hline.begins queue
  have hvisiting : visiting ctx s = some ⟨originEntry ctx i, origin,
      (s.opened ctx (originEntry ctx i) queue origin).crossedFrom ctx (originEntry ctx i) origin⟩ := by
    unfold visiting
    rw [hsettling, Option.bind_some, hpop, Option.bind_some, hexp.resourceAt]
    rfl
  refine ⟨⟨originEntry ctx i, origin, (s.opened ctx (originEntry ctx i) queue origin).crossedFrom ctx
    (originEntry ctx i) origin⟩, ?_, s.opened ctx (originEntry ctx i) queue origin, ?_, ?_, ?_, ?_⟩
  · unfold visits
    rw [henter]
    dsimp only
    obtain ⟨k, hk⟩ : ∃ k, fuel ctx = k + 1 := ⟨_, rfl⟩
    rw [hk, Lib.Turns.log, hvisiting]
    exact List.mem_append_left _ List.mem_cons_self
  · unfold crossedFrom
    rw [if_neg (Nat.not_le_of_lt hexp.depth), if_neg (by simp [hexp.forwards]), hexp.egress]
    rfl
  · unfold opened
    rw [hbegun]
    exact hset
  · unfold opened
    rw [hbegun]
    exact hexpansions
  · unfold opened
    rw [hbegun]
    have hrecords := hline.records
    rw [List.length_nil, Nat.add_zero] at hrecords
    exact hbudget.trans hrecords

end Traversal

/-! ## A call that crosses one edge -/

namespace PropagationLedger

/-- A damping ledger that remembers a full crossing now of every edge but those under one key. -/
def quiet (edges : List DependencyEdge) (open' : EdgeTargetKey) (now : Tick) : PropagationLedger :=
  { make 1 1 1 with
    dampings := ((edges.map fun e => (⟨e.dst, e.id⟩ : EdgeTargetKey)).filter (· ≠ open')).foldl
      (fun dampings key => dampings.insert key ⟨.one, now, true⟩) ∅ }

theorem lookup_foldl_insert {keys : List EdgeTargetKey} {r : DampingRecord} {key : EdgeTargetKey}
    (dampings : AList fun _ : EdgeTargetKey => DampingRecord) :
    (keys.foldl (fun dampings key => dampings.insert key r) dampings).lookup key =
      if key ∈ keys then some r else dampings.lookup key := by
  induction keys generalizing dampings with
  | nil => rfl
  | cons first rest ih =>
    rw [List.foldl_cons, ih]
    by_cases hrest : key ∈ rest
    · rw [if_pos hrest, if_pos (List.mem_cons_of_mem _ hrest)]
    · rw [if_neg hrest]
      by_cases hfirst : key = first
      · subst hfirst
        rw [if_pos List.mem_cons_self]
        exact AList.lookup_insert _
      · rw [if_neg fun h => (List.mem_cons.mp h).elim hfirst hrest]
        exact AList.lookup_insert_ne hfirst

variable {edges : List DependencyEdge} {open' : EdgeTargetKey} {now : Tick}

theorem damping_quiet {edge : DependencyEdge} (hedge : edge ∈ edges) (hne : ⟨edge.dst, edge.id⟩ ≠ open') :
    (quiet edges open' now).damping edge.dst edge.id = ⟨.one, now, true⟩ := by
  have hmem : (⟨edge.dst, edge.id⟩ : EdgeTargetKey) ∈
      (edges.map fun e => (⟨e.dst, e.id⟩ : EdgeTargetKey)).filter (· ≠ open') :=
    List.mem_filter.mpr ⟨List.mem_map_of_mem hedge, decide_eq_true hne⟩
  unfold damping quiet
  dsimp only
  rw [lookup_foldl_insert, if_pos hmem]
  rfl

theorem damping_quiet_open : (quiet edges open' now).damping open'.target open'.edge = {} := by
  have hnot : open' ∉ (edges.map fun e => (⟨e.dst, e.id⟩ : EdgeTargetKey)).filter (· ≠ open') := by
    intro h
    exact of_decide_eq_true (List.mem_filter.mp h).2 rfl
  unfold damping quiet
  dsimp only
  rw [lookup_foldl_insert, if_neg hnot]
  rfl

end PropagationLedger

/-- The largest gain. -/
def Gain.greatest : Gain := ⟨524288, Nat.le_of_ble_eq_true rfl, Nat.le_refl _⟩

/-- Every budget that matters for one resource at its largest, and a cooldown. -/
def hopPolicy : PropagationPolicy :=
  { probePolicy with
    maxFanout := 65536
    maxExpansions := 65536
    maxRecords := 1048576
    allowAmplification := true
    maxCumulativeGain := .greatest
    defaultCooldownTicks := 1 }

theorem validate_hopPolicy : hopPolicy.validate.ok = true := by decide

def hopAuthority : AuthorityVector :=
  { level := .globalLevel, epoch := ⟨1⟩, policyGeneration := hopPolicy.generation
    amplificationAuthorized := true, maxGain := .greatest }

/-- The least pressure at the source of the edge, with every authority. -/
def hopSignal (topo : Topology) (edge : DependencyEdge) : PressureSignal :=
  { probeSignal hopPolicy topo edge.src 5 with
    observation := .observed ⟨1, Nat.le_of_ble_eq_true rfl⟩ hopPolicy.thresholds
    authority := hopAuthority }

def hopRequest (topo : Topology) (edge : DependencyEdge) (pins : List DependencyPin) :
    PropagationRequest :=
  { probeRequest hopPolicy topo edge.src 5 with signals := [hopSignal topo edge], pins }

def hopLedger (topo : Topology) (edge : DependencyEdge) : PropagationLedger :=
  .quiet topo.edges ⟨edge.dst, edge.id⟩ 5

section Hop

open Traversal PropagationEngine

variable {pq : EntryQueue} {topo : Topology} {i : Nat} {edge : DependencyEdge}
  {pins : List DependencyPin} {table : List (Option Generation)}

/-- What the traversal of the call reads. -/
def hopContext (topo : Topology) (edge : DependencyEdge) (pins : List DependencyPin)
    (table : List (Option Generation)) : TraversalContext :=
  traversalContext topo hopPolicy (hopLedger topo edge) none table (hopRequest topo edge pins)
    (hopSignal topo edge)

theorem grantedGain_hop :
    (hopContext topo edge pins table).grantedGain = Gain.greatest.raw := by
  have hgranted : (hopContext topo edge pins table).amplificationGranted = true := rfl
  rw [TraversalContext.grantedGain, if_pos hgranted]
  exact Nat.min_self Gain.greatest.raw

theorem raw_seed_hop : (hopContext topo edge pins table).seed.raw = 65536 := by
  have hmagnitude : (hopContext topo edge pins table).signal.observation.magnitude.raw = 1 := rfl
  rw [TraversalContext.seed, Potential.raw_fromMagnitude, hmagnitude]

/-- The transfer over an edge never overflows. -/
theorem carries_hop (edge : DependencyEdge) (pins : List DependencyPin)
    (table : List (Option Generation)) (a : Nat) :
    ∃ carried, (hopContext topo edge pins table).carries
      (originEntry (hopContext topo edge pins table) a) edge = .ok carried := by
  have hpotential : (originEntry (hopContext topo edge pins table) a).potential.raw = 65536 :=
    raw_seed_hop
  have hgain : (originEntry (hopContext topo edge pins table) a).cumulativeGainQ16 = 65536 := by
    rw [originEntry, kUnityGainQ16]
  have hgreatest : Gain.greatest.raw = 524288 := rfl
  have hmax := edge.amplification.le_max
  have hunity := edge.amplification.ge_unity
  have hone := edge.attenuation.le_one
  have hallowed : ¬(!(hopContext topo edge pins table).policy.allowAmplification ||
      !(hopContext topo edge pins table).signal.authority.amplificationAuthorized) = true := by
    simp [hopContext, traversalContext, hopPolicy, hopSignal, hopAuthority]
  unfold TraversalContext.carries
  dsimp only
  by_cases hamp : edge.isAmplifying = true
  · rw [if_pos hamp, if_neg hallowed, grantedGain_hop, hgain, if_neg (by omega)]
    have hroom : ¬4294967296 * 65536 / edge.amplification.raw <
        ((originEntry (hopContext topo edge pins table) a).potential.attenuated
          edge.attenuation).raw := by
      rw [Potential.raw_attenuated, hpotential, Nat.mul_div_cancel_left _ (by decide)]
      have hfits : 65536 * edge.amplification.raw ≤ 4294967296 * 65536 := by omega
      have hquotient := (Nat.le_div_iff_mul_le (by omega)).mpr hfits
      omega
    unfold Potential.amplified
    split_ifs <;> exact ⟨_, rfl⟩
  · rw [if_neg hamp]
    exact ⟨_, rfl⟩

/-- The damping gate lets only the edges of one key through. -/
theorem damps_hop {other : DependencyEdge} (hother : other ∈ topo.edges)
    (hne : (⟨other.dst, other.id⟩ : EdgeTargetKey) ≠ ⟨edge.dst, edge.id⟩) (next : Potential) :
    (hopContext topo edge pins table).damps other next ≠ none := by
  have hdamping : (hopContext topo edge pins table).ledger.damping other.dst other.id =
      ⟨.one, 5, true⟩ := PropagationLedger.damping_quiet hother hne
  have hcooldown : 0 < (hopContext topo edge pins table).policy.effectiveCooldown
      other.cooldownTicks := by
    unfold PropagationPolicy.effectiveCooldown
    split
    · exact (by decide : (0 : UInt64) < 1)
    case isFalse hset => exact UInt64.pos_iff_ne_zero.mpr hset
  have hcool : (hopContext topo edge pins table).coolingDown other next = true := by
    have hnow : (hopContext topo edge pins table).now = 5 := rfl
    have hle := next.toMagnitude.le_one
    unfold TraversalContext.coolingDown
    rw [hdamping, hnow]
    simp only [Bool.and_eq_true, decide_eq_true_eq]
    refine ⟨⟨⟨hcooldown, trivial⟩, ?_⟩, ?_⟩
    · rw [if_neg (by decide)]
      exact hcooldown
    · have hrequired : Q16.one.raw ≤ min 65536 (Q16.one.raw +
          (hopContext topo edge pins table).policy.hysteresisDelta.raw) :=
        Nat.le_min.mpr ⟨Q16.one.le_one, Nat.le_add_right _ _⟩
      unfold Q16.fromRawSaturating
      exact hle.trans (Nat.le_min.mpr ⟨Nat.le_trans (Nat.le_refl 65536) hrequired, Nat.le_refl _⟩)
  unfold TraversalContext.damps
  rw [hcool, if_pos rfl]
  split
  · exact nofun
  · exact nofun

theorem undamped_hop (next : Potential) :
    (hopContext topo edge pins table).damps edge next = none := by
  have hdamping : (hopContext topo edge pins table).ledger.damping edge.dst edge.id = {} := by
    change (hopLedger topo edge).damping edge.dst edge.id = {}
    unfold hopLedger
    exact PropagationLedger.damping_quiet_open
  have hmin : (hopContext topo edge pins table).policy.minPropagatable.raw = 0 := rfl
  have hzero : (hopContext topo edge pins table).floorPotential.raw = 0 := by
    rw [TraversalContext.floorPotential, Potential.raw_fromMagnitude, hmin]
  have hfloor : ¬next.raw < (hopContext topo edge pins table).floorPotential.raw := by omega
  have hcool : (hopContext topo edge pins table).coolingDown edge next = false := by
    unfold TraversalContext.coolingDown
    rw [hdamping]
    simp
  unfold TraversalContext.damps
  rw [if_neg hfloor, hcool, if_neg Bool.false_ne_true]

/-- The edge passes the gates before the arithmetic, whatever it is called to carry. -/
theorem admits_hop (hpass : topo.Passable i edge) {a b : Nat} (ha : topo.indexOf edge.src = some a)
    (hb : topo.indexOf edge.dst = some b)
    (hpin : (hopContext topo edge pins table).pinRefuses i edge = false) {expansions fanout : Nat}
    (hexpansions : expansions < 65536) (hfanout : fanout < 65536) :
    (hopContext topo edge pins table).admits [a] expansions fanout
      (originEntry (hopContext topo edge pins table) a) i edge = .ok b := by
  obtain ⟨b', toRes, hb', hres, hreceives⟩ := hpass.receives
  obtain rfl : b' = b := Option.some.inj (hb'.symm.trans hb)
  have hapart : b' ≠ a := by
    rintro rfl
    obtain ⟨r, hr, hsrc⟩ := Topology.resourceAt_of_indexOf ha
    obtain ⟨r', hr', hdst⟩ := Topology.resourceAt_of_indexOf hb
    obtain rfl : r = r' := Option.some.inj (hr.symm.trans hr')
    exact hpass.apart (hsrc.symm.trans hdst)
  have hfan : ¬(hopContext topo edge pins table).policy.maxFanout.toNat ≤ fanout :=
    Nat.not_le_of_lt hfanout
  have hroom : ¬(hopContext topo edge pins table).policy.maxExpansions.toNat ≤ expansions :=
    Nat.not_le_of_lt hexpansions
  have hhops : ¬(hopContext topo edge pins table).hopBound edge <
      (originEntry (hopContext topo edge pins table) a).depth + 1 := by
    have hdepth : (originEntry (hopContext topo edge pins table) a).depth = 0 := rfl
    have hauthority : (hopContext topo edge pins table).authorityHops = 8 := rfl
    have hpolicy : (hopContext topo edge pins table).policy.maxHops.toNat = 8 := rfl
    have hmax : 0 < (hopContext topo edge pins table).policy.effectiveMaxHops edge.maxHops := by
      unfold PropagationPolicy.effectiveMaxHops
      rw [hpolicy]
      dsimp only
      by_cases hdefault : edge.maxHops = 0
      · rw [if_pos hdefault]
        decide
      · rw [if_neg hdefault]
        have hpos := UInt32.lt_iff_toNat_lt.mp (UInt32.pos_iff_ne_zero.mpr hdefault)
        split
        · exact hpos
        · decide
    unfold TraversalContext.hopBound
    omega
  have hindex : (hopContext topo edge pins table).topo.indexOf edge.dst = some b' := hb
  have hresource : (hopContext topo edge pins table).topo.resourceAt b' = some toRes := hres
  unfold TraversalContext.admits
  rw [if_neg hfan, if_neg hroom, hpin, if_neg Bool.false_ne_true, hpass.attenuation,
    if_neg Bool.false_ne_true, hpass.pressure, if_neg Bool.false_ne_true, hindex]
  dsimp only
  rw [hresource]
  dsimp only
  rw [hreceives, if_neg (by exact nofun), if_neg (fun h => hapart (List.mem_singleton.mp h)),
    if_neg (by exact nofun), if_neg (by exact nofun), if_neg hhops]

/-- A passable edge that no pin turns away passes every gate of the call. -/
theorem opens_hop (hpass : topo.Passable i edge) {a : Nat} (ha : topo.indexOf edge.src = some a)
    (hpin : (hopContext topo edge pins table).pinRefuses i edge = false) :
    ∃ c : CrossedEdge, c.edgeIndex = i ∧ c.edge = edge ∧
      Opens (hopContext topo edge pins table) [a] (originEntry (hopContext topo edge pins table) a)
        c := by
  obtain ⟨b, -, hb, -⟩ := hpass.receives
  obtain ⟨carried, hcarries⟩ := carries_hop edge pins table a
  refine ⟨⟨i, edge, b, carried⟩, rfl, rfl, hpass.edgeAt, fun expansions fanout hexp hfan => ?_,
    hcarries, undamped_hop _⟩
  exact admits_hop hpass ha hb hpin hexp hfan

/-- Edges of one key differ in their priorities. -/
theorem countP_key_le (hbuilt : topo.Built) (key : ResourceId × EdgeId) (a : Nat) :
    (topo.outEdgeIndicesAt a).countP (fun j => (topo.edgeAt j).any fun e => (e.dst, e.id) = key) ≤
      65536 := by
  rw [List.countP_eq_length_filter]
  have hkeys := Topology.edgeKeys_nodup_of_built hbuilt
  have hnodup : ((topo.outEdgeIndicesAt a).filter fun j =>
      (topo.edgeAt j).any fun e => (e.dst, e.id) = key).Nodup :=
    ((Topology.indexed_of_built hbuilt).nodup a).filter _
  have hpriorities : (((topo.outEdgeIndicesAt a).filter fun j =>
      (topo.edgeAt j).any fun e => (e.dst, e.id) = key).map fun j =>
        ((topo.edgeAt j).getD {}).priority.toFin).Nodup := by
    refine hnodup.map_on fun j hj k hk hsame => ?_
    obtain ⟨-, hj⟩ := List.mem_filter.mp hj
    obtain ⟨-, hk⟩ := List.mem_filter.mp hk
    obtain ⟨e, he, hekey⟩ := (Option.any_eq_true _ _).mp hj
    obtain ⟨f, hf, hfkey⟩ := (Option.any_eq_true _ _).mp hk
    rw [he, hf] at hsame
    have hpriority : e.priority = f.priority := UInt16.toFin_inj.mp hsame
    have hsame' : (topo.edges.map Topology.edgeKey)[j]? = (topo.edges.map Topology.edgeKey)[k]? := by
      have he' : topo.edges[j]? = some e := he
      have hf' : topo.edges[k]? = some f := hf
      rw [List.getElem?_map, List.getElem?_map, he', hf', Option.map_some, Option.map_some]
      have hpair : (e.dst, e.id) = (f.dst, f.id) :=
        (of_decide_eq_true hekey).trans (of_decide_eq_true hfkey).symm
      unfold Topology.edgeKey
      rw [hpriority, hpair]
    refine (List.getElem?_inj ?_ hkeys).mp hsame'
    rw [List.length_map]
    exact (List.getElem?_eq_some_iff.mp he).1
  have hle := List.Nodup.length_le_card hpriorities
  rw [List.length_map, Fintype.card_fin] at hle
  exact hle

/-- A passable edge that no pin turns away is crossed by the call. -/
theorem crossed_hop (pq : EntryQueue) (hbuilt : topo.Built) (hpass : topo.Passable i edge)
    (hpin : (hopContext topo edge pins table).pinRefuses i edge = false) (p : Progress) :
    ∃ x ∈ visits (hopContext topo edge pins table) (startTraversal pq topo hopPolicy
      (hopRequest topo edge pins) p (hopSignal topo edge)), ∃ c ∈ x.crossed, c.edge = edge := by
  obtain ⟨a, origin, ha, horigin, hforwards⟩ := hpass.forwards
  obtain ⟨r, hr, hid⟩ := Topology.resourceAt_of_indexOf ha
  obtain rfl : r = origin := Option.some.inj (hr.symm.trans horigin)
  obtain ⟨c, rfl, rfl, hopens⟩ := opens_hop hpass ha hpin
  have horigin : Origin (hopContext topo c.edge pins table) a r := ⟨ha, hr, hid⟩
  have hreceives : r.canReceive = true := by
    unfold Resource.canForward at hforwards
    exact (Bool.and_eq_true_iff.mp hforwards).1
  have hexp : Expandable (hopContext topo c.edge pins table)
      (originEntry (hopContext topo c.edge pins table) a) r :=
    ⟨hr, (by decide : 0 < 8), hforwards, rfl⟩
  have hseed : (hopContext topo c.edge pins table).seed.isZero = false :=
    Potential.isZero_fromMagnitude (by decide : 0 < 1)
  obtain ⟨x, hx, u, hcrossed, hset, hexpansions, hbudget⟩ := exists_visit
    (@startTraversal_fresh pq topo hopPolicy (hopRequest topo c.edge pins) p (hopSignal topo c.edge))
    horigin rfl hreceives hseed (by decide : 0 < (1024 : UInt32).toNat) hexp
  refine ⟨x, hx, c, ?_, rfl⟩
  have hmem : c.edgeIndex ∈ topo.outEdgeIndicesAt a :=
    ((Topology.indexed_of_built hbuilt).mem_iff a c.edgeIndex).mpr ⟨c.edge, hpass.edgeAt, ha⟩
  have hcount := countP_key_le hbuilt (c.edge.dst, c.edge.id) a
  have hrecords : u.recordBudget = 1048576 := hbudget
  rw [hcrossed]
  refine mem_crossedOf hr hmem (hset ▸ hopens)
    (fun j => (topo.edgeAt j).any fun e => (e.dst, e.id) = (c.edge.dst, c.edge.id)) ?_ ?_ ?_ ?_ ?_
  · rw [hpass.edgeAt]
    exact decide_eq_true rfl
  · intro j _ hother edge hedge next
    have hedge : topo.edgeAt j = some edge := hedge
    rw [hedge] at hother
    refine damps_hop (List.mem_of_getElem? hedge) (fun hsame => ?_) next
    have hdst : edge.dst = c.edge.dst := congrArg EdgeTargetKey.target hsame
    have hid' : edge.id = c.edge.id := congrArg EdgeTargetKey.edge hsame
    rw [Option.any_some, decide_eq_false_iff_not, hdst, hid'] at hother
    exact hother rfl
  · rw [Nat.zero_add]
    exact hcount
  · rw [hexpansions, Nat.zero_add]
    exact hcount
  · rw [hrecords]
    exact hcount.trans (by decide)

end Hop

end Backpressure
