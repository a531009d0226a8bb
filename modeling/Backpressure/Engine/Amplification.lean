import Backpressure.Engine.Probe
import Backpressure.Engine.Visits
import Backpressure.Model.OutEdges
import Mathlib.Tactic.IntervalCases

/-!
# How much amplification a grant lets through

The engine tracks the cumulative gain of a path by a product that is truncated at every
amplifying edge, and compares the truncated gain with the grant. Under the smallest grants the
comparison bounds the potential; under every larger grant two edges in a row pass more than was
granted.
-/

namespace Backpressure

namespace Traversal

variable {pq : EntryQueue} {ctx : TraversalContext} {t t' : Traversal pq}

/-- The potential is at most the seed under the gain, and at most one. -/
def Within16 (gain : Nat) (seed p : Potential) : Prop :=
  p.raw * 65536 ≤ seed.raw * gain ∧ p.raw ≤ 4294967296

/-- The two ways in which an edge carries pressure on. -/
theorem carries_cases {entry : QueueEntry} {edge : DependencyEdge}
    {carried : TraversalContext.Carried} (h : ctx.carries entry edge = .ok carried) :
    (carried.next = entry.potential.attenuated edge.attenuation ∧
      carried.gain = entry.cumulativeGainQ16) ∨
    (edge.isAmplifying = true ∧ ctx.amplificationGranted = true ∧
      carried.gain = entry.cumulativeGainQ16 * edge.amplification.raw / 65536 ∧
      carried.gain ≤ ctx.grantedGain ∧
      (entry.potential.attenuated edge.attenuation).amplified edge.amplification =
        .ok carried.next) := by
  unfold TraversalContext.carries at h
  dsimp only at h
  split at h
  case isFalse =>
    cases h
    exact .inl ⟨rfl, rfl⟩
  case isTrue hamp =>
    split at h
    · cases h
    case isFalse hgranted =>
      split at h
      · cases h
      case isFalse hgain =>
        split at h
        · cases h
        case h_2 amplified hok =>
          cases h
          refine .inr ⟨hamp, ?_, rfl, Nat.le_of_not_lt hgain, hok⟩
          unfold TraversalContext.amplificationGranted
          simpa using hgranted

theorem amplified_le {p q : Potential} {gain : Gain} (h : p.amplified gain = .ok q) :
    q.raw ≤ p.raw * gain.raw / 65536 := by
  unfold Potential.amplified at h
  split at h
  case isTrue hsame =>
    have hge := gain.ge_unity
    have hle : p.raw * 65536 ≤ p.raw * gain.raw := Nat.mul_le_mul_left _ hge
    obtain rfl := Except.ok.inj h
    omega
  case isFalse =>
    split at h
    · cases h
    · cases h
      exact Nat.min_le_left _ _

/-- An entry under a small grant: its gain is granted, and its potential is the seed under that
gain at most. -/
structure Modest (ctx : TraversalContext) (m : Magnitude) (gain : Nat) (p : Potential) : Prop where
  ge : 65536 ≤ gain
  granted : gain ≤ ctx.grantedGain
  potential : p.raw ≤ m.raw * gain

/-- Under a grant of at most 65538 one more crossing keeps an entry modest: after two of the
smallest amplifications there is no room for a third. -/
theorem Modest.carries {m : Magnitude} {entry : QueueEntry} {edge : DependencyEdge}
    {carried : TraversalContext.Carried} (hgrant : ctx.grantedGain ≤ 65538)
    (h : Modest ctx m entry.cumulativeGainQ16 entry.potential)
    (hcarries : ctx.carries entry edge = .ok carried) :
    Modest ctx m carried.gain carried.next := by
  have hatt := Potential.attenuated_raw_le entry.potential edge.attenuation
  rcases carries_cases hcarries with ⟨hnext, hgain⟩ | ⟨hamp, -, hgain, hle, hnext⟩
  · rw [hgain, hnext]
    exact ⟨h.ge, h.granted, hatt.trans h.potential⟩
  · have hge := edge.amplification.ge_unity
    have hne : edge.amplification.raw ≠ 65536 := by
      simp only [DependencyEdge.isAmplifying, Gain.isUnity, Gain.kUnityRaw, Bool.and_eq_true,
        Bool.not_eq_true', beq_eq_false_iff_ne] at hamp
      exact hamp.2
    have hone := carried.next.le_one
    have hpotential : carried.next.raw ≤
        m.raw * entry.cumulativeGainQ16 * edge.amplification.raw / 65536 :=
      (amplified_le hnext).trans (Nat.div_le_div_right
        (Nat.mul_le_mul_right _ (hatt.trans h.potential)))
    have hm := m.le_one
    have hge' := h.ge
    have hle' := h.granted
    generalize edge.amplification.raw = a at *
    generalize entry.cumulativeGainQ16 = gain at *
    obtain rfl | rfl | rfl : gain = 65536 ∨ gain = 65537 ∨ gain = 65538 := by omega
    · have hsame : m.raw * 65536 * a / 65536 = m.raw * a := by
        rw [Nat.mul_right_comm]
        exact Nat.mul_div_cancel _ (by decide)
      rw [hsame] at hpotential
      have hgain' : carried.gain = a := by omega
      exact ⟨by omega, hle, hgain' ▸ hpotential⟩
    · obtain rfl : a = 65537 := by omega
      have hgain' : carried.gain = 65538 := by omega
      refine ⟨by omega, hle, ?_⟩
      rw [hgain']
      omega
    · omega

/-- Under a grant of at most 65538 the grant bounds every settled and every passed potential. -/
theorem within_of_small_grant (fresh : t.Fresh) (hgrant : ctx.grantedGain ≤ 65538)
    (hge : 65536 ≤ ctx.grantedGain) (hrun : t.run ctx = (.success, t')) :
    (∀ e ∈ settlements ctx t, Within16 ctx.grantedGain ctx.seed e.potential) ∧
      ∀ h ∈ t'.expl.hops, Within16 ctx.grantedGain ctx.seed h.potentialAfter := by
  obtain ⟨i, origin, xs, -, hsettlements, htoured⟩ := toured_run fresh hrun
  have htour := htoured.toTour
  have hseed : ctx.seed.raw = ctx.signal.observation.magnitude.raw * 65536 := rfl
  generalize ctx.signal.observation.magnitude = m at hseed
  have hmodest : ∀ e, Comes ctx i xs e → Modest ctx m e.cumulativeGainQ16 e.potential := by
    refine fun e he => htour.induction (P := fun e => Modest ctx m e.cumulativeGainQ16 e.potential)
      ⟨Nat.le_refl _, hge, hseed.le⟩ (fun x _ c _ settled hpassed hx => ?_) he
    exact hx.carries hgrant hpassed.carries
  have hwithin : ∀ gain p, Modest ctx m gain p → Within16 ctx.grantedGain ctx.seed p := by
    intro gain p h
    refine ⟨?_, p.le_one⟩
    have hle : m.raw * gain ≤ m.raw * ctx.grantedGain := Nat.mul_le_mul_left _ h.granted
    have hpotential := h.potential
    rw [hseed, Nat.mul_right_comm]
    omega
  constructor
  · intro e he
    rw [hsettlements] at he
    obtain ⟨x, hx, rfl⟩ := List.mem_map.mp he
    exact hwithin _ _ (hmodest _ (htour.entries x hx))
  · intro h hh
    rw [htour.hops] at hh
    obtain ⟨x, hx, hhx⟩ := List.mem_flatMap.mp hh
    obtain ⟨c, hc, rfl⟩ := List.mem_map.mp hhx
    obtain ⟨settled, -, hpassed⟩ := (htour.lawful x hx).passed c hc
    exact hwithin _ _ ((hmodest _ (htour.entries x hx)).carries hgrant hpassed.carries)

/-! ## A run along a line -/

/-- A traversal that has gone along a line of edges: one entry waits, one edge was crossed for each
settled resource, and nothing was refused. -/
structure Line (budget : Nat) (entry : QueueEntry) (before : List Nat) (t : Traversal pq) :
    Prop where
  queue : pq.contents t.queue = [entry]
  settled : t.settled = before
  visited : t.visited = before.length
  expansions : t.expansions = before.length
  records : t.recordBudget + before.length = budget
  pending : ∀ r, (t.pending r).count = 0

/-- An origin that may receive is the start of a line. -/
theorem enter_line {i : Nat} {origin : Resource} (fresh : t.Fresh) (horigin : Origin ctx i origin)
    (hfence : ctx.ingressFence origin.id = none) (hrecv : origin.canReceive = true)
    (hseed : ctx.seed.isZero = false) :
    ∃ s, t.enter ctx = .ok s ∧ Line t.recordBudget (originEntry ctx i) [] s := by
  have hnode : (originEntry ctx i).node ∉
      ({ noteGrants ctx t with acc := t.acc.update i origin.id id } : Traversal pq).settled := by
    change _ ∉ t.settled
    simp [fresh.settled]
  unfold enter
  rw [horigin.indexOf]
  dsimp only
  rw [horigin.resourceAt, hseed]
  dsimp only
  rw [if_neg Bool.false_ne_true, hfence]
  dsimp only
  rw [if_neg (by simp [hrecv])]
  change ∃ s, Except.ok (pushQueue { noteGrants ctx t with acc := t.acc.update i origin.id id }
    (originEntry ctx i)) = .ok s ∧ _
  rw [pushQueue_of_not_mem hnode]
  refine ⟨_, rfl, ⟨?_, fresh.settled, fresh.visited, fresh.expansions, rfl, fresh.pending⟩⟩
  have hperm := pq.contents_push pq.empty (originEntry ctx i)
  rw [pq.contents_empty] at hperm
  have hqueue : (noteGrants ctx t).queue = pq.empty := fresh.queue
  rw [hqueue]
  exact List.perm_singleton.mp hperm

/-- What the crossing of an edge to an unsettled resource does to a traversal. -/
structure Crosses (entry : QueueEntry) (c : CrossedEdge) (t u : Traversal pq) : Prop where
  queue : u.queue = pq.push t.queue (c.arrival entry)
  settled : u.settled = t.settled
  visited : u.visited = t.visited
  expansions : u.expansions = t.expansions + 1
  records : u.recordBudget + 1 = t.recordBudget
  pending : u.pending = t.pending

theorem pushHop_crosses (entry : QueueEntry) (res : Resource) {c : CrossedEdge}
    (hset : c.toIndex ∉ t.settled) (hrecords : t.recordBudget ≠ 0) :
    ∃ v, t.pushHop (acceptedHop entry res c.edge c.carried) = some v ∧
      Crosses entry c t (v.cross entry res c.edgeIndex c.toIndex c.carried) := by
  have hleft : t.recordBudget - 1 + 1 = t.recordBudget := by omega
  unfold pushHop cross
  rw [if_neg hrecords]
  refine ⟨_, rfl, ?_⟩
  dsimp only
  rw [pushQueue_of_not_mem hset]
  exact ⟨rfl, rfl, rfl, rfl, hleft, rfl⟩

/-- An edge that passes every gate, with a record left for it, is crossed. -/
theorem expandEdge_crosses {entry : QueueEntry} {c : CrossedEdge} (res : Resource) (fanout : Nat)
    (hedge : ctx.topo.edgeAt c.edgeIndex = some c.edge)
    (hadm : ctx.admits t.settled t.expansions fanout entry c.edgeIndex c.edge = .ok c.toIndex)
    (hcarries : ctx.carries entry c.edge = .ok c.carried)
    (hdamps : ctx.damps c.edge c.carried.next = none) (hrecords : t.recordBudget ≠ 0) :
    ∃ u, expandEdge ctx entry res fanout t c.edgeIndex = .crossed u ∧ Crosses entry c t u := by
  have hset : c.toIndex ∉ t.settled := by
    obtain ⟨toRes, hadmitted⟩ := of_admits hadm
    exact hadmitted.unsettled
  have hadm' : ctx.admits t.countConsidered.settled t.countConsidered.expansions fanout entry
      c.edgeIndex c.edge = .ok c.toIndex := hadm
  unfold expandEdge
  dsimp only
  rw [hedge]
  dsimp only
  rw [hadm']
  dsimp only
  rw [hcarries]
  dsimp only
  rw [hdamps]
  dsimp only
  by_cases hamp : c.edge.isAmplifying = true
  · rw [if_pos hamp]
    obtain ⟨v, hpush, hcrosses⟩ := pushHop_crosses (t := t.countConsidered.noteAmplification)
      entry res hset hrecords
    rw [hpush]
    exact ⟨_, rfl, ⟨hcrosses.queue, hcrosses.settled, hcrosses.visited, hcrosses.expansions,
      hcrosses.records, hcrosses.pending⟩⟩
  · rw [if_neg hamp]
    obtain ⟨v, hpush, hcrosses⟩ := pushHop_crosses (t := t.countConsidered) entry res hset
      hrecords
    rw [hpush]
    exact ⟨_, rfl, ⟨hcrosses.queue, hcrosses.settled, hcrosses.visited, hcrosses.expansions,
      hcrosses.records, hcrosses.pending⟩⟩

namespace Line

variable {budget : Nat} {entry : QueueEntry} {before : List Nat}

theorem pops (h : Line budget entry before t) :
    ∃ queue, pq.pop t.queue = some (entry, queue) ∧ pq.contents queue = [] := by
  cases hpop : pq.pop t.queue with
  | none =>
    have hnone := Lib.PriorityQueue.pop_eq_none_iff.mp hpop
    rw [h.queue] at hnone
    cases hnone
  | some top =>
    obtain ⟨e, queue⟩ := top
    have hperm := pq.contents_pop _ _ _ hpop
    rw [h.queue] at hperm
    obtain ⟨rfl, hrest⟩ := List.cons.inj (List.singleton_perm.mp hperm).symm
    exact ⟨queue, rfl, hrest⟩

/-- With nothing pending the window moves on without a record. -/
theorem begins (h : Line budget entry before t) (queue : pq.Carrier) :
    ∃ begun : Traversal pq,
      { t with queue, settled := entry.node :: t.settled }.beginNode entry.node = (begun, true) ∧
      begun.queue = queue ∧ begun.settled = entry.node :: before ∧
      begun.visited = before.length ∧ begun.expansions = before.length ∧
      begun.recordBudget = t.recordBudget ∧ begun.pending = t.pending := by
  have hidle : { t with queue, settled := entry.node :: t.settled }.flushSuppressions =
      ({ t with queue, settled := entry.node :: t.settled }, true) :=
    flushSuppressions_idle h.pending
  have hsettled : entry.node :: t.settled = entry.node :: before := by rw [h.settled]
  unfold beginNode
  rw [hidle]
  split
  · exact ⟨_, rfl, rfl, hsettled, h.visited, h.expansions, rfl, rfl⟩
  · exact ⟨_, rfl, rfl, hsettled, h.visited, h.expansions, rfl, rfl⟩

/-- The waiting entry is the next to be settled. -/
theorem settling (h : Line budget entry before t)
    (hroom : before.length < ctx.policy.maxVisited.toNat) (hnode : entry.node < ctx.topo.resources.length) (hset : entry.node ∉ before) :
    settling ctx t = some entry := by
  obtain ⟨queue, hpop, -⟩ := h.pops
  obtain ⟨begun, hbegun, -⟩ := h.begins queue
  unfold Traversal.settling
  rw [hpop]
  dsimp only
  rw [if_neg (h.visited ▸ Nat.not_le_of_lt hroom), if_neg (Nat.not_le_of_lt hnode),
    if_neg (h.settled ▸ hset), hbegun, if_pos rfl]

/-- A settled resource with one edge, which passes every gate, crosses that edge. -/
theorem turn {res : Resource} {c : CrossedEdge} (h : Line budget entry before t)
    (hroom : before.length < ctx.policy.maxVisited.toNat) (hset : entry.node ∉ before)
    (hbudget : before.length < budget) (hexp : Expandable ctx entry res)
    (houts : ctx.topo.outEdgeIndicesAt entry.node = [c.edgeIndex])
    (hedge : ctx.topo.edgeAt c.edgeIndex = some c.edge)
    (hadm : ctx.admits (entry.node :: before) before.length 0 entry c.edgeIndex c.edge =
      .ok c.toIndex)
    (hcarries : ctx.carries entry c.edge = .ok c.carried)
    (hdamps : ctx.damps c.edge c.carried.next = none) :
    ∃ u, Traversal.turn ctx t = .again u ∧
      Line budget (c.arrival entry) (entry.node :: before) u := by
  obtain ⟨queue, hpop, hempty⟩ := h.pops
  have hnode : entry.node < ctx.topo.resources.length :=
    (List.getElem?_eq_some_iff.mp hexp.resourceAt).1
  obtain ⟨begun, hbegun, hqueue, hsettled, hvisited, hexpansions, hrecords, hpending⟩ :=
    h.begins queue
  have hleft : t.recordBudget ≠ 0 := by
    have hspent := h.records
    omega
  obtain ⟨u, hcrossed, hcrosses⟩ := expandEdge_crosses
    (t := (begun.countSettlement entry.depth).recordSettlement ctx entry res) res 0 hedge
    (by rw [← hsettled, ← hexpansions] at hadm; exact hadm) hcarries hdamps (hrecords ▸ hleft)
  refine ⟨u, ?_, ?_⟩
  · unfold Traversal.turn
    rw [hpop]
    dsimp only
    rw [if_neg (h.visited ▸ Nat.not_le_of_lt hroom), if_neg (Nat.not_le_of_lt hnode),
      if_neg (h.settled ▸ hset), hbegun, if_neg (by simp), hexp.resourceAt]
    dsimp only
    unfold expand
    rw [if_neg (Nat.not_le_of_lt hexp.depth), if_neg (by simp [hexp.forwards]), hexp.egress]
    dsimp only
    rw [houts, expandEdges, hcrossed]
    dsimp only
    rw [expandEdges, if_neg Bool.false_ne_true]
  · refine ⟨?_, hcrosses.settled.trans hsettled, ?_, ?_, ?_, fun r => ?_⟩
    · have hperm := pq.contents_push queue (c.arrival entry)
      rw [hempty] at hperm
      rw [hcrosses.queue]
      change pq.contents (pq.push begun.queue _) = _
      rw [hqueue]
      exact List.perm_singleton.mp hperm
    · rw [hcrosses.visited]
      exact congrArg (· + 1) hvisited
    · rw [hcrosses.expansions]
      exact congrArg (· + 1) hexpansions
    · have hspent := hcrosses.records
      have hsame : ((begun.countSettlement entry.depth).recordSettlement ctx entry
        res).recordBudget = t.recordBudget := hrecords
      have hbefore := h.records
      rw [List.length_cons]
      omega
    · rw [hcrosses.pending]
      change (begun.pending r).count = 0
      rw [hpending]
      exact h.pending r

end Line

end Traversal

end Backpressure
