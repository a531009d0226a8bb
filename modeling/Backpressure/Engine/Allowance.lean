import Backpressure.Engine.Budget
import Backpressure.Engine.Served

/-!
# What the budgets of a traversal allow

A traversal that no budget stops settles its resources and crosses its edges in a fixed order. The
budgets of visits and expansions allow the first visits and the first hops of it: the traversal
under them goes the same way, and ends where they do.
-/

namespace Backpressure

open Lib.Turns (Turn)

/-- The policy with the budgets of visits and expansions at the end of their range. -/
def PropagationPolicy.lifted (policy : PropagationPolicy) : PropagationPolicy :=
  { policy with maxVisited := 0xFFFFFFFF, maxExpansions := 0xFFFFFFFF }

/-- The edges gone through after `n` crossings. -/
def beyond : Nat → List Fate → List Fate
  | 0, fates => fates
  | _ + 1, [] => []
  | n + 1, .refused _ _ _ :: rest => beyond (n + 1) rest
  | n + 1, .crossed _ _ :: rest => beyond n rest

/-- A resource asks for more than `n` expansions: it has room in its fan-out, and edges left, when
they are used up. -/
def AsksBeyond (maxFanout n : Nat) (fates : List Fate) : Prop :=
  n < maxFanout ∧ beyond n fates ≠ []

instance (maxFanout n : Nat) (fates : List Fate) : Decidable (AsksBeyond maxFanout n fates) :=
  inferInstanceAs (Decidable (_ ∧ _))

/-- The hops of the visits that a number of visits and expansions allow. No visit follows the one
that asks for more. -/
def allowed (maxFanout : Nat) : Nat → Nat → List (List Fate) → List (List HopRecord)
  | 0, _, _ => []
  | _ + 1, _, [] => []
  | visits + 1, expansions, fates :: rest =>
    (acceptedHops fates).take expansions ::
      if AsksBeyond maxFanout expansions fates then []
      else allowed maxFanout visits (expansions - (acceptedHops fates).length) rest

theorem allowed_nil (maxFanout visits expansions : Nat) :
    allowed maxFanout visits expansions [] = [] := by
  cases visits <;> rfl

namespace TraversalContext

variable (ctx : TraversalContext)

def lifted : TraversalContext := { ctx with policy := ctx.policy.lifted }

/-- The decisions over the edges of a settled resource; none when it is closed. -/
def openFates (settled : List Nat) (expansions : Nat) (entry : QueueEntry) (res : Resource) :
    List Fate :=
  if ctx.authorityHops ≤ entry.depth then []
  else if !res.canForward then []
  else if (ctx.egressFence res.id).isSome then []
  else ctx.fates settled entry res (ctx.topo.outEdgeIndicesAt entry.node) expansions 0

variable {ctx} {settled l : List Nat} {entry : QueueEntry} {res : Resource} {edge : DependencyEdge}
  {expansions fanout i : Nat}

theorem toNat_le_last (n : UInt32) : n.toNat ≤ (0xFFFFFFFF : UInt32).toNat := by
  have hlt := n.toNat_lt
  have hlast : (0xFFFFFFFF : UInt32).toNat = 4294967295 := by decide
  omega

theorem maxVisited_lifted : ctx.policy.maxVisited.toNat ≤ ctx.lifted.policy.maxVisited.toNat :=
  toNat_le_last _

theorem maxExpansions_lifted :
    ctx.policy.maxExpansions.toNat ≤ ctx.lifted.policy.maxExpansions.toNat :=
  toNat_le_last _

/-- With an expansion left, or without room in the fan-out, the budgets change no gate. -/
theorem admits_lifted
    (h : expansions < ctx.policy.maxExpansions.toNat ∨ ctx.policy.maxFanout.toNat ≤ fanout) :
    ctx.lifted.admits settled expansions fanout entry i edge =
      ctx.admits settled expansions fanout entry i edge := by
  unfold admits
  by_cases hfan : ctx.policy.maxFanout.toNat ≤ fanout
  · rw [if_pos hfan]
    exact if_pos hfan
  · have hexp : ¬ctx.policy.maxExpansions.toNat ≤ expansions :=
      Nat.not_le_of_lt (h.resolve_right hfan)
    have hexp' : ¬ctx.lifted.policy.maxExpansions.toNat ≤ expansions := fun hle =>
      hexp (Nat.le_trans maxExpansions_lifted hle)
    rw [if_neg hfan, if_neg hexp]
    exact (if_neg hfan).trans (if_neg hexp')

theorem fateOf_lifted
    (h : expansions < ctx.policy.maxExpansions.toNat ∨ ctx.policy.maxFanout.toNat ≤ fanout) :
    ctx.lifted.fateOf settled expansions fanout entry res i edge =
      ctx.fateOf settled expansions fanout entry res i edge := by
  unfold fateOf
  rw [admits_lifted h]
  rfl

/-- With the expansions used up and room in the fan-out, an edge is refused for them. -/
theorem admits_spent (hexp : ctx.policy.maxExpansions.toNat ≤ expansions)
    (hfan : fanout < ctx.policy.maxFanout.toNat) :
    ctx.admits settled expansions fanout entry i edge =
      .error (.expansionBudgetExhausted, .suppressed) := by
  unfold admits
  rw [if_neg (Nat.not_le_of_lt hfan), if_pos hexp]

theorem expansions_of_crossed {edge' : DependencyEdge} {hop : HopRecord}
    (h : ctx.fateOf settled expansions fanout entry res i edge = .crossed edge' hop) :
    expansions < ctx.policy.maxExpansions.toNat := by
  unfold fateOf at h
  cases hadm : ctx.admits settled expansions fanout entry i edge with
  | error refusal =>
    rw [hadm] at h
    cases h
  | ok toIndex =>
    obtain ⟨_, hadmitted⟩ := Traversal.of_admits hadm
    exact hadmitted.expansions

/-- With the expansions used up no edge is crossed. -/
theorem acceptedHops_spent (hexp : ctx.policy.maxExpansions.toNat ≤ expansions) :
    acceptedHops (ctx.fates settled entry res l expansions fanout) = [] := by
  induction l with
  | nil => rfl
  | cons i rest ih =>
    rw [fates]
    cases hedge : ctx.topo.edgeAt i with
    | none => exact ih
    | some edge =>
      dsimp only
      cases hfate : ctx.fateOf settled expansions fanout entry res i edge with
      | refused edge reason counted => exact ih
      | crossed edge' hop => exact absurd (expansions_of_crossed hfate) (Nat.not_lt_of_le hexp)

/-- What the budget of expansions allows of the crossings of a resource. -/
theorem acceptedHops_take (hle : expansions ≤ ctx.policy.maxExpansions.toNat) :
    acceptedHops (ctx.fates settled entry res l expansions fanout) =
      (acceptedHops (ctx.lifted.fates settled entry res l expansions fanout)).take
        (ctx.policy.maxExpansions.toNat - expansions) := by
  induction l generalizing expansions fanout with
  | nil => exact List.take_nil.symm
  | cons i rest ih =>
    rcases Nat.eq_or_lt_of_le hle with rfl | hlt
    · rw [acceptedHops_spent (Nat.le_refl _), Nat.sub_self, List.take_zero]
    · rw [fates, fates]
      have hedge : ctx.lifted.topo.edgeAt i = ctx.topo.edgeAt i := rfl
      rw [hedge]
      cases ctx.topo.edgeAt i with
      | none => exact ih hle
      | some edge =>
        dsimp only
        rw [fateOf_lifted (.inl hlt)]
        cases ctx.fateOf settled expansions fanout entry res i edge with
        | refused edge reason counted => exact ih hle
        | crossed edge hop =>
          have hstep : ctx.policy.maxExpansions.toNat - expansions =
              ctx.policy.maxExpansions.toNat - (expansions + 1) + 1 := by omega
          dsimp only
          rw [acceptedHops_crossed, acceptedHops_crossed, hstep, List.take_succ_cons,
            ih (Nat.succ_le_of_lt hlt)]

end TraversalContext

namespace Traversal

variable {pq : EntryQueue} {ctx : TraversalContext} {t t' u u' v v' : Traversal pq}
  {entry : QueueEntry} {res : Resource} {edge : DependencyEdge} {l : List Nat} {fanout i : Nat}

/-! ## The same way -/

/-- Two traversals stand at the same point, whatever they have written. -/
structure Same (u v : Traversal pq) : Prop where
  queue : u.queue = v.queue
  settled : u.settled = v.settled
  visited : u.visited = v.visited
  expansions : u.expansions = v.expansions

theorem Same.tidy (h : Same u v) (hu : u.Tidy ctx.topo u') (hv : v.Tidy ctx.topo v') :
    Same u' v' where
  queue := hu.queue.trans (h.queue.trans hv.queue.symm)
  settled := hu.settled.trans (h.settled.trans hv.settled.symm)
  visited := hu.visited.trans (h.visited.trans hv.visited.symm)
  expansions := hu.expansions.trans (h.expansions.trans hv.expansions.symm)

theorem Same.pushQueue (h : Same u v) (e : QueueEntry) : Same (u.pushQueue e) (v.pushQueue e) := by
  unfold Traversal.pushQueue
  rw [h.settled]
  split
  · exact h
  · exact ⟨congrArg (pq.push · e) h.queue, rfl, h.visited, h.expansions⟩

theorem Same.cross {j : Nat} {carried : TraversalContext.Carried} (h : Same u v) :
    Same (u.cross entry res i j carried) (v.cross entry res i j carried) := by
  let forward (w : Traversal pq) : Traversal pq :=
    { w with acc := w.acc.update entry.node res.id fun a => { a with forwarded := true } }
  have hforward : Same (forward u) (forward v) := ⟨h.queue, h.settled, h.visited, h.expansions⟩
  have hpush := hforward.pushQueue (arrival entry i j carried)
  exact ⟨hpush.queue, hpush.settled, hpush.visited, congrArg (· + 1) hpush.expansions⟩

/-- Two traversals do the same with an edge, as long as both can write. -/
inductive SameEdge : EdgeStep pq → EdgeStep pq → Prop
  | refused {a b : Traversal pq} {stop : Bool} :
      Same a b → SameEdge (.refused a stop) (.refused b stop)
  | crossed {a b : Traversal pq} : Same a b → SameEdge (.crossed a) (.crossed b)
  | left {a : Traversal pq} {step : EdgeStep pq} :
      a.truncated = true → SameEdge (.exhausted a) step
  | right {b : Traversal pq} {step : EdgeStep pq} :
      b.truncated = true → SameEdge step (.exhausted b)

/-- Two traversals take the same turn, as long as both can write. -/
inductive SameTurn : Turn (Traversal pq) → Turn (Traversal pq) → Prop
  | again {a b : Traversal pq} : Same a b → SameTurn (.again a) (.again b)
  | stop {a b : Traversal pq} : SameTurn (.stop a) (.stop b)
  | left {r r' : Turn (Traversal pq)} : r.state.truncated = true → SameTurn r r'
  | right {r r' : Turn (Traversal pq)} : r'.state.truncated = true → SameTurn r r'

theorem same_noteEdge (h : Same u v) : Same (noteEdge edge u) (noteEdge edge v) := by
  unfold noteEdge
  split <;> exact ⟨h.queue, h.settled, h.visited, h.expansions⟩

theorem expandEdge_same (h : Same u v) (hroom : u.expansions < ctx.policy.maxExpansions.toNat ∨
      ctx.policy.maxFanout.toNat ≤ fanout) :
    SameEdge (expandEdge ctx entry res fanout u i)
      (expandEdge ctx.lifted entry res fanout v i) := by
  have hconsidered : Same u.countConsidered v.countConsidered :=
    ⟨h.queue, h.settled, h.visited, h.expansions⟩
  cases hedge : ctx.topo.edgeAt i with
  | none =>
    have hedge' : ctx.lifted.topo.edgeAt i = none := hedge
    rw [expandEdge_missing hedge, expandEdge_missing hedge']
    exact .refused hconsidered
  | some edge =>
    have hedge' : ctx.lifted.topo.edgeAt i = some edge := hedge
    have hadmits : ctx.lifted.admits v.settled v.expansions fanout entry i edge =
        ctx.admits u.settled u.expansions fanout entry i edge := by
      rw [← h.settled, ← h.expansions, TraversalContext.admits_lifted hroom]
    cases hadm : ctx.admits u.settled u.expansions fanout entry i edge with
    | error refusal =>
      obtain ⟨reason, verdict⟩ := refusal
      rw [expandEdge_inadmissible hedge hadm,
        expandEdge_inadmissible hedge' (hadmits.trans hadm)]
      exact .refused ⟨h.queue, h.settled, h.visited, h.expansions⟩
    | ok toIndex =>
      cases hcar : ctx.carries entry edge with
      | error refusal =>
        obtain ⟨reason, verdict⟩ := refusal
        have hcar' : ctx.lifted.carries entry edge = .error (reason, verdict) := hcar
        rw [expandEdge_uncarried hedge hadm hcar,
          expandEdge_uncarried hedge' (hadmits.trans hadm) hcar']
        exact .refused ⟨h.queue, h.settled, h.visited, h.expansions⟩
      | ok carried =>
        have hcar' : ctx.lifted.carries entry edge = .ok carried := hcar
        have hnoted : Same (noteEdge edge u) (noteEdge edge v) := same_noteEdge h
        cases hdamp : ctx.damps edge carried.next with
        | some reason =>
          have hdamp' : ctx.lifted.damps edge carried.next = some reason := hdamp
          rw [expandEdge_damped hedge hadm hcar hdamp,
            expandEdge_damped hedge' (hadmits.trans hadm) hcar' hdamp']
          exact .refused ⟨hnoted.queue, hnoted.settled, hnoted.visited, hnoted.expansions⟩
        | none =>
          have hdamp' : ctx.lifted.damps edge carried.next = none := hdamp
          cases hu : (noteEdge edge u).pushHop (acceptedHop entry res edge carried) with
          | none =>
            rw [expandEdge_exhausted hedge hadm hcar hdamp hu]
            exact .left rfl
          | some u' =>
            cases hv : (noteEdge edge v).pushHop (acceptedHop entry res edge carried) with
            | none =>
              rw [expandEdge_exhausted hedge' (hadmits.trans hadm) hcar' hdamp' hv]
              exact .right rfl
            | some v' =>
              rw [expandEdge_crossed hedge hadm hcar hdamp hu,
                expandEdge_crossed hedge' (hadmits.trans hadm) hcar' hdamp' hv]
              obtain ⟨-, rfl⟩ := pushHop_eq_some hu
              obtain ⟨-, rfl⟩ := pushHop_eq_some hv
              refine .crossed (Same.cross ?_)
              exact ⟨hnoted.queue, hnoted.settled, hnoted.visited, hnoted.expansions⟩

/-- A loop over edges that is asked to stop does so. -/
theorem expandEdges_asked :
    ∃ w, expandEdges ctx entry res l fanout true u = .stop w := by
  induction l generalizing fanout u with
  | nil => exact ⟨u, by rw [expandEdges, if_pos rfl]⟩
  | cons i rest ih =>
    rw [expandEdges]
    cases expandEdge ctx entry res fanout u i with
    | refused w stop => exact ih
    | crossed w => exact ih
    | exhausted w => exact ⟨w, rfl⟩

/-- A traversal stops behind a resource that asks for more expansions than are left. -/
theorem expandEdges_beyond {stop : Bool} (hle : u.expansions ≤ ctx.policy.maxExpansions.toNat)
    (hfan : fanout + (ctx.policy.maxExpansions.toNat - u.expansions) < ctx.policy.maxFanout.toNat)
    (hmore : beyond (ctx.policy.maxExpansions.toNat - u.expansions)
      (ctx.lifted.fates u.settled entry res l u.expansions fanout) ≠ []) :
    ∃ w, expandEdges ctx entry res l fanout stop u = .stop w := by
  induction l generalizing fanout stop u with
  | nil =>
    refine absurd ?_ hmore
    rw [TraversalContext.fates]
    cases ctx.policy.maxExpansions.toNat - u.expansions <;> rfl
  | cons i rest ih =>
    rw [expandEdges]
    rw [TraversalContext.fates] at hmore
    cases hedge : ctx.topo.edgeAt i with
    | none =>
      have hedge' : ctx.lifted.topo.edgeAt i = none := hedge
      rw [hedge'] at hmore
      rw [expandEdge_missing hedge]
      exact ih (u := u.countConsidered) hle hfan hmore
    | some edge =>
      have hedge' : ctx.lifted.topo.edgeAt i = some edge := hedge
      rw [hedge'] at hmore
      dsimp only at hmore
      rcases Nat.eq_or_lt_of_le hle with heq | hlt
      · have hfan' : fanout < ctx.policy.maxFanout.toNat :=
          Nat.lt_of_le_of_lt (Nat.le_add_right _ _) hfan
        rw [expandEdge_inadmissible hedge (TraversalContext.admits_spent heq.symm.le hfan')]
        dsimp only
        rw [show (SuppressionReason.expansionBudgetExhausted == .expansionBudgetExhausted) = true
          from rfl, Bool.or_true]
        exact expandEdges_asked
      · have hcase := @expandEdge_decides pq ctx u entry res edge fanout i hedge
        rw [TraversalContext.fateOf_lifted (.inl hlt)] at hmore
        obtain ⟨n, hn⟩ : ∃ n, ctx.policy.maxExpansions.toNat - u.expansions = n + 1 :=
          ⟨ctx.policy.maxExpansions.toNat - u.expansions - 1, by omega⟩
        revert hcase hmore
        generalize ctx.fateOf u.settled u.expansions fanout entry res i edge = fate
        generalize expandEdge ctx entry res fanout u i = step
        intro hmore hcase
        rw [hn] at hmore
        cases hcase with
        | exhausted => exact ⟨_, rfl⟩
        | @refused _ _ _ _ w hsettled hexpansions =>
          refine ih (u := w) (hexpansions ▸ hle) (hexpansions ▸ hfan) ?_
          rw [hexpansions, hn, hsettled]
          exact hmore
        | @crossed _ w _ hsettled hexpansions =>
          refine ih (u := w) (by omega) (by omega) ?_
          rw [hexpansions, hsettled,
            show ctx.policy.maxExpansions.toNat - (u.expansions + 1) = n by omega]
          exact hmore

/-- A resource that asks for no more expansions than are left is gone through the same way. -/
theorem expandEdges_same {stop : Bool} (h : Same u v)
    (hle : u.expansions ≤ ctx.policy.maxExpansions.toNat)
    (henough :
      fanout + (ctx.policy.maxExpansions.toNat - u.expansions) < ctx.policy.maxFanout.toNat →
      beyond (ctx.policy.maxExpansions.toNat - u.expansions)
        (ctx.lifted.fates u.settled entry res l u.expansions fanout) = []) :
    SameTurn (expandEdges ctx entry res l fanout stop u)
      (expandEdges ctx.lifted entry res l fanout stop v) := by
  induction l generalizing fanout stop u v with
  | nil =>
    rw [expandEdges, expandEdges]
    cases stop with
    | true => exact .stop
    | false => exact .again h
  | cons i rest ih =>
    rw [TraversalContext.fates] at henough
    rw [expandEdges, expandEdges]
    cases hedge : ctx.topo.edgeAt i with
    | none =>
      have hedge' : ctx.lifted.topo.edgeAt i = none := hedge
      rw [hedge'] at henough
      rw [expandEdge_missing hedge, expandEdge_missing hedge']
      have hconsidered : Same u.countConsidered v.countConsidered :=
        ⟨h.queue, h.settled, h.visited, h.expansions⟩
      exact ih hconsidered hle henough
    | some edge =>
      have hedge' : ctx.lifted.topo.edgeAt i = some edge := hedge
      rw [hedge'] at henough
      dsimp only at henough
      have hroom : u.expansions < ctx.policy.maxExpansions.toNat ∨
          ctx.policy.maxFanout.toNat ≤ fanout := by
        by_contra hnot
        obtain ⟨hspent, hfan⟩ := not_or.mp hnot
        have hzero : ctx.policy.maxExpansions.toNat - u.expansions = 0 := by omega
        rw [hzero] at henough
        have hnil := henough (by omega)
        rw [beyond] at hnil
        split at hnil <;> cases hnil
      have hsame := @expandEdge_same pq ctx u v entry res fanout i h hroom
      have hcase := @expandEdge_decides pq ctx u entry res edge fanout i hedge
      have hleft : ∀ {edge' hop},
          ctx.fateOf u.settled u.expansions fanout entry res i edge = .crossed edge' hop →
            u.expansions < ctx.policy.maxExpansions.toNat :=
        TraversalContext.expansions_of_crossed
      rw [TraversalContext.fateOf_lifted hroom] at henough
      revert hsame hcase hleft henough
      generalize ctx.fateOf u.settled u.expansions fanout entry res i edge = fate
      generalize expandEdge ctx entry res fanout u i = step
      generalize expandEdge ctx.lifted entry res fanout v i = step'
      intro henough hsame hcase hleft
      cases hsame with
      | left htrunc => exact .left htrunc
      | right htrunc => exact .right htrunc
      | refused hnext =>
        cases hcase with
        | refused hsettled hexpansions =>
          refine ih hnext (hexpansions ▸ hle) fun hfan => ?_
          rw [hexpansions] at hfan ⊢
          rw [hsettled]
          have hrest := henough hfan
          cases hn : ctx.policy.maxExpansions.toNat - u.expansions with
          | zero =>
            rw [hn] at hrest
            cases hrest
          | succ n =>
            rw [hn] at hrest
            exact hrest
      | crossed hnext =>
        cases hcase with
        | crossed _ hsettled hexpansions =>
          have hlt := hleft rfl
          obtain ⟨n, hn⟩ : ∃ n, ctx.policy.maxExpansions.toNat - u.expansions = n + 1 :=
            ⟨ctx.policy.maxExpansions.toNat - u.expansions - 1, by omega⟩
          have hn' : ctx.policy.maxExpansions.toNat - (u.expansions + 1) = n := by omega
          refine ih hnext (by omega) fun hfan => ?_
          rw [hexpansions] at hfan ⊢
          rw [hsettled, hn']
          rw [hn'] at hfan
          rw [hn] at henough
          exact henough (by omega)

theorem beyond_nil (n : Nat) : beyond n [] = [] := by
  cases n <;> rfl

/-- A resource that asks for no more expansions than are left is expanded the same way. -/
theorem expand_same (h : Same u v) (hres : ctx.topo.resourceAt entry.node = some res)
    (hle : u.expansions ≤ ctx.policy.maxExpansions.toNat)
    (henough : ¬AsksBeyond ctx.policy.maxFanout.toNat
      (ctx.policy.maxExpansions.toNat - u.expansions)
      (ctx.lifted.openFates u.settled u.expansions entry res)) :
    SameTurn (u.expand ctx entry res) (v.expand ctx.lifted entry res) := by
  have hres' : ctx.lifted.topo.resourceAt entry.node = some res := hres
  unfold TraversalContext.openFates at henough
  unfold expand
  by_cases hdepth : ctx.authorityHops ≤ entry.depth
  · have hdepth' : ctx.lifted.authorityHops ≤ entry.depth := hdepth
    rw [if_pos hdepth, if_pos hdepth']
    have hu : Tidy ctx.topo u (u.suppressAll ctx entry.node entry.depth .maxHops) :=
      tidy_suppressAll
    exact .again (h.tidy hu tidy_suppressAll)
  · have hdepth' : ¬ctx.lifted.authorityHops ≤ entry.depth := hdepth
    rw [if_neg hdepth, if_neg hdepth']
    rw [if_neg hdepth'] at henough
    by_cases hforward : (!res.canForward) = true
    · rw [if_pos hforward, if_pos hforward]
      exact .again (h.tidy ((tidy_block hres).trans tidy_suppressAll)
        ((tidy_block hres').trans tidy_suppressAll))
    · rw [if_neg hforward, if_neg hforward]
      rw [if_neg hforward] at henough
      cases hfence : ctx.egressFence res.id with
      | some fence =>
        have hfence' : ctx.lifted.egressFence res.id = some fence := hfence
        rw [hfence']
        exact .again (h.tidy ((tidy_fenceOff hres).trans tidy_suppressAll)
          ((tidy_fenceOff hres').trans tidy_suppressAll))
      | none =>
        have hfence' : ctx.lifted.egressFence res.id = none := hfence
        rw [hfence', if_neg (by exact Bool.false_ne_true)] at henough
        rw [hfence']
        refine expandEdges_same h hle fun hfan => ?_
        by_contra hmore
        exact henough ⟨by omega, hmore⟩

/-- Behind a resource that asks for more expansions than are left the loop stops. -/
theorem expand_beyond (hle : u.expansions ≤ ctx.policy.maxExpansions.toNat)
    (hmore : AsksBeyond ctx.policy.maxFanout.toNat
      (ctx.policy.maxExpansions.toNat - u.expansions)
      (ctx.lifted.openFates u.settled u.expansions entry res)) :
    ∃ w, u.expand ctx entry res = .stop w := by
  obtain ⟨hfan, hmore⟩ := hmore
  unfold TraversalContext.openFates at hmore
  unfold expand
  by_cases hdepth : ctx.authorityHops ≤ entry.depth
  · rw [if_pos (by exact hdepth)] at hmore
    exact absurd (beyond_nil _) hmore
  · rw [if_neg (by exact hdepth)] at hmore
    rw [if_neg hdepth]
    by_cases hforward : (!res.canForward) = true
    · rw [if_pos hforward] at hmore
      exact absurd (beyond_nil _) hmore
    · rw [if_neg hforward] at hmore
      rw [if_neg hforward]
      cases hfence : ctx.egressFence res.id with
      | some fence =>
        have hfence' : ctx.lifted.egressFence res.id = some fence := hfence
        rw [hfence', if_pos (by exact rfl)] at hmore
        exact absurd (beyond_nil _) hmore
      | none =>
        have hfence' : ctx.lifted.egressFence res.id = none := hfence
        rw [hfence', if_neg (by exact Bool.false_ne_true)] at hmore
        exact expandEdges_beyond hle (by omega) hmore

/-- A closed resource crosses nothing. -/
theorem acceptedHops_handledAt {settled : List Nat} {expansions : Nat} :
    acceptedHops (ctx.handledAt settled expansions entry res).fates =
      acceptedHops (ctx.openFates settled expansions entry res) := by
  unfold TraversalContext.handledAt TraversalContext.openFates
  by_cases hdepth : ctx.authorityHops ≤ entry.depth
  · rw [if_pos hdepth, if_pos hdepth, acceptedHops_closedFates]
    rfl
  · rw [if_neg hdepth, if_neg hdepth]
    by_cases hforward : (!res.canForward) = true
    · rw [if_pos hforward, if_pos hforward, acceptedHops_closedFates]
      rfl
    · rw [if_neg hforward, if_neg hforward]
      by_cases hfence : (ctx.egressFence res.id).isSome = true
      · rw [if_pos hfence, if_pos hfence, acceptedHops_closedFates]
        rfl
      · rw [if_neg hfence, if_neg hfence]

/-- The crossings of an untruncated expansion are what the budget allows of those that it would
make without one. -/
theorem crossedFrom_take (hkept : (u.expand ctx entry res).state.truncated = false)
    (hle : u.expansions ≤ ctx.policy.maxExpansions.toNat) :
    (u.crossedFrom ctx entry res).map (CrossedEdge.hop entry res) =
      (acceptedHops (ctx.lifted.openFates u.settled u.expansions entry res)).take
        (ctx.policy.maxExpansions.toNat - u.expansions) := by
  have hopen : ctx.lifted.openFates u.settled u.expansions entry res =
      if ctx.authorityHops ≤ entry.depth then []
      else if !res.canForward then []
      else if (ctx.egressFence res.id).isSome then []
      else ctx.lifted.fates u.settled entry res (ctx.topo.outEdgeIndicesAt entry.node)
        u.expansions 0 := rfl
  rw [← (expand_decided hkept).1, acceptedHops_handledAt, hopen]
  unfold TraversalContext.openFates
  by_cases hdepth : ctx.authorityHops ≤ entry.depth
  · rw [if_pos hdepth, if_pos hdepth]
    exact List.take_nil.symm
  · rw [if_neg hdepth, if_neg hdepth]
    by_cases hforward : (!res.canForward) = true
    · rw [if_pos hforward, if_pos hforward]
      exact List.take_nil.symm
    · rw [if_neg hforward, if_neg hforward]
      by_cases hfence : (ctx.egressFence res.id).isSome = true
      · rw [if_pos hfence, if_pos hfence]
        exact List.take_nil.symm
      · rw [if_neg hfence, if_neg hfence]
        exact TraversalContext.acceptedHops_take hle

/-! ## The turns of both loops -/

/-- The decisions over the edges of the resource that a turn settles. -/
def asking (ctx : TraversalContext) (t : Traversal pq) : Option (List Fate) :=
  (settling ctx t).bind fun entry =>
    (ctx.topo.resourceAt entry.node).map
      (ctx.openFates (entry.node :: t.settled) t.expansions entry)

/-- What each visit of a traversal asks of the gates. -/
def asked (ctx : TraversalContext) (t : Traversal pq) : List (List Fate) :=
  match t.enter ctx with
  | .error _ => []
  | .ok seeded => Lib.Turns.log (asking ctx) (turn ctx) (fuel ctx) seeded

/-- A turn of a traversal beside the same turn without budgets. -/
inductive Beside (ctx : TraversalContext) (u v : Traversal pq) : Prop
  | idle : settling ctx u = none → settling ctx.lifted v = none →
      (turn ctx u).state.visited = u.visited → (turn ctx u).state.expansions = u.expansions →
      SameTurn (turn ctx u) (turn ctx.lifted v) → Beside ctx u v
  | full {w : Traversal pq} : ctx.policy.maxVisited.toNat ≤ u.visited → settling ctx u = none →
      turn ctx u = .stop w → Beside ctx u v
  | visit {x : Visit} {fates : List Fate} : visiting ctx u = some x →
      asking ctx.lifted v = some fates → u.visited < ctx.policy.maxVisited.toNat →
      (turn ctx u).state.visited = u.visited + 1 →
      (turn ctx u).state.expansions = u.expansions + x.crossed.length →
      x.hops = (acceptedHops fates).take (ctx.policy.maxExpansions.toNat - u.expansions) →
      (if AsksBeyond ctx.policy.maxFanout.toNat
          (ctx.policy.maxExpansions.toNat - u.expansions) fates
        then ∃ w, turn ctx u = .stop w else SameTurn (turn ctx u) (turn ctx.lifted v)) →
      Beside ctx u v

/-- A traversal without a visit left stops. -/
theorem turn_full (hfull : ctx.policy.maxVisited.toNat ≤ u.visited) :
    settling ctx u = none ∧ ∃ w, turn ctx u = .stop w := by
  unfold settling turn
  cases pq.pop u.queue with
  | none => exact ⟨rfl, u, rfl⟩
  | some popped =>
    dsimp only
    rw [if_pos hfull, if_pos hfull]
    exact ⟨rfl, _, rfl⟩

theorem settling_skip {queue : pq.Carrier} (hpop : pq.pop u.queue = some (entry, queue))
    (hskip : ctx.topo.resources.length ≤ entry.node ∨ entry.node ∈ u.settled) :
    settling ctx u = none := by
  unfold settling
  rw [hpop]
  dsimp only
  split
  · rfl
  · split
    · rfl
    case isFalse hlen => rw [if_pos (hskip.resolve_left hlen)]

/-- An untruncated turn that pops an entry for an open resource settles it. -/
theorem settling_of_kept {queue : pq.Carrier} (hpop : pq.pop u.queue = some (entry, queue))
    (hroom : u.visited < ctx.policy.maxVisited.toNat)
    (hlen : entry.node < ctx.topo.resources.length) (hset : entry.node ∉ u.settled)
    (hkept : (turn ctx u).state.truncated = false) : settling ctx u = some entry := by
  unfold settling
  unfold turn at hkept
  rw [hpop] at hkept ⊢
  dsimp only at hkept ⊢
  rw [if_neg (Nat.not_le_of_lt hroom), if_neg (Nat.not_le_of_lt hlen), if_neg hset] at hkept ⊢
  split
  · rfl
  case isFalse hfull =>
    rw [if_pos (by simpa using hfull)] at hkept
    cases hkept

/-- Where a turn settles nothing, the turn without budgets settles nothing either. -/
theorem beside_idle (h : Same u v) (hroom : u.visited < ctx.policy.maxVisited.toNat)
    (hroom' : v.visited < ctx.lifted.policy.maxVisited.toNat) (hs : settling ctx u = none)
    (hu : (turn ctx u).state.truncated = false) : Beside ctx u v := by
  have hidle := turn_idles hs
  generalize hturn : turn ctx u = r at hidle hu
  cases hidle with
  | empty hpop =>
    have hpop' : pq.pop v.queue = none := h.queue ▸ hpop
    have hsettling : settling ctx.lifted v = none := by
      unfold settling
      rw [hpop']
    refine .idle hs hsettling (hturn ▸ rfl) (hturn ▸ rfl) ?_
    rw [hturn, turn_empty hpop']
    exact .stop
  | visited _ hvis => exact absurd hvis (Nat.not_le_of_lt hroom)
  | skip hpop hskip =>
    have hskip' := hskip
    rw [h.settled] at hskip'
    have hpop' := hpop
    rw [h.queue] at hpop'
    refine .idle hs (settling_skip hpop' hskip') (hturn ▸ rfl) (hturn ▸ rfl) ?_
    rw [hturn, turn_skip hpop' hroom' hskip']
    exact .again ⟨rfl, h.settled, h.visited, h.expansions⟩
  | abandon _ _ _ _ _ htrunc =>
    rw [Turn.state, htrunc] at hu
    cases hu

/-- Where a turn settles a resource, the turn without budgets settles it too. -/
theorem beside_visit {e : QueueEntry} (h : Same u v)
    (hle : u.expansions ≤ ctx.policy.maxExpansions.toNat)
    (hroom : u.visited < ctx.policy.maxVisited.toNat)
    (hroom' : v.visited < ctx.lifted.policy.maxVisited.toNat) (hs : settling ctx u = some e)
    (hu : (turn ctx u).state.truncated = false)
    (hv : (turn ctx.lifted v).state.truncated = false) : Beside ctx u v := by
  obtain ⟨queue, res, hpop, hres, hset, -, -, hturn⟩ := turn_of_settling hs
  have hlen : e.node < ctx.topo.resources.length := (List.getElem?_eq_some_iff.mp hres).1
  have hpop' : pq.pop v.queue = some (e, queue) := h.queue ▸ hpop
  have hs' : settling ctx.lifted v = some e :=
    settling_of_kept hpop' hroom' hlen (h.settled ▸ hset) hv
  obtain ⟨queue', res', hpop'', hres', -, -, -, hturn'⟩ := turn_of_settling hs'
  obtain rfl : queue' = queue := by
    rw [hpop'] at hpop''
    cases hpop''
    rfl
  obtain rfl : res' = res := Option.some.inj (hres'.symm.trans hres)
  have hopened : Tidy ctx.topo (u.settle ctx e queue' res') (u.opened ctx e queue' res') :=
    tidy_settle
  have hopened' : Tidy ctx.lifted.topo (v.settle ctx.lifted e queue' res')
    (v.opened ctx.lifted e queue' res') := tidy_settle
  have hsettle : Same (u.settle ctx e queue' res') (v.settle ctx.lifted e queue' res') :=
    ⟨rfl, congrArg (e.node :: ·) h.settled, congrArg (· + 1) h.visited, h.expansions⟩
  have hsame : Same (u.opened ctx e queue' res') (v.opened ctx.lifted e queue' res') :=
    hsettle.tidy hopened hopened'
  have hexpansions : (u.opened ctx e queue' res').expansions = u.expansions := hopened.expansions
  have hsettled : (u.opened ctx e queue' res').settled = e.node :: u.settled := hopened.settled
  have hvisiting : visiting ctx u =
      some ⟨e, res', (u.opened ctx e queue' res').crossedFrom ctx e res'⟩ := by
    unfold visiting
    rw [hs, Option.bind_some, hpop, Option.bind_some, hres]
    rfl
  have hasking : asking ctx.lifted v =
      some (ctx.lifted.openFates (e.node :: u.settled) u.expansions e res') := by
    unfold asking
    rw [hs', Option.bind_some, hres', h.settled, h.expansions]
    rfl
  obtain ⟨x, queue, hx, -, hmade⟩ := visiting_of_settling hs
  obtain rfl := Option.some.inj (hx.symm.trans hvisiting)
  refine .visit hvisiting hasking hroom hmade.visited hmade.expansions ?_ ?_
  · rw [hturn] at hu
    have htake := crossedFrom_take hu (hexpansions ▸ hle)
    rw [hsettled, hexpansions] at htake
    exact htake
  · rw [hturn, hturn']
    split
    case isTrue hmore =>
      refine expand_beyond (hexpansions ▸ hle) ?_
      rw [hexpansions, hsettled]
      exact hmore
    case isFalse henough =>
      refine expand_same hsame hres (hexpansions ▸ hle) ?_
      rw [hexpansions, hsettled]
      exact henough

theorem beside_turn (h : Same u v) (hle : u.expansions ≤ ctx.policy.maxExpansions.toNat)
    (hu : (turn ctx u).state.truncated = false)
    (hv : (turn ctx.lifted v).state.truncated = false) : Beside ctx u v := by
  by_cases hfull : ctx.policy.maxVisited.toNat ≤ u.visited
  · obtain ⟨hs, w, hturn⟩ := turn_full hfull
    exact .full hfull hs hturn
  · have hroom := Nat.lt_of_not_le hfull
    have hroom' : v.visited < ctx.lifted.policy.maxVisited.toNat :=
      h.visited ▸ Nat.lt_of_lt_of_le hroom TraversalContext.maxVisited_lifted
    cases hs : settling ctx u with
    | none => exact beside_idle h hroom hroom' hs hu
    | some e => exact beside_visit h hle hroom hroom' hs hu hv

/-- No turn of a loop that ends untruncated is truncated. -/
theorem kept_turn {k : Nat} (h : (Lib.Turns.run (turn ctx) (k + 1) u).truncated = false) :
    (turn ctx u).state.truncated = false := by
  by_contra htrunc
  have hstate := Bool.eq_true_of_not_eq_false htrunc
  rw [Lib.Turns.run] at h
  cases hturn : turn ctx u with
  | stop w =>
    rw [hturn] at h hstate
    exact absurd (hstate.symm.trans h) (by decide)
  | again w =>
    rw [hturn] at h hstate
    have hrun : (Lib.Turns.run (turn ctx) k w).truncated = true :=
      Lib.Meter.exhausted_run (M := meter) (fun _ => truncated_turn) hstate
    exact absurd (hrun.symm.trans h) (by decide)

/-- The visits of a loop are those that the budgets allow of the loop without them. -/
theorem allowed_log {k m : Nat} (h : Same u v) (hle : u.expansions ≤ ctx.policy.maxExpansions.toNat)
    (hk : measure ctx u < k) (hm : measure ctx.lifted v < m)
    (hu : (Lib.Turns.run (turn ctx) k u).truncated = false)
    (hv : (Lib.Turns.run (turn ctx.lifted) m v).truncated = false) :
    (Lib.Turns.log (visiting ctx) (turn ctx) k u).map Visit.hops =
      allowed ctx.policy.maxFanout.toNat (ctx.policy.maxVisited.toNat - u.visited)
        (ctx.policy.maxExpansions.toNat - u.expansions)
        (Lib.Turns.log (asking ctx.lifted) (turn ctx.lifted) m v) := by
  induction k generalizing u v m with
  | zero => exact absurd hk (Nat.not_lt_zero _)
  | succ k ih =>
    obtain ⟨m, rfl⟩ : ∃ m', m = m' + 1 := ⟨m - 1, by omega⟩
    have hkept := kept_turn hu
    have hkept' := kept_turn hv
    have hexpansions : (turn ctx u).state.expansions ≤ ctx.policy.maxExpansions.toNat :=
      (turn_steps ctx u).invariant
        (P := fun _ w => w.expansions ≤ ctx.policy.maxExpansions.toNat) hle
        fun _ _ _ _ hw hstep => expansions_step hw hstep
    rw [Lib.Turns.run] at hu hv
    rw [Lib.Turns.log, Lib.Turns.log]
    -- what follows a turn that both loops take
    have hnext : ∀ {u' v' : Traversal pq}, turn ctx u = .again u' →
        turn ctx.lifted v = .again v' → Same u' v' →
        (Lib.Turns.log (visiting ctx) (turn ctx) k u').map Visit.hops =
          allowed ctx.policy.maxFanout.toNat (ctx.policy.maxVisited.toNat - u'.visited)
            (ctx.policy.maxExpansions.toNat - u'.expansions)
            (Lib.Turns.log (asking ctx.lifted) (turn ctx.lifted) m v') := by
      intro u' v' hturn hturn' hsame
      rw [hturn] at hu hexpansions
      rw [hturn'] at hv
      have hdec := measure_turn hturn
      have hdec' := measure_turn hturn'
      exact ih hsame hexpansions (by omega) (by omega) hu hv
    cases beside_turn h hle hkept hkept' with
    | idle hs hs' hvisited hcrossed hsame =>
      have hask : asking ctx.lifted v = none := by
        unfold asking
        rw [hs']
        rfl
      rw [visiting_of_idle hs, hask, Option.toList_none, Option.toList_none, List.nil_append,
        List.nil_append]
      generalize hr : turn ctx u = r at hsame hkept hvisited hcrossed
      generalize hr' : turn ctx.lifted v = r' at hsame hkept'
      cases hsame with
      | again hsame =>
        rw [← hvisited, ← hcrossed]
        exact hnext hr hr' hsame
      | stop => exact (allowed_nil _ _ _).symm
      | left htrunc => exact absurd (htrunc.symm.trans hkept) (by decide)
      | right htrunc => exact absurd (htrunc.symm.trans hkept') (by decide)
    | full hfull hs hturn =>
      rw [visiting_of_idle hs, hturn, Nat.sub_eq_zero_of_le hfull]
      rfl
    | @visit x fates hx hask hroom hvisited hcrossed hhops hrest =>
      obtain ⟨n, hn⟩ : ∃ n, ctx.policy.maxVisited.toNat - u.visited = n + 1 :=
        ⟨ctx.policy.maxVisited.toNat - u.visited - 1, by omega⟩
      have hlength : x.crossed.length =
          min (ctx.policy.maxExpansions.toNat - u.expansions) (acceptedHops fates).length := by
        rw [← List.length_take, ← hhops, Visit.hops, List.length_map]
      rw [hx, hask, Option.toList_some, Option.toList_some, List.singleton_append,
        List.singleton_append, List.map_cons, hhops, hn, allowed]
      congr 1
      split at hrest
      case isTrue hmore =>
        obtain ⟨w, hturn⟩ := hrest
        rw [hturn, if_pos hmore]
        rfl
      case isFalse henough =>
        rw [if_neg henough]
        generalize hr : turn ctx u = r at hrest hkept hvisited hcrossed
        generalize hr' : turn ctx.lifted v = r' at hrest hkept'
        cases hrest with
        | @again u' v' hsame =>
          have hvisited' : u'.visited = u.visited + 1 := hvisited
          have hcrossed' : u'.expansions = u.expansions + x.crossed.length := hcrossed
          have hlog := hnext hr hr' hsame
          rw [hvisited', hcrossed',
            show ctx.policy.maxVisited.toNat - (u.visited + 1) = n by omega,
            show ctx.policy.maxExpansions.toNat - (u.expansions + x.crossed.length) =
              ctx.policy.maxExpansions.toNat - u.expansions - (acceptedHops fates).length by
              omega] at hlog
          exact hlog
        | stop => exact (allowed_nil _ _ _).symm
        | left htrunc => exact absurd (htrunc.symm.trans hkept) (by decide)
        | right htrunc => exact absurd (htrunc.symm.trans hkept') (by decide)

/-- What each visit asks of the gates when no budget stops the traversal. -/
def freelyAsked (ctx : TraversalContext) (t : Traversal pq) : List (List Fate) :=
  asked ctx.lifted (t.grant (ampleRecords ctx.lifted))

theorem enter_kept (hkept : (t.run ctx).2.truncated = false) :
    ¬enterMeter.exhausted (t.enter ctx) := by
  intro hcut
  have hend : runMeter.exhausted (runAfter ctx (t.enter ctx)) := exhausted_runAfter hcut
  rw [← run_eq] at hend
  exact absurd (hend.symm.trans hkept) (by decide)

/-- A start that is not cut short is the same under every such budget of records. -/
theorem enter_grant {b : Nat} (hkept : ¬enterMeter.exhausted (t.enter ctx))
    (hkept' : ¬enterMeter.exhausted ((t.grant b).enter ctx)) :
    (∃ done done', t.enter ctx = .error done ∧ (t.grant b).enter ctx = .error done') ∨
      ∃ s s', t.enter ctx = .ok s ∧ (t.grant b).enter ctx = .ok s' ∧ Same s s' := by
  obtain ⟨k, r, hwrites, -⟩ := enter_writes ctx t
  have henough : ∀ b, ¬enterMeter.exhausted ((t.grant b).enter ctx) →
      (t.grant b).enter ctx = enterMeter.set r (b - k) := fun b hb =>
    hwrites.enough b (Nat.le_of_not_lt fun hlt => hb (hwrites.short b hlt))
  have hown : t.enter ctx = enterMeter.set r (t.recordBudget - k) := henough t.recordBudget hkept
  rw [hown, henough b hkept']
  cases r with
  | error done => exact .inl ⟨_, _, rfl, rfl⟩
  | ok s => exact .inr ⟨_, _, rfl, rfl, rfl, rfl, rfl, rfl⟩

/-- An untruncated traversal makes the visits that its budgets allow. -/
theorem visits_allowed (fresh : t.Fresh) (hrecords : t.records = 0)
    (hkept : (t.run ctx).2.truncated = false) :
    (visits ctx t).map Visit.hops = allowed ctx.policy.maxFanout.toNat
      ctx.policy.maxVisited.toNat ctx.policy.maxExpansions.toNat (freelyAsked ctx t) := by
  have hstart : t.truncated = false := by
    cases htrunc : t.truncated with
    | false => rfl
    | true =>
      have hend := runCase_truncated (run_cases ctx fresh) htrunc
      exact absurd (hend.symm.trans hkept) (by decide)
  have hample := @truncated_ample pq ctx.lifted t fresh hrecords hstart
  have hcut : ¬enterMeter.exhausted ((t.grant (ampleRecords ctx.lifted)).enter ctx.lifted) :=
    enter_kept hample
  unfold visits freelyAsked asked
  rcases enter_grant (enter_kept hkept) hcut with
    ⟨done, done', henter, henter'⟩ | ⟨s, s', henter, henter', hsame⟩
  · have hlifted : (t.grant (ampleRecords ctx.lifted)).enter ctx.lifted = .error done' := henter'
    rw [henter, hlifted]
    exact (allowed_nil _ _ _).symm
  · have hlifted : (t.grant (ampleRecords ctx.lifted)).enter ctx.lifted = .ok s' := henter'
    have hrun := congrArg (fun r => r.2.truncated) (run_of_enter henter).1
    have hrun' := congrArg (fun r => r.2.truncated) (run_of_enter hlifted).1
    have hflush : ∀ w : Traversal pq,
        w.flushOrTruncate.truncated = false → w.truncated = false := by
      intro w hw
      have htidy : Tidy ctx.topo w w.flushOrTruncate := tidy_flushOrTruncate
      cases htrunc : w.truncated with
      | false => rfl
      | true => exact absurd ((htidy.truncated htrunc).symm.trans hw) (by decide)
    have hcases := enter_cases ctx fresh
    rw [henter] at hcases
    rw [henter, hlifted]
    cases hcases with
    | seeded _ _ _ htidy =>
      obtain ⟨-, hsize⟩ := seeded_queue fresh htidy
      have hvisited : s.visited = 0 := htidy.visited.trans fresh.visited
      have hexpansions : s.expansions = 0 := htidy.expansions.trans fresh.expansions
      have hlog := allowed_log (k := fuel ctx) (m := fuel ctx.lifted) hsame
        (hexpansions ▸ Nat.zero_le _) ?_ ?_ (hflush _ (hrun.symm.trans hkept))
        (hflush _ (hrun'.symm.trans hample))
      · rw [hvisited, hexpansions] at hlog
        exact hlog
      · unfold measure fuel
        omega
      · unfold measure fuel
        rw [← hsame.queue, ← hsame.expansions]
        omega

end Traversal

end Backpressure
