import Backpressure.Engine.Frame
import Backpressure.Engine.Refusals

/-!
# What the accumulators add up to

Each live signal is traversed by itself; the accumulator of a resource is then the fold of the
arrivals there, signal by signal, whatever the traversals have in common.
-/

namespace Backpressure

open Lib.Turns (Turn)

/-- A signal has settled the resource at an index. -/
structure Arrival where
  node : Nat
  potential : Potential
  contribution : Contribution

/-- What a settlement writes to an accumulator and nothing else does. -/
structure Tally where
  received : Bool := false
  bestPotential : Potential := .zero
  bestSource : SourceId := {}
  contributions : List Contribution := []

namespace Tally

def of (a : NodeAccumulator) : Tally := ⟨a.received, a.bestPotential, a.bestSource, a.contributions⟩

/-- One more arrival: a better one leads, and the first sixteen are kept. -/
def arrive (t : Tally) (x : Arrival) : Tally :=
  let better := !t.received || decide (t.bestPotential.raw < x.potential.raw)
  { received := true
    bestPotential := if better then x.potential else t.bestPotential
    bestSource := if better then x.contribution.source else t.bestSource
    contributions := if t.contributions.length < kMaxContributionsPerNode
      then t.contributions ++ [x.contribution] else t.contributions }

/-- Arrivals anywhere, each counted at its own index. -/
def arriveAt (ts : Nat → Tally) (x : Arrival) : Nat → Tally :=
  Function.update ts x.node ((ts x.node).arrive x)

theorem arriveAt_of_eq {ts : Nat → Tally} {x : Arrival} {i : Nat} (h : x.node = i) :
    arriveAt ts x i = (ts i).arrive x := by
  subst h
  exact Function.update_self _ _ _

theorem arriveAt_of_ne {ts : Nat → Tally} {x : Arrival} {i : Nat} (h : x.node ≠ i) :
    arriveAt ts x i = ts i := Function.update_of_ne (Ne.symm h) _ _

theorem foldl_arriveAt (l : List Arrival) (ts : Nat → Tally) (i : Nat) :
    l.foldl arriveAt ts i = (l.filter fun x => x.node = i).foldl arrive (ts i) := by
  induction l generalizing ts with
  | nil => rfl
  | cons x rest ih =>
    rw [List.foldl_cons, ih]
    by_cases hi : x.node = i
    · rw [List.filter_cons_of_pos (by simpa using hi), List.foldl_cons, arriveAt_of_eq hi]
    · rw [List.filter_cons_of_neg (by simpa using hi), arriveAt_of_ne hi]

/-- The first of the strongest arrivals. -/
def leader (x : Arrival) (rest : List Arrival) : Arrival :=
  rest.foldl (fun best y => if best.potential.raw < y.potential.raw then y else best) x

/-- Arrivals at a tally that has received lead it from the one leading so far. -/
theorem foldl_arrive_received (rest : List Arrival) {t : Tally} {x : Arrival}
    (hreceived : t.received = true) (hpotential : t.bestPotential = x.potential)
    (hsource : t.bestSource = x.contribution.source) :
    (rest.foldl arrive t).received = true ∧
      (rest.foldl arrive t).bestSource = (leader x rest).contribution.source := by
  unfold leader
  induction rest generalizing t x with
  | nil => exact ⟨hreceived, hsource⟩
  | cons y rest ih =>
    rw [List.foldl_cons, List.foldl_cons]
    refine ih rfl ?_ ?_
    · unfold arrive
      rw [hreceived, hpotential]
      by_cases hlt : x.potential.raw < y.potential.raw <;> simp [hlt]
    · unfold arrive
      rw [hreceived, hpotential]
      by_cases hlt : x.potential.raw < y.potential.raw <;> simp [hlt, hsource]

theorem foldl_arrive_contributions (l : List Arrival) (t : Tally)
    (h : t.contributions.length ≤ kMaxContributionsPerNode) :
    (l.foldl arrive t).contributions =
      (t.contributions ++ l.map Arrival.contribution).take kMaxContributionsPerNode := by
  induction l generalizing t with
  | nil =>
    rw [List.map_nil, List.append_nil, List.take_of_length_le h]
    rfl
  | cons x rest ih =>
    rw [List.foldl_cons]
    by_cases hroom : t.contributions.length < kMaxContributionsPerNode
    · have hnext : (t.arrive x).contributions = t.contributions ++ [x.contribution] := if_pos hroom
      rw [ih _ (by rw [hnext, List.length_append]; exact hroom), hnext, List.map_cons,
        List.append_assoc, List.singleton_append]
    · have hnext : (t.arrive x).contributions = t.contributions := if_neg hroom
      have hfull : t.contributions.length = kMaxContributionsPerNode :=
        Nat.le_antisymm h (Nat.le_of_not_lt hroom)
      rw [ih _ (by rw [hnext]; exact h), hnext, ← hfull, List.take_left', List.take_left'] <;> rfl

/-- What some arrivals at one resource add up to. -/
theorem foldl_arrive (x : Arrival) (rest : List Arrival) :
    ((x :: rest).foldl arrive {}).received = true ∧
      ((x :: rest).foldl arrive {}).bestSource = (leader x rest).contribution.source ∧
      ((x :: rest).foldl arrive {}).contributions =
        ((x :: rest).map Arrival.contribution).take kMaxContributionsPerNode := by
  have hled := foldl_arrive_received rest (t := ({} : Tally).arrive x) (x := x) rfl rfl rfl
  exact ⟨hled.1, hled.2, foldl_arrive_contributions (x :: rest) {} (Nat.zero_le _)⟩

end Tally

theorem NodeAccumulator.Alike.tally {a b : NodeAccumulator} (h : a.Alike b) :
    Tally.of b = Tally.of a := (congrArg Tally.of h).symm

/-! ## Readings -/

/-- What can be read off an accumulator that marks leave alone, and what a settlement makes of it. -/
structure Reading (α : Type) where
  of : NodeAccumulator → α
  settled : TraversalContext → QueueEntry → α → α
  fresh : ∀ id, of { resource := id } = of {}
  alike : ∀ a b : NodeAccumulator, a.Alike b → of b = of a
  settle : ∀ ctx e a, of (Traversal.settleAccumulator ctx e a) = settled ctx e (of a)

namespace Reading

variable {α : Type} {R : Reading α} {acc acc' : Accumulators} {i : Nat} {topo : Topology}
  {ctx : TraversalContext}

/-- The reading at an index; that of a fresh accumulator where there is none yet. -/
def at' (R : Reading α) (acc : Accumulators) (i : Nat) : α := ((acc.lookup i).map R.of).getD (R.of {})

/-- One more settlement, at its own index. -/
def count (R : Reading α) (ctx : TraversalContext) (vs : Nat → α) (e : QueueEntry) : Nat → α :=
  Function.update vs e.node (R.settled ctx e (vs e.node))

theorem at'_of_lookup {a : NodeAccumulator} (h : acc.lookup i = some a) : R.at' acc i = R.of a := by
  unfold at'
  rw [h]
  rfl

theorem at'_of_none (h : acc.lookup i = none) : R.at' acc i = R.of {} := by
  unfold at'
  rw [h]
  rfl

/-- Marks leave the readings as they are. -/
theorem at'_alike (h : acc.Alike topo acc') : R.at' acc' = R.at' acc := by
  funext i
  cases hold : acc.lookup i with
  | some a =>
    obtain ⟨a', hnew, hsame⟩ := h.keeps i a hold
    rw [at'_of_lookup hold, at'_of_lookup hnew, R.alike a a' hsame]
  | none =>
    cases hnew : acc'.lookup i with
    | none => rw [at'_of_none hold, at'_of_none hnew]
    | some a' =>
      rw [at'_of_lookup hnew, at'_of_none hold]
      rcases h.adds i a' hnew with ⟨a, ha, -⟩ | ⟨r, -, hsame⟩
      · rw [hold] at ha
        cases ha
      · rw [R.alike _ a' hsame, R.fresh]

theorem at'_update (acc : Accumulators) (e : QueueEntry) (id : ResourceId) :
    R.at' (acc.update e.node id (Traversal.settleAccumulator ctx e)) =
      R.count ctx (R.at' acc) e := by
  funext i
  unfold count
  by_cases hi : i = e.node
  · subst hi
    rw [at'_of_lookup Accumulators.lookup_update_self, R.settle, Function.update_self]
    refine congrArg (R.settled ctx e) ?_
    cases hlookup : acc.lookup e.node with
    | none => rw [Accumulators.at'_of_none hlookup, at'_of_none hlookup, R.fresh]
    | some a => rw [Accumulators.at'_of_lookup hlookup, at'_of_lookup hlookup]
  · rw [Function.update_of_ne hi]
    unfold at'
    rw [Accumulators.lookup_update_ne hi]

end Reading

namespace Accumulators

variable {acc : Accumulators} {i : Nat}

/-- The tally of an index; empty where there is no accumulator yet. -/
def tally (acc : Accumulators) (i : Nat) : Tally := ((acc.lookup i).map Tally.of).getD {}

theorem tally_of_lookup {a : NodeAccumulator} (h : acc.lookup i = some a) :
    acc.tally i = Tally.of a := by
  unfold tally
  rw [h]
  rfl

end Accumulators

namespace Traversal

open Tally (arriveAt)

variable {α : Type} {pq : EntryQueue} {ctx : TraversalContext} {t t' u : Traversal pq}

/-- The arrival of a signal with a settling entry. -/
def arrivalOf (ctx : TraversalContext) (e : QueueEntry) : Arrival :=
  ⟨e.node, e.potential, contributionOf ctx e⟩

theorem tally_settle (e : QueueEntry) (a : NodeAccumulator) :
    Tally.of (settleAccumulator ctx e a) = (Tally.of a).arrive (arrivalOf ctx e) := by
  unfold settleAccumulator Tally.arrive Tally.of arrivalOf
  dsimp only
  by_cases hbetter : (!a.received || decide (a.bestPotential.raw < e.potential.raw)) = true
  · rw [if_pos hbetter, if_pos hbetter, if_pos hbetter]
    split <;> rfl
  · have hreceived : a.received = true := by
      by_contra hnot
      exact hbetter (by simp [hnot])
    rw [if_neg hbetter, if_neg hbetter, if_neg hbetter]
    split <;> exact congrArg (Tally.mk · _ _ _) hreceived

/-- The tally is a reading. -/
def tallyReading : Reading Tally where
  of := Tally.of
  settled ctx e t := t.arrive (arrivalOf ctx e)
  fresh _ := rfl
  alike _ _ h := h.tally
  settle _ e a := tally_settle e a

/-- The expansion of a resource only marks accumulators. -/
theorem alike_expandEdges {entry : QueueEntry} {res : Resource}
    (hres : ctx.topo.resourceAt entry.node = some res) (l : List Nat) (fanout : Nat) (stop : Bool)
    (t : Traversal pq) :
    t.acc.Alike ctx.topo (expandEdges ctx entry res l fanout stop t).state.acc := by
  induction l generalizing fanout stop t with
  | nil =>
    rw [expandEdges]
    split <;> exact .refl _
  | cons i rest ih =>
    have hcase := expandEdge_cases fanout i t hres
    rw [expandEdges]
    revert hcase
    generalize expandEdge ctx entry res fanout t i = r
    intro hcase
    cases hcase with
    | refused htidy => exact htidy.acc.trans (ih _ _ _)
    | exhausted htidy => exact htidy.acc
    | crossed _ _ _ _ htidy => exact Accumulators.Alike.trans htidy.acc (ih _ _ _)

theorem alike_expand {entry : QueueEntry} {res : Resource}
    (hres : ctx.topo.resourceAt entry.node = some res) (t : Traversal pq) :
    t.acc.Alike ctx.topo (t.expand ctx entry res).state.acc := by
  unfold expand
  split
  · have htidy : t.Tidy ctx.topo (t.suppressAll ctx entry.node entry.depth .maxHops) :=
      tidy_suppressAll
    exact htidy.acc
  · split
    · exact ((tidy_block hres).trans tidy_suppressAll).acc
    · split
      · exact ((tidy_fenceOff hres).trans tidy_suppressAll).acc
      · exact alike_expandEdges hres _ _ _ _

/-- A turn counts what it settles, if anything. -/
theorem at'_turn (R : Reading α) (t : Traversal pq) : R.at' (turn ctx t).state.acc =
    (settling ctx t).toList.foldl (R.count ctx) (R.at' t.acc) := by
  cases hsettling : settling ctx t with
  | none =>
    have hidle := turn_idles hsettling
    revert hidle
    generalize turn ctx t = r
    intro hidle
    cases hidle with
    | empty => rfl
    | visited _ _ htidy => exact Reading.at'_alike htidy.acc
    | skip => rfl
    | abandon _ _ _ _ htidy => exact Reading.at'_alike htidy.acc
  | some entry =>
    obtain ⟨queue, res, -, hres, -, -, -, hturn⟩ := turn_of_settling hsettling
    rw [hturn, Reading.at'_alike (alike_expand hres _)]
    change R.at' (({ t with queue, settled := entry.node :: t.settled }.beginNode entry.node).1.acc.update
      entry.node res.id (settleAccumulator ctx entry)) = R.count ctx (R.at' t.acc) entry
    rw [acc_beginNode, Reading.at'_update]

theorem at'_loop (R : Reading α) (hsize : pq.size t.queue ≤ 1) : R.at' (t.loop ctx).acc =
    (Lib.Turns.log (settling ctx) (turn ctx) (fuel ctx) t).foldl (R.count ctx) (R.at' t.acc) := by
  have hflush : ∀ u : Traversal pq, R.at' u.flushOrTruncate.acc = R.at' u.acc := by
    intro u
    have htidy : u.Tidy ctx.topo u.flushOrTruncate := tidy_flushOrTruncate
    exact Reading.at'_alike htidy.acc
  have hstep : ∀ (l : List QueueEntry) (v : Traversal pq),
      R.at' v.acc = l.foldl (R.count ctx) (R.at' t.acc) →
      R.at' (turn ctx v).state.acc =
        (l ++ (settling ctx v).toList).foldl (R.count ctx) (R.at' t.acc) := by
    intro l v hv
    rw [at'_turn, hv, List.foldl_append]
  have hlog := Lib.Turns.log_invariant (settling ctx) (turn ctx) (m := measure ctx)
    (P := fun l v => R.at' v.acc = l.foldl (R.count ctx) (R.at' t.acc))
    (Q := fun l v => R.at' v.acc = l.foldl (R.count ctx) (R.at' t.acc))
    (fun _ _ => measure_turn) (fun l v v' hv hturn => ?_) (fun l v v' hv hturn => ?_) (fuel ctx)
    (s := t) (by unfold measure fuel; omega) (l := []) rfl
  · unfold loop
    rw [hflush, hlog, List.nil_append]
  · have hnext := hstep l v hv
    rwa [hturn] at hnext
  · have hnext := hstep l v hv
    rwa [hturn] at hnext

/-- A traversal counts its settlements, on top of what was there before. -/
theorem at'_run (R : Reading α) (fresh : t.Fresh) (hadmissible : Admissible ctx t.acc) :
    R.at' (t.run ctx).2.acc = (settlements ctx t).foldl (R.count ctx) (R.at' t.acc) := by
  have hcases := enter_cases ctx fresh
  unfold run settlements
  revert hcases
  generalize t.enter ctx = r
  intro hcases
  cases hcases with
  | refused => rfl
  | @blocked i origin u horigin hclosed htidy =>
    -- a closed origin has received nothing, so nothing is taken back
    change R.at' u.acc = R.at' t.acc
    rw [Reading.at'_alike htidy.acc]
    funext j
    by_cases hj : j = i
    · subst hj
      rw [Reading.at'_of_lookup Accumulators.lookup_update_self]
      cases hlookup : t.acc.lookup j with
      | none => rw [Accumulators.at'_of_none hlookup, Reading.at'_of_none hlookup, ← R.fresh]
      | some a =>
        have hreceived : a.received = false := by
          by_contra hnot
          obtain ⟨r, hr, hcan, hin⟩ := hadmissible j a hlookup (by simpa using hnot)
          obtain rfl := Option.some.inj (hr.symm.trans horigin.resourceAt)
          rcases hclosed with hfence | hrefuses
          · exact hfence hin
          · rw [hcan] at hrefuses
            cases hrefuses
        rw [Accumulators.at'_of_lookup hlookup, Reading.at'_of_lookup hlookup, ← hreceived]
    · unfold Reading.at'
      dsimp only
      rw [Accumulators.lookup_update_ne hj]
  | @seeded i origin s horigin _ _ htidy =>
    change R.at' (s.loop ctx).acc = _
    rw [at'_loop R (seeded_queue fresh htidy).2, Reading.at'_alike htidy.acc]

/-- A traversal counts its arrivals, on top of what was counted before. -/
theorem tally_run (fresh : t.Fresh) (hadmissible : Admissible ctx t.acc) :
    (t.run ctx).2.acc.tally =
      ((settlements ctx t).map (arrivalOf ctx)).foldl arriveAt t.acc.tally := by
  rw [List.foldl_map]
  exact at'_run tallyReading fresh hadmissible

end Traversal

end Backpressure
