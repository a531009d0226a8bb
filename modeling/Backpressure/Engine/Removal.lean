import Backpressure.Engine.Replay

/-!
# A request without one of its signals

What a call makes of a request is compared with what it makes of the request without a signal that
it refuses. The traversals of both go through the same states, because a traversal does not read
the counters that tell the requests apart.
-/

namespace Backpressure

open Lib (Window)

/-- The explanation, whatever number of signals its request had. -/
def PropagationExplanation.unnumbered (e : PropagationExplanation) : PropagationExplanation :=
  { e with counters := { e.counters with signalsReceived := 0 } }

/-! ## The work of a traversal -/

namespace Outputs

/-- The share of the counters that the writes come to. -/
def work (ws : List Write) : EngineCounters :=
  ws.foldl (fun k w => match w with | .count share => k.add share | _ => k) {}

theorem counters_write (o : Outputs) (ws : List Write) :
    (o.write ws).counters = o.counters.add (work ws) := by
  unfold write work
  induction ws using List.reverseRecOn with
  | nil => exact (EngineCounters.add_empty o.counters).symm
  | append_singleton rest w ih =>
    rw [List.foldl_append, List.foldl_append, List.foldl_cons, List.foldl_nil, List.foldl_cons,
      List.foldl_nil]
    cases w with
    | update => exact ih
    | truncate => exact ih
    | count share => exact (congrArg (EngineCounters.add · share) ih).trans (EngineCounters.add_assoc _ _ _)

/-- Writes make of equal accumulators equal accumulators. -/
theorem write_same {o o' : Outputs} (hacc : o'.acc = o.acc) (htrunc : o'.truncated = o.truncated)
    (ws : List Write) : (o'.write ws).acc = (o.write ws).acc ∧
      (o'.write ws).truncated = (o.write ws).truncated := by
  refine write_invariant (R := fun o o' => o'.acc = o.acc ∧ o'.truncated = o.truncated)
    (fun o o' w h => ?_) ⟨hacc, htrunc⟩ ws
  cases w with
  | update i id f => exact ⟨congrArg (Accumulators.update · i id f) h.1, h.2⟩
  | count => exact h
  | truncate => exact ⟨h.1, rfl⟩

end Outputs

namespace PropagationEngine

open Traversal

variable {pq : EntryQueue} {topo : Topology} {policy : PropagationPolicy}
  {ledger : PropagationLedger} {fences : Option FenceTable} {liveEpoch : Epoch}
  {pins : List (Option Generation)} {request : PropagationRequest}

/-- Two progresses that differ in their rejections and in counters of signals only. -/
structure Alike (p p' : Progress) : Prop where
  acc : p'.acc = p.acc
  truncated : p'.truncated = p.truncated
  accepted : p'.counters.signalsAccepted = p.counters.signalsAccepted
  explanations : p'.explanations.map PropagationExplanation.unnumbered =
    p.explanations.map PropagationExplanation.unnumbered

theorem Alike.trans {p p' p'' : Progress} (h : Alike p p') (h' : Alike p' p'') : Alike p p'' :=
  ⟨h'.acc.trans h.acc, h'.truncated.trans h.truncated, h'.accepted.trans h.accepted,
    h'.explanations.trans h.explanations⟩

/-- What a traversal adds to the counters of its explanation does not depend on what was counted
before. -/
theorem explanationCounters_add (c w : EngineCounters) (accepted propagations : Nat) :
    { explanationCounters c { c.add w with signalsAccepted := accepted, propagations } with
      signalsReceived := 0 } =
    { explanationCounters {} w with signalsReceived := 0 } := by
  simp [explanationCounters, EngineCounters.add]

/-- The explanation of a traversal that ran. -/
def ranExplanation (before : EngineCounters) (t : Traversal pq) : PropagationExplanation :=
  { t.expl with
    counters := explanationCounters before { t.counters with
      signalsAccepted := t.counters.signalsAccepted + 1
      propagations := t.counters.propagations + 1 }
    truncated := t.truncated }

/-- What a traversal leaves, but for the rejections and the counters of its work. -/
structure Left (p : Progress) (st : Status) (t : Traversal pq) (p' : Progress) : Prop where
  acc : p'.acc = t.acc
  truncated : p'.truncated = t.truncated
  accepted : p'.counters.signalsAccepted = t.counters.signalsAccepted + if st.ok then 1 else 0
  explanations : p'.explanations = p.explanations ++
    if st.ok then [(ranExplanation p.counters t).finalize] else []

theorem traverse_left {p : Progress} {s : PressureSignal} {st : Status} {t : Traversal pq}
    (hrun : (startTraversal pq topo policy request p s).run
      (traversalContext topo policy ledger fences pins request s) = (st, t)) :
    Left p st t (traverse pq topo policy ledger fences pins request p s) := by
  unfold traverse
  dsimp only
  rw [hrun]
  dsimp only
  cases hst : st.ok with
  | false =>
    rw [if_pos (by rfl)]
    refine ⟨rfl, rfl, ?_, ?_⟩
    · rw [if_neg (by simp [hst])]
      rfl
    · rw [if_neg (by simp [hst]), List.append_nil]
  | true =>
    rw [if_neg (by exact Bool.noConfusion)]
    refine ⟨rfl, rfl, ?_, ?_⟩
    · rw [if_pos hst]
    · rw [if_pos hst]
      rfl

/-- Every explanation is that of a replay, as it was before any traversal, or that of the traversal
of a live signal. -/
theorem explanation_cases : ∀ e ∈ (progress pq topo policy ledger fences pins request).explanations,
    (∃ s ∈ replays policy ledger request, e = (baseExplanation topo policy request s).finalize) ∨
      ∃ s ∈ liveSignals policy ledger request, ∃ t,
        traversalOf pq topo policy ledger fences pins request s = (.success, t) ∧
        e = (ranExplanation (progressBefore pq topo policy ledger fences pins request s).counters
          t).finalize := by
  refine progress_induction (P := fun l p => ∀ e ∈ p.explanations,
    (∃ s ∈ replays policy ledger request, e = (baseExplanation topo policy request s).finalize) ∨
      ∃ s ∈ l, ∃ t, traversalOf pq topo policy ledger fences pins request s = (.success, t) ∧
        e = (ranExplanation (progressBefore pq topo policy ledger fences pins request s).counters
          t).finalize) (fun e he => ?_) fun before s _ _ hp e he => ?_
  · obtain ⟨s, hs, rfl⟩ := List.mem_map.mp he
    exact .inl ⟨s, hs, rfl⟩
  · have hleft := traverse_left (p := progressBefore pq topo policy ledger fences pins request s)
      (s := s) (Prod.mk.eta (p := traversalOf pq topo policy ledger fences pins request s)).symm
    rw [hleft.explanations] at he
    rcases List.mem_append.mp he with he | he
    · rcases hp e he with hreplay | ⟨s', hs', hran⟩
      · exact .inl hreplay
      · exact .inr ⟨s', List.mem_append_left _ hs', hran⟩
    · split at he
      case isFalse => cases he
      case isTrue hok =>
        obtain ⟨t, htrav, -⟩ := traversalOf_ok hok
        rw [htrav, List.mem_singleton] at he
        exact .inr ⟨s, List.mem_append_right _ List.mem_cons_self, t, htrav, he⟩

/-- The number of signals that a request had does not enter a fingerprint. -/
theorem unnumbered_finalize (e : PropagationExplanation) :
    e.finalize.unnumbered = e.unnumbered.finalize := by
  have hfingerprint : e.unnumbered.fingerprintOf = e.fingerprintOf := by
    unfold PropagationExplanation.fingerprintOf PropagationExplanation.unnumbered
    dsimp only
  have hseal : ∀ d, (e.seal d).unnumbered = e.unnumbered.seal d := fun d => rfl
  rw [PropagationExplanation.finalize, PropagationExplanation.finalize, hfingerprint, hseal]

/-- The explanations of one traversal from two progresses differ in the number of signals only. -/
theorem ranExplanation_alike {p p' : Progress} {u : Traversal pq} {ws : List Write}
    (htrunc : (Outputs.write ⟨p'.acc, p'.counters, p'.truncated⟩ ws).truncated =
      (Outputs.write ⟨p.acc, p.counters, p.truncated⟩ ws).truncated) :
    (ranExplanation p'.counters
      (u.withOutputs (Outputs.write ⟨p'.acc, p'.counters, p'.truncated⟩ ws))).unnumbered =
    (ranExplanation p.counters
      (u.withOutputs (Outputs.write ⟨p.acc, p.counters, p.truncated⟩ ws))).unnumbered := by
  unfold ranExplanation PropagationExplanation.unnumbered
  dsimp only [withOutputs]
  rw [htrunc, Outputs.counters_write, Outputs.counters_write, explanationCounters_add,
    explanationCounters_add]

/-- One more traversal on both sides. -/
theorem Alike.traverse {p p' : Progress} (h : Alike p p') (s : PressureSignal) :
    Alike (traverse pq topo policy ledger fences pins request p s)
      (PropagationEngine.traverse pq topo policy ledger fences pins request p' s) := by
  obtain ⟨ws, st, u, hrun⟩ := run_withOutputs
    (traversalContext topo policy ledger fences pins request s)
    (startTraversal pq topo policy request p s)
  obtain ⟨hacc, htrunc⟩ := @Outputs.write_same ⟨p.acc, p.counters, p.truncated⟩
    ⟨p'.acc, p'.counters, p'.truncated⟩ h.acc h.truncated ws
  have hleft := traverse_left (p := p) (hrun ⟨p.acc, p.counters, p.truncated⟩)
  have hleft' : Left p' st _ (PropagationEngine.traverse pq topo policy ledger fences pins request
      p' s) := traverse_left (hrun ⟨p'.acc, p'.counters, p'.truncated⟩)
  refine ⟨?_, ?_, ?_, ?_⟩
  · rw [hleft.acc, hleft'.acc]
    exact hacc
  · rw [hleft.truncated, hleft'.truncated]
    exact htrunc
  · rw [hleft.accepted, hleft'.accepted]
    dsimp only [withOutputs]
    rw [Outputs.counters_write, Outputs.counters_write]
    exact congrArg (· + _) h.accepted
  · rw [hleft.explanations, hleft'.explanations, List.map_append, List.map_append, h.explanations]
    cases st.ok with
    | false => rw [if_neg Bool.false_ne_true, if_neg Bool.false_ne_true]
    | true =>
      have hsame := @ranExplanation_alike pq p p' u ws htrunc
      rw [if_pos rfl, if_pos rfl, List.map_singleton, List.map_singleton, unnumbered_finalize,
        unnumbered_finalize, hsame]

/-! ## The admission without a signal -/

/-- The same request for other signals. -/
def withSignals (request : PropagationRequest) (signals : List PressureSignal) :
    PropagationRequest :=
  { request with signals }

/-- One step of the admission, as far as the accepted signals go. -/
def acceptNext (policy : PropagationPolicy) (request : PropagationRequest)
    (accepted : List PressureSignal) (s : PressureSignal) : List PressureSignal :=
  if (admitSignal policy request accepted s).ok then accepted ++ [s] else accepted

/-- The signals that the admission accepts among these. -/
def acceptedAmong (policy : PropagationPolicy) (request : PropagationRequest)
    (l : List PressureSignal) : List PressureSignal :=
  l.foldl (acceptNext policy request) []

theorem accepted_foldl (l : List PressureSignal) (a : Admission) :
    (l.foldl (admitNext policy request) a).accepted =
      l.foldl (acceptNext policy request) a.accepted := by
  induction l generalizing a with
  | nil => rfl
  | cons s rest ih =>
    rw [List.foldl_cons, List.foldl_cons, ih]
    unfold admitNext acceptNext
    dsimp only
    split <;> rfl

theorem accepted_admission :
    (admission policy request).accepted = acceptedAmong policy request request.signals :=
  accepted_foldl request.signals _

theorem accepted_withSignals {l : List PressureSignal} :
    (admission policy (withSignals request l)).accepted = acceptedAmong policy request l :=
  accepted_foldl l _

theorem acceptedAmong_append {l l' : List PressureSignal} : acceptedAmong policy request (l ++ l') =
    l'.foldl (acceptNext policy request) (acceptedAmong policy request l) := List.foldl_append

variable {before after : List PressureSignal} {s : PressureSignal}

/-- The admission refuses the signal after the ones before it. -/
def RefusedAtAdmission (policy : PropagationPolicy) (request : PropagationRequest)
    (before : List PressureSignal) (s : PressureSignal) : Prop :=
  (admitSignal policy request (acceptedAmong policy request before) s).ok = false

/-- The signal is accepted, its lineage is new, and its traversal finds no origin. -/
structure RefusedInTraversal (topo : Topology) (policy : PropagationPolicy)
    (ledger : PropagationLedger) (request : PropagationRequest) (before : List PressureSignal)
    (s : PressureSignal) : Prop where
  accepted : (admitSignal policy request (acceptedAmong policy request before) s).ok = true
  live : isLive ledger s = true
  origin : topo.indexOf s.origin = none

/-- No later signal of the same source passes the other checks of the admission. -/
def Unrivalled (policy : PropagationPolicy) (request : PropagationRequest) (s : PressureSignal)
    (after : List PressureSignal) : Prop :=
  ∀ s' ∈ after, s'.source = s.source → (admitSignal policy request [] s').ok = false

theorem acceptedAmong_refused (h : RefusedAtAdmission policy request before s) :
    acceptedAmong policy request (before ++ s :: after) =
      acceptedAmong policy request (before ++ after) := by
  have hskip : acceptNext policy request (acceptedAmong policy request before) s =
      acceptedAmong policy request before := if_neg (by rw [h]; exact Bool.false_ne_true)
  rw [acceptedAmong_append, acceptedAmong_append, List.foldl_cons, hskip]

/-- An accepted signal only stands in the way of later signals of its source. -/
theorem admitSignal_remove {kept later : List PressureSignal} {s' : PressureSignal}
    (h : s'.source = s.source → (admitSignal policy request [] s').ok = false) :
    (admitSignal policy request (kept ++ s :: later) s').ok =
      (admitSignal policy request (kept ++ later) s').ok := by
  refine Bool.eq_iff_iff.mpr ?_
  rw [admitSignal_ok, admitSignal_ok]
  constructor
  · rintro ⟨hvalid, hdigest, hepoch, hothers⟩
    refine ⟨hvalid, hdigest, hepoch, fun other hother => hothers other ?_⟩
    rcases List.mem_append.mp hother with hkept | hlater
    · exact List.mem_append_left _ hkept
    · exact List.mem_append_right _ (List.mem_cons_of_mem s hlater)
  · rintro ⟨hvalid, hdigest, hepoch, hothers⟩
    refine ⟨hvalid, hdigest, hepoch, fun other hother => ?_⟩
    rcases List.mem_append.mp hother with hkept | hlater
    · exact hothers other (List.mem_append_left _ hkept)
    · rcases List.mem_cons.mp hlater with rfl | hlater
      · intro hsource
        have hadmitted : (admitSignal policy request [] s').ok = true :=
          admitSignal_ok.mpr ⟨hvalid, hdigest, hepoch, by simp⟩
        rw [h hsource.symm] at hadmitted
        cases hadmitted
      · exact hothers other (List.mem_append_right _ hlater)

theorem acceptedAmong_accepted
    (haccepted : (admitSignal policy request (acceptedAmong policy request before) s).ok = true)
    (hrival : Unrivalled policy request s after) : ∃ later,
      acceptedAmong policy request (before ++ s :: after) =
        acceptedAmong policy request before ++ s :: later ∧
      acceptedAmong policy request (before ++ after) =
        acceptedAmong policy request before ++ later := by
  have htake : acceptNext policy request (acceptedAmong policy request before) s =
      acceptedAmong policy request before ++ [s] := if_pos haccepted
  rw [acceptedAmong_append, acceptedAmong_append, List.foldl_cons, htake]
  -- the two lists of accepted signals grow by the same signals
  suffices hgrow : ∀ (l kept later : List PressureSignal), Unrivalled policy request s l →
      ∃ later', l.foldl (acceptNext policy request) (kept ++ s :: later) = kept ++ s :: later' ∧
        l.foldl (acceptNext policy request) (kept ++ later) = kept ++ later' by
    obtain ⟨later, hfull, hless⟩ := hgrow after _ [] hrival
    rw [List.append_nil] at hless
    exact ⟨later, hfull, hless⟩
  intro l
  induction l with
  | nil => exact fun kept later _ => ⟨later, rfl, rfl⟩
  | cons s' rest ih =>
    intro kept later hl
    have hsame : (admitSignal policy request (kept ++ s :: later) s').ok =
        (admitSignal policy request (kept ++ later) s').ok :=
      admitSignal_remove (hl s' List.mem_cons_self)
    have hrest : Unrivalled policy request s rest := fun x hx => hl x (List.mem_cons_of_mem s' hx)
    rw [List.foldl_cons, List.foldl_cons]
    unfold acceptNext at ih ⊢
    rw [hsame]
    split
    · rw [List.append_assoc, List.append_assoc, List.cons_append]
      exact ih kept (later ++ [s']) hrest
    · exact ih kept later hrest

/-- A rejection of the admission belongs to a signal that it refused. -/
theorem rejection_position {l : List PressureSignal} {counters : EngineCounters} {r : RejectionRecord}
    (hr : r ∈ (l.foldl (admitNext policy request) { counters }).rejections) :
    ∃ before s after, l = before ++ s :: after ∧ RefusedAtAdmission policy request before s ∧
      r.signal = s.id ∧ r.source = s.source := by
  induction l using List.reverseRecOn with
  | nil => cases hr
  | append_singleton rest last ih =>
    have hlater : r ∈ (rest.foldl (admitNext policy request) { counters }).rejections →
        ∃ before s after, rest ++ [last] = before ++ s :: after ∧
          RefusedAtAdmission policy request before s ∧ r.signal = s.id ∧ r.source = s.source := by
      intro hrest
      obtain ⟨before, s, after, rfl, hspec⟩ := ih hrest
      exact ⟨before, s, after ++ [last], by simp, hspec⟩
    rw [List.foldl_append, List.foldl_cons, List.foldl_nil, admitNext] at hr
    split at hr
    · exact hlater hr
    case isFalse hst =>
      rcases List.mem_append.mp hr with hr | hr
      · exact hlater hr
      · rw [List.mem_singleton.mp hr]
        refine ⟨rest, last, [], rfl, ?_, rfl, rfl⟩
        rw [accepted_foldl] at hst
        exact Bool.eq_false_iff.mpr hst

/-- An accepted signal passed the admission after the ones before it. -/
theorem accepted_position {l : List PressureSignal} (hs : s ∈ acceptedAmong policy request l) :
    ∃ before after, l = before ++ s :: after ∧
      (admitSignal policy request (acceptedAmong policy request before) s).ok = true := by
  induction l using List.reverseRecOn with
  | nil => cases hs
  | append_singleton rest last ih =>
    have hlater : s ∈ acceptedAmong policy request rest → ∃ before after,
        rest ++ [last] = before ++ s :: after ∧
          (admitSignal policy request (acceptedAmong policy request before) s).ok = true := by
      intro hrest
      obtain ⟨before, after, rfl, hspec⟩ := ih hrest
      exact ⟨before, after ++ [last], by simp, hspec⟩
    rw [acceptedAmong_append, List.foldl_cons, List.foldl_nil, acceptNext] at hs
    split at hs
    case isTrue hst =>
      rcases List.mem_append.mp hs with hs | hs
      · exact hlater hs
      · rw [List.mem_singleton.mp hs]
        exact ⟨rest, [], rfl, hst⟩
    case isFalse => exact hlater hs

/-! ## The traversals without a signal -/

theorem Alike.refl (p : Progress) : Alike p p := ⟨rfl, rfl, rfl, rfl⟩

theorem Alike.foldl {p p' : Progress} (h : Alike p p') (l : List PressureSignal) :
    Alike (l.foldl (PropagationEngine.traverse pq topo policy ledger fences pins request) p)
      (l.foldl (PropagationEngine.traverse pq topo policy ledger fences pins request) p') := by
  induction l generalizing p p' with
  | nil => exact h
  | cons s rest ih => exact ih (h.traverse s)

/-- A traversal that finds no origin leaves the progress as it was. -/
theorem alike_of_no_origin (p : Progress) (h : topo.indexOf s.origin = none) :
    Alike (traverse pq topo policy ledger fences pins request p s) p := by
  have hrun : (startTraversal pq topo policy request p s).run
      (traversalContext topo policy ledger fences pins request s) =
        (.error .notFound "signal origin resource" s.origin.value.toNat,
          startTraversal pq topo policy request p s) := by
    have hindex : (traversalContext topo policy ledger fences pins request s).topo.indexOf
        (traversalContext topo policy ledger fences pins request s).signal.origin = none := h
    unfold run enter
    rw [hindex]
    rfl
  have hleft := traverse_left hrun
  refine ⟨hleft.acc.symm, hleft.truncated.symm, hleft.accepted.symm, ?_⟩
  rw [hleft.explanations]
  exact congrArg (List.map PropagationExplanation.unnumbered) (List.append_nil _).symm

theorem liveSignals_withSignals {l : List PressureSignal} :
    liveSignals policy ledger (withSignals request l) =
      (acceptedAmong policy request l).filter (isLive ledger) := by
  rw [liveSignals, accepted_withSignals]

/-- The replays are explained alike when they are the same. -/
theorem alike_unstarted {l l' : List PressureSignal}
    (h : (acceptedAmong policy request l).filter (fun s => !isLive ledger s) =
      (acceptedAmong policy request l').filter fun s => !isLive ledger s) :
    Alike (unstarted policy ledger topo (withSignals request l))
      (unstarted policy ledger topo (withSignals request l')) := by
  have hnone : ∀ request, (unstarted policy ledger topo request).counters.signalsAccepted = 0 :=
    fun request => unstarted_spec.accepted
  refine ⟨rfl, rfl, (hnone _).trans (hnone _).symm, ?_⟩
  unfold unstarted
  dsimp only
  rw [accepted_withSignals, accepted_withSignals, h]
  rfl

theorem progress_withSignals {l : List PressureSignal} :
    progress pq topo policy ledger fences pins (withSignals request l) =
      ((acceptedAmong policy request l).filter (isLive ledger)).foldl
        (traverse pq topo policy ledger fences pins request)
        (unstarted policy ledger topo (withSignals request l)) := by
  rw [progress_eq, liveSignals_withSignals]
  rfl

/-- A signal refused at the admission makes no difference to the traversals. -/
theorem alike_of_refusedAtAdmission (h : RefusedAtAdmission policy request before s) :
    Alike (progress pq topo policy ledger fences pins (withSignals request (before ++ s :: after)))
      (progress pq topo policy ledger fences pins (withSignals request (before ++ after))) := by
  have hsame := @acceptedAmong_refused policy request before after s h
  rw [progress_withSignals, progress_withSignals, hsame]
  exact (alike_unstarted (by rw [hsame])).foldl _

/-- Neither does one refused in its traversal, when it stands in no other's way. -/
theorem alike_of_refusedInTraversal (h : RefusedInTraversal topo policy ledger request before s)
    (hrival : Unrivalled policy request s after) :
    Alike (progress pq topo policy ledger fences pins (withSignals request (before ++ s :: after)))
      (progress pq topo policy ledger fences pins (withSignals request (before ++ after))) := by
  obtain ⟨later, hfull, hless⟩ := acceptedAmong_accepted h.accepted hrival
  have hreplays : (acceptedAmong policy request (before ++ s :: after)).filter
      (fun s => !isLive ledger s) =
        (acceptedAmong policy request (before ++ after)).filter fun s => !isLive ledger s := by
    rw [hfull, hless, List.filter_append, List.filter_append,
      List.filter_cons_of_neg (by simp [h.live])]
  rw [progress_withSignals, progress_withSignals, hfull, hless, List.filter_append,
    List.filter_append, List.filter_cons_of_pos h.live, List.foldl_append, List.foldl_append,
    List.foldl_cons]
  refine Alike.foldl ?_ _
  exact (alike_of_no_origin _ h.origin).trans ((alike_unstarted hreplays).foldl _)

/-! ## The ledger without a signal -/

theorem commitDamping_unnumbered {now : Tick} {explanations : List PropagationExplanation} :
    commitDamping now (explanations.map PropagationExplanation.unnumbered) ledger =
      commitDamping now explanations ledger := by
  unfold commitDamping
  rw [List.foldl_map]
  rfl

/-- The same ledger with other lineages. -/
def withLineages (ledger : PropagationLedger) (lineages : Window Digest128) : PropagationLedger :=
  { ledger with lineages }

section WithLineages

variable {now : Tick} {lineages : Window Digest128}

theorem markLineages_eq {live : List PressureSignal} : markLineages live ledger =
    withLineages ledger ((live.map PressureSignal.lineage).foldl Window.mark ledger.lineages) := by
  unfold markLineages
  induction live generalizing ledger with
  | nil => rfl
  | cons s rest ih =>
    rw [List.foldl_cons, ih]
    rfl

theorem commitApplications_withLineages {nodes : List NodeOutcome} :
    (commitApplications now nodes (withLineages ledger lineages)).2 =
      withLineages (commitApplications now nodes ledger).2 lineages := by
  have hrecord : ∀ (l : PropagationLedger) source resource m,
      (withLineages l lineages).recordApplication source resource m now =
        ((l.recordApplication source resource m now).1,
          withLineages (l.recordApplication source resource m now).2 lineages) := by
    intro l source resource m
    unfold PropagationLedger.recordApplication withLineages
    dsimp only
    split <;> rfl
  induction nodes generalizing ledger with
  | nil => rfl
  | cons n rest ih =>
    rw [commitApplications, commitApplications]
    split
    · exact ih
    · rw [hrecord]
      dsimp only
      split
      · exact ih
      · rfl

theorem commitHops_withLineages {hops : List HopRecord} :
    commitHops now hops (withLineages ledger lineages) =
      withLineages (commitHops now hops ledger) lineages := by
  have hrecord : ∀ (l : PropagationLedger) target edge m,
      (withLineages l lineages).recordDamping target edge m now =
        ((l.recordDamping target edge m now).1,
          withLineages (l.recordDamping target edge m now).2 lineages) := by
    intro l target edge m
    unfold PropagationLedger.recordDamping withLineages
    dsimp only
    split <;> rfl
  induction hops generalizing ledger with
  | nil => rfl
  | cons hop rest ih =>
    rw [commitHops, commitHops]
    split
    · exact ih
    · rw [hrecord]
      dsimp only
      split
      · exact ih
      · rfl

theorem commitDamping_withLineages {explanations : List PropagationExplanation} :
    commitDamping now explanations (withLineages ledger lineages) =
      withLineages (commitDamping now explanations ledger) lineages := by
  unfold commitDamping
  induction explanations generalizing ledger with
  | nil => rfl
  | cons e rest ih =>
    rw [List.foldl_cons, List.foldl_cons, commitHops_withLineages]
    exact ih

end WithLineages

/-- Where no signal was accepted and none refused, none traversed. -/
theorem live_of_idle
    (haccepted : (progress pq topo policy ledger fences pins request).counters.signalsAccepted = 0)
    (hrejections : (progress pq topo policy ledger fences pins request).rejections = []) :
    liveSignals policy ledger request = [] := by
  refine progress_induction (P := fun l p =>
    p.counters.signalsAccepted = 0 → p.rejections = [] → l = []) (fun _ _ => rfl)
    (fun before s _ _ _ hzero hnone => ?_) haccepted hrejections
  cases traverse_cases pq topo policy ledger fences pins request
    (progressBefore pq topo policy ledger fences pins request s) s with
  | refused _ _ _ _ _ hrej =>
    rw [hnone] at hrej
    exact absurd hrej.symm (by simp)
  | ran _ _ _ _ _ _ _ _ hone =>
    rw [hzero] at hone
    exact absurd hone.symm (Nat.succ_ne_zero _)

/-- A plan in which nothing was accepted has refused nothing either. -/
theorem plan_of_ready (h : Ready topo policy liveEpoch pins request) :
    (∃ o, plan pq topo policy ledger fences liveEpoch request = .error o ∧
      (progress pq topo policy ledger fences pins request).counters.signalsAccepted = 0) ∨
    ((progress pq topo policy ledger fences pins request).counters.signalsAccepted = 0 →
      (progress pq topo policy ledger fences pins request).rejections = []) := by
  unfold plan
  dsimp only
  rw [if_neg (by simp [h.checked]), if_neg (Nat.not_lt_of_le h.sources),
    if_neg (Nat.not_lt_of_le h.pinCount), h.pins]
  dsimp only
  unfold planSignals
  dsimp only
  rw [if_neg h.accepted]
  split
  case h_1 hzero _ => exact .inl ⟨_, rfl, hzero⟩
  case h_2 hnot =>
    refine .inr fun hzero => ?_
    cases hrej : (progress pq topo policy ledger fences pins request).rejections with
    | nil => rfl
    | cons r rest => exact absurd hrej (hnot r rest hzero)

/-- The call writes its plan. -/
def Commits (pq : EntryQueue) (topo : Topology) (policy : PropagationPolicy)
    (ledger : PropagationLedger) (fences : Option FenceTable) (pins : List (Option Generation))
    (request : PropagationRequest) : Prop :=
  request.dryRun = false ∧ (progress pq topo policy ledger fences pins request).truncated = false ∧
    (progress pq topo policy ledger fences pins request).counters.signalsAccepted ≠ 0

/-- What a plan makes of the ledger. -/
def committed (pq : EntryQueue) (topo : Topology) (policy : PropagationPolicy)
    (ledger : PropagationLedger) (fences : Option FenceTable) (pins : List (Option Generation))
    (request : PropagationRequest) : PropagationLedger :=
  let p := progress pq topo policy ledger fences pins request
  commitDamping request.now p.explanations
    (commitApplications request.now (aggregateNodes policy p.acc)
      (markLineages (liveSignals policy ledger request) ledger)).2

/-- A call that accepts no signal leaves the ledger as it was. -/
theorem after_of_idle {c : Call} (htopo : c.topology = some topo) (hpolicy : c.policy = some policy)
    (hready : Ready topo policy c.liveEpoch pins c.request)
    (hidle : (progress pq topo policy ledger c.fences pins c.request).counters.signalsAccepted = 0) :
    c.after pq ledger = ledger := by
  rcases @plan_of_ready pq topo policy ledger c.fences c.liveEpoch pins c.request hready with
    ⟨o, hplan, -⟩ | hnone
  · unfold Call.after Call.context propagate
    rw [htopo, hpolicy]
    dsimp only
    rw [hplan]
    rfl
  · refine after_of_no_live pq fun policy' hpolicy' => ?_
    obtain rfl := Option.some.inj (hpolicy.symm.trans hpolicy')
    exact live_of_idle hidle (hnone hidle)

/-- The ledger after an admitted call. -/
theorem after_of_ready {c : Call} (htopo : c.topology = some topo) (hpolicy : c.policy = some policy)
    (hready : Ready topo policy c.liveEpoch pins c.request) :
    (Commits pq topo policy ledger c.fences pins c.request →
      c.after pq ledger = committed pq topo policy ledger c.fences pins c.request) ∧
    (¬Commits pq topo policy ledger c.fences pins c.request → c.after pq ledger = ledger) := by
  have hidle := @after_of_idle pq topo policy ledger pins c htopo hpolicy hready
  have hcase := propagate_cases pq (c.context ledger) c.request
  unfold Call.after at hidle ⊢
  revert hcase hidle
  generalize propagate pq (c.context ledger) c.request = r
  intro hidle hcase
  cases hcase with
  | refused hnot => exact absurd hready (hnot topo policy pins htopo hpolicy rfl)
  | allRefused ht hp hl hready' _ hzero =>
    cases htopo.symm.trans ht
    cases hpolicy.symm.trans hp
    cases hl
    cases hready.pins.symm.trans hready'.pins
    exact ⟨fun hcommits => absurd hzero hcommits.2.2, fun _ => rfl⟩
  | kept ht hp hl hready' hkept =>
    cases htopo.symm.trans ht
    cases hpolicy.symm.trans hp
    cases hl
    cases hready.pins.symm.trans hready'.pins
    refine ⟨fun hcommits => ?_, fun _ => rfl⟩
    rcases hkept with hdry | htrunc
    · rw [hcommits.1] at hdry
      cases hdry
    · exact absurd (hcommits.2.1.symm.trans htrunc) Bool.false_ne_true
  | @committed _ _ _ ledger' _ _ _ ht hp hl hready' hdry htrunc hcommit =>
    cases htopo.symm.trans ht
    cases hpolicy.symm.trans hp
    cases hl
    cases hready.pins.symm.trans hready'.pins
    have hwritten : (commitApplications c.request.now _
        (markLineages (liveSignals policy ledger c.request) ledger)).2 = ledger' :=
      congrArg Prod.snd hcommit
    refine ⟨fun _ => ?_, fun hnot => hidle ?_⟩
    · rw [← hwritten]
      rfl
    · by_contra hsome
      exact hnot ⟨hdry, htrunc, hsome⟩

/-! ## The call without a signal -/

/-- The same call for other signals. -/
def Call.withSignals (c : Call) (l : List PressureSignal) : Call :=
  { c with request := PropagationEngine.withSignals c.request l }

theorem ready_withSignals {l : List PressureSignal}
    (h : Ready topo policy liveEpoch pins request) (hlen : l.length ≤ policy.maxSources.toNat)
    (haccepted : acceptedAmong policy request l ≠ []) :
    Ready topo policy liveEpoch pins (withSignals request l) := by
  have hl : l ≠ [] := fun hnil => haccepted (by rw [hnil]; rfl)
  refine ⟨?_, hlen, h.pinCount, h.pins, ?_⟩
  · have hchecked := h.checked
    simp only [checkRequest, withSignals, Status.ok_andThen, Status.ok_guard, ne_eq, reduceCtorEq,
      not_false_eq_true, Bool.and_eq_true, hl, true_and] at hchecked ⊢
    exact ⟨hchecked.1, hchecked.2.1, hchecked.2.2.1, hchecked.2.2.2.1, hchecked.2.2.2.2.1,
      hchecked.2.2.2.2.2.1, Status.ok_success⟩
  · rwa [accepted_withSignals]

section Remove

variable {c : Call} {l : List PressureSignal} {r : RejectionRecord}

/-- Nothing is written, and nothing reported, for a request that is not admitted. -/
theorem unready_call (htopo : c.topology = some topo) (hpolicy : c.policy = some policy)
    (hnot : ∀ pins, ¬Ready topo policy c.liveEpoch pins c.request) :
    Silent (c.outcome pq ledger) ∧ c.after pq ledger = ledger := by
  have hcase := propagate_cases pq (c.context ledger) c.request
  unfold Call.outcome Call.after
  revert hcase
  generalize propagate pq (c.context ledger) c.request = r
  intro hcase
  cases hcase with
  | refused _ hst hexpl hnodes => exact ⟨⟨by simp [hst], by simp [hexpl], by simp [hnodes]⟩, rfl⟩
  | allRefused ht hp _ hready =>
    cases htopo.symm.trans ht
    cases hpolicy.symm.trans hp
    exact absurd hready (hnot _)
  | kept ht hp _ hready =>
    cases htopo.symm.trans ht
    cases hpolicy.symm.trans hp
    exact absurd hready (hnot _)
  | committed ht hp _ hready =>
    cases htopo.symm.trans ht
    cases hpolicy.symm.trans hp
    exact absurd hready (hnot _)

theorem report_call (htopo : c.topology = some topo) (hpolicy : c.policy = some policy)
    (hready : Ready topo policy c.liveEpoch pins c.request) :
    Report pq topo policy ledger c.fences c.liveEpoch c.request pins (c.outcome pq ledger) := by
  have hcontext : c.context ledger = .of topo policy ledger c.fences c.liveEpoch := by
    unfold Call.context EngineContext.of
    rw [htopo, hpolicy]
  unfold Call.outcome
  rw [hcontext]
  exact report_of_ready pq ledger c.fences hready

/-- The two calls report the same and write the same records. -/
structure SameCall (pq : EntryQueue) (ledger : PropagationLedger) (c c' : Call) : Prop where
  nodes : (c.outcome pq ledger).nodes = (c'.outcome pq ledger).nodes
  explanations : (c.outcome pq ledger).explanations.map PropagationExplanation.unnumbered =
    (c'.outcome pq ledger).explanations.map PropagationExplanation.unnumbered
  ledger : c.after pq ledger =
    withLineages (c'.after pq ledger) (c.after pq ledger).lineages

theorem committed_eq : committed pq topo policy ledger fences pins request =
    withLineages (commitDamping request.now
      (progress pq topo policy ledger fences pins request).explanations
      (commitApplications request.now
        (aggregateNodes policy (progress pq topo policy ledger fences pins request).acc) ledger).2)
      (((liveSignals policy ledger request).map PressureSignal.lineage).foldl Window.mark
        ledger.lineages) := by
  unfold committed
  dsimp only
  rw [markLineages_eq, commitApplications_withLineages, commitDamping_withLineages]

theorem sameCall_of_alike {c' : Call} (htopo : c.topology = some topo)
    (hpolicy : c.policy = some policy) (htopo' : c'.topology = some topo)
    (hpolicy' : c'.policy = some policy) (hnow : c'.request.now = c.request.now)
    (hdry : c'.request.dryRun = c.request.dryRun)
    (hready : Ready topo policy c.liveEpoch pins c.request)
    (hready' : Ready topo policy c'.liveEpoch pins c'.request)
    (h : Alike (progress pq topo policy ledger c.fences pins c.request)
      (progress pq topo policy ledger c'.fences pins c'.request)) :
    SameCall pq ledger c c' ∧ (liveSignals policy ledger c.request = liveSignals policy ledger
      c'.request → c.after pq ledger = c'.after pq ledger) := by
  have hreport := @report_call pq topo policy ledger pins c htopo hpolicy hready
  have hreport' := @report_call pq topo policy ledger pins c' htopo' hpolicy' hready'
  obtain ⟨hwrite, hkeep⟩ := @after_of_ready pq topo policy ledger pins c htopo hpolicy hready
  obtain ⟨hwrite', hkeep'⟩ := @after_of_ready pq topo policy ledger pins c' htopo' hpolicy' hready'
  have hcommits : Commits pq topo policy ledger c'.fences pins c'.request ↔
      Commits pq topo policy ledger c.fences pins c.request := by
    unfold Commits
    rw [h.truncated, h.accepted, hdry]
  have hdampings : ∀ now (x : PropagationLedger), commitDamping now
      (progress pq topo policy ledger c'.fences pins c'.request).explanations x =
        commitDamping now (progress pq topo policy ledger c.fences pins c.request).explanations x := by
    intro now x
    rw [← commitDamping_unnumbered, h.explanations, commitDamping_unnumbered]
  refine ⟨⟨?_, ?_, ?_⟩, fun hlive => ?_⟩
  · rw [hreport.nodes, hreport'.nodes, h.acc]
  · rw [hreport.explanations, hreport'.explanations, h.explanations]
  · by_cases hcommit : Commits pq topo policy ledger c.fences pins c.request
    · rw [hwrite hcommit, hwrite' (hcommits.mpr hcommit), committed_eq, committed_eq, h.acc,
        hdampings, hnow]
      rfl
    · rw [hkeep hcommit, hkeep' fun hyes => hcommit (hcommits.mp hyes)]
      rfl
  · by_cases hcommit : Commits pq topo policy ledger c.fences pins c.request
    · rw [hwrite hcommit, hwrite' (hcommits.mpr hcommit), committed_eq, committed_eq, h.acc,
        hdampings, hnow, hlive]
    · rw [hkeep hcommit, hkeep' fun hyes => hcommit (hcommits.mp hyes)]

/-- Removing a signal that is not missed leaves the request as admitted as it was. -/
theorem ready_remove (hsplit : c.request.signals = before ++ s :: after)
    (hsources : c.request.signals.length ≤ policy.maxSources.toNat)
    (hother : acceptedAmong policy c.request (before ++ after) ≠ [])
    (hfull : acceptedAmong policy c.request (before ++ s :: after) ≠ []) :
    Ready topo policy c.liveEpoch pins c.request ↔
      Ready topo policy c.liveEpoch pins (c.withSignals (before ++ after)).request := by
  have hlen : (before ++ after).length ≤ policy.maxSources.toNat := by
    rw [hsplit] at hsources
    simp only [List.length_append, List.length_cons] at hsources ⊢
    omega
  refine ⟨fun h => ready_withSignals h hlen hother, fun h => ?_⟩
  have hback := ready_withSignals h hsources (hsplit ▸ hfull)
  exact hback

/-- What is reported of a refused signal, and written for it, when the rest makes no difference. -/
theorem sameCall_remove (htopo : c.topology = some topo) (hpolicy : c.policy = some policy)
    (hsplit : c.request.signals = before ++ s :: after)
    (hsources : c.request.signals.length ≤ policy.maxSources.toNat)
    (hother : acceptedAmong policy c.request (before ++ after) ≠ [])
    (hfull : acceptedAmong policy c.request (before ++ s :: after) ≠ [])
    (h : ∀ pins, Alike
      (progress pq topo policy ledger c.fences pins
        (withSignals c.request (before ++ s :: after)))
      (progress pq topo policy ledger c.fences pins (withSignals c.request (before ++ after)))) :
    SameCall pq ledger c (c.withSignals (before ++ after)) ∧
      (liveSignals policy ledger c.request =
        liveSignals policy ledger (c.withSignals (before ++ after)).request →
          c.after pq ledger = (c.withSignals (before ++ after)).after pq ledger) := by
  have hself : withSignals c.request (before ++ s :: after) = c.request := by
    rw [← hsplit]
    rfl
  by_cases hready : ∃ pins, Ready topo policy c.liveEpoch pins c.request
  · obtain ⟨pins, hready⟩ := hready
    have hready' := (ready_remove hsplit hsources hother hfull).mp hready
    have halike := h pins
    rw [hself] at halike
    exact sameCall_of_alike htopo hpolicy htopo hpolicy rfl rfl hready hready' halike
  · have hnot : ∀ pins, ¬Ready topo policy c.liveEpoch pins c.request :=
      fun pins hpins => hready ⟨pins, hpins⟩
    have hnot' : ∀ pins, ¬Ready topo policy c.liveEpoch pins
        (c.withSignals (before ++ after)).request :=
      fun pins hpins => hnot pins ((ready_remove hsplit hsources hother hfull).mpr hpins)
    obtain ⟨hsilent, hkept⟩ := @unready_call pq topo policy ledger c htopo hpolicy hnot
    obtain ⟨hsilent', hkept'⟩ := @unready_call pq topo policy ledger
      (c.withSignals (before ++ after)) htopo hpolicy hnot'
    refine ⟨⟨hsilent.nodes.trans hsilent'.nodes.symm, ?_, ?_⟩, fun _ => hkept.trans hkept'.symm⟩
    · rw [hsilent.explanations, hsilent'.explanations]
    · rw [hkept, hkept']
      rfl

/-- A mark is the lineage of a live signal. -/
theorem mem_marks {lineage : Digest128} (hpolicy : c.policy = some policy)
    (h : lineage ∈ c.marks pq ledger) :
    ∃ s ∈ liveSignals policy ledger c.request, s.lineage = lineage := by
  unfold Call.marks at h
  rw [hpolicy] at h
  cases htopo : c.topology with
  | none =>
    rw [htopo] at h
    cases h
  | some topo =>
    rw [htopo] at h
    dsimp only at h
    have hplan : PlanCase pq topo policy ledger c.fences c.liveEpoch c.request
      (plan pq topo policy ledger c.fences c.liveEpoch c.request) := plan_cases
    revert hplan h
    generalize plan pq topo policy ledger c.fences c.liveEpoch c.request = r
    intro h hplan
    cases hplan with
    | refused => cases h
    | allRefused => cases h
    | planned =>
      dsimp only at h
      split at h
      · exact List.mem_map.mp h
      · cases h

/-- A node outcome only contains contributions of live signals with a known origin. -/
theorem contribution_call (htopo : c.topology = some topo) (hpolicy : c.policy = some policy) :
    ∀ n ∈ (c.outcome pq ledger).nodes, ∀ x ∈ n.contributions,
      ∃ s ∈ liveSignals policy ledger c.request, x.source = s.source ∧ x.signal = s.id ∧
        topo.indexOf s.origin ≠ none := by
  intro n hn x hx
  by_cases hready : ∃ pins, Ready topo policy c.liveEpoch pins c.request
  · obtain ⟨pins, hready⟩ := hready
    have hreport := @report_call pq topo policy ledger pins c htopo hpolicy hready
    exact contribution_from n (hreport.nodes ▸ hn) x hx
  · obtain ⟨hsilent, -⟩ := @unready_call pq topo policy ledger c htopo hpolicy
      fun pins hpins => hready ⟨pins, hpins⟩
    rw [hsilent.nodes] at hn
    cases hn

/-- A rejection is one of the admission, or of a live signal without a known origin. -/
theorem rejection_progress
    (hr : r ∈ (progress pq topo policy ledger fences pins request).rejections) :
    r ∈ (admission policy request).rejections ∨
      ∃ s ∈ liveSignals policy ledger request, topo.indexOf s.origin = none ∧
        r.signal = s.id ∧ r.source = s.source := by
  rw [progress_eq] at hr
  revert r
  refine List.foldlRecOn (motive := fun p : Progress => ∀ {r : RejectionRecord}, r ∈ p.rejections →
    r ∈ (admission policy request).rejections ∨
      ∃ s ∈ liveSignals policy ledger request, topo.indexOf s.origin = none ∧
        r.signal = s.id ∧ r.source = s.source) _ _ (fun hr => .inl hr) fun p hp s hs => ?_
  intro r hr
  cases traverse_cases pq topo policy ledger fences pins request p s with
  | refused _ hstart _ _ _ hrej =>
    rw [hrej] at hr
    rcases List.mem_append.mp hr with hr | hr
    · exact hp hr
    · rw [List.mem_singleton.mp hr]
      refine .inr ⟨s, hs, ?_, rfl, rfl⟩
      -- an accepted signal has pressure to start with, so it is the origin that is missing
      cases hindex : topo.indexOf s.origin with
      | none => rfl
      | some i =>
        obtain ⟨origin, hres, hid⟩ := Topology.resourceAt_of_indexOf hindex
        exact absurd ⟨⟨i, origin, hindex, hres, hid⟩,
          (accepted_of_mem (List.mem_filter.mp hs).1).seed⟩ hstart
  | ran _ _ _ _ _ _ _ hrej => exact hp (hrej ▸ hr)

theorem rejection_plan {o : PropagationOutcome}
    (h : plan pq topo policy ledger fences liveEpoch request = .error o) (hr : r ∈ o.rejections) :
    r ∈ (admission policy request).rejections ∨
      ∃ pins, r ∈ (progress pq topo policy ledger fences pins request).rejections := by
  unfold plan at h
  dsimp only at h
  split at h
  · cases h
    cases hr
  · split at h
    · cases h
      cases hr
    · split at h
      · cases h
        cases hr
      · split at h
        · cases h
          cases hr
        · unfold planSignals at h
          dsimp only at h
          split at h
          · cases h
            exact .inl hr
          · split at h
            · cases h
              exact .inr ⟨_, hr⟩
            · cases h

theorem rejection_call (htopo : c.topology = some topo) (hpolicy : c.policy = some policy)
    (hr : r ∈ (c.outcome pq ledger).rejections) : r ∈ (admission policy c.request).rejections ∨
      ∃ pins, r ∈ (progress pq topo policy ledger c.fences pins c.request).rejections := by
  unfold Call.outcome Call.context propagate at hr
  rw [htopo, hpolicy] at hr
  dsimp only at hr
  cases hplan : plan pq topo policy ledger c.fences c.liveEpoch c.request with
  | error o =>
    rw [hplan] at hr
    exact rejection_plan hplan (by simpa using hr)
  | ok p =>
    have hcase : PlanCase pq topo policy ledger c.fences c.liveEpoch c.request
      (plan pq topo policy ledger c.fences c.liveEpoch c.request) := plan_cases
    rw [hplan] at hr hcase
    cases hcase with
    | @planned pins =>
      refine .inr ⟨pins, ?_⟩
      dsimp only at hr
      split at hr
      · unfold commit at hr
        dsimp only at hr
        split at hr <;> simpa using hr
      · simpa using hr

end Remove

/-! ## Refused signals leave no trace -/

/-- A signal refused at the admission: no lineage is marked and no contribution made but those of
the other signals, and nothing changes when it is removed. -/
structure UntracedAtAdmission (pq : EntryQueue) (policy : PropagationPolicy)
    (ledger : PropagationLedger) (c : Call) (s : PressureSignal) (others : List PressureSignal) :
    Prop where
  lineage : s.lineage ∈ c.marks pq ledger →
    ∃ s' ∈ acceptedAmong policy c.request others, s'.lineage = s.lineage
  contributions : ∀ n ∈ (c.outcome pq ledger).nodes, ∀ x ∈ n.contributions,
    ∃ s' ∈ acceptedAmong policy c.request others, x.source = s'.source ∧ x.signal = s'.id
  same : acceptedAmong policy c.request others ≠ [] →
    SameCall pq ledger c (c.withSignals others) ∧
      c.after pq ledger = (c.withSignals others).after pq ledger

/-- A signal refused in its traversal contributes nothing, and what is reported and recorded does
not change when it is removed without letting in another one. -/
structure UntracedInTraversal (pq : EntryQueue) (policy : PropagationPolicy)
    (ledger : PropagationLedger) (c : Call) (before : List PressureSignal) (s : PressureSignal)
    (after : List PressureSignal) : Prop where
  contributions : ∀ n ∈ (c.outcome pq ledger).nodes, ∀ x ∈ n.contributions, x.source ≠ s.source
  same : Unrivalled policy c.request s after →
    acceptedAmong policy c.request (before ++ after) ≠ [] →
      SameCall pq ledger c (c.withSignals (before ++ after))

theorem mem_acceptedAmong
    (h : (admitSignal policy request (acceptedAmong policy request before) s).ok = true) :
    s ∈ acceptedAmong policy request (before ++ s :: after) := by
  have htake : acceptNext policy request (acceptedAmong policy request before) s =
      acceptedAmong policy request before ++ [s] := if_pos h
  rw [acceptedAmong_append, List.foldl_cons, htake]
  refine List.foldlRecOn (motive := fun accepted => s ∈ accepted) _ _
    (List.mem_append_right _ List.mem_cons_self) fun accepted hmem s' _ => ?_
  unfold acceptNext
  split
  · exact List.mem_append_left _ hmem
  · exact hmem

section Untraced

variable {c : Call}

theorem untraced_at_admission (htopo : c.topology = some topo) (hpolicy : c.policy = some policy)
    (hsources : c.request.signals.length ≤ policy.maxSources.toNat)
    (hsplit : c.request.signals = before ++ s :: after)
    (h : RefusedAtAdmission policy c.request before s) :
    UntracedAtAdmission pq policy ledger c s (before ++ after) := by
  have hless := @acceptedAmong_refused policy c.request before after s h
  have haccepted : ∀ s' ∈ liveSignals policy ledger c.request,
      s' ∈ acceptedAmong policy c.request (before ++ after) := by
    intro s' hs'
    rw [← hless, ← hsplit, ← accepted_admission]
    exact (List.mem_filter.mp hs').1
  refine ⟨fun hmark => ?_, fun n hn x hx => ?_, fun hother => ?_⟩
  · obtain ⟨s', hs', hlineage⟩ := mem_marks hpolicy hmark
    exact ⟨s', haccepted s' hs', hlineage⟩
  · obtain ⟨s', hs', hsource, hid, -⟩ := contribution_call htopo hpolicy n hn x hx
    exact ⟨s', haccepted s' hs', hsource, hid⟩
  · obtain ⟨hsame, hwhole⟩ := @sameCall_remove pq topo policy ledger before after s c htopo hpolicy
      hsplit hsources hother (hless ▸ hother) fun pins => alike_of_refusedAtAdmission h
    refine ⟨hsame, hwhole ?_⟩
    rw [liveSignals, accepted_admission, hsplit, hless]
    exact liveSignals_withSignals.symm

theorem untraced_in_traversal (htopo : c.topology = some topo) (hpolicy : c.policy = some policy)
    (hsources : c.request.signals.length ≤ policy.maxSources.toNat)
    (hsplit : c.request.signals = before ++ s :: after)
    (h : RefusedInTraversal topo policy ledger c.request before s) :
    UntracedInTraversal pq policy ledger c before s after := by
  have hmem := @mem_acceptedAmong policy c.request before after s h.accepted
  refine ⟨fun n hn x hx hsource => ?_, fun hrival hother => ?_⟩
  · obtain ⟨s', hs', hsource', -, horigin⟩ := contribution_call htopo hpolicy n hn x hx
    have hs : s ∈ (admission policy c.request).accepted := by
      rw [accepted_admission, hsplit]
      exact hmem
    obtain rfl := accepted_source_injective (List.mem_filter.mp hs').1 hs
      (hsource'.symm.trans hsource)
    exact horigin h.origin
  · exact (@sameCall_remove pq topo policy ledger before after s c htopo hpolicy hsplit hsources
      hother (List.ne_nil_of_mem hmem) fun pins => alike_of_refusedInTraversal h hrival).1

/-- Every rejection belongs to a signal refused at the admission or in its traversal, and neither
leaves a trace. -/
theorem refused_untraced (pq : EntryQueue) (ledger : PropagationLedger)
    (htopo : c.topology = some topo) (hpolicy : c.policy = some policy)
    (hsources : c.request.signals.length ≤ policy.maxSources.toNat) :
    (∀ r ∈ (c.outcome pq ledger).rejections, ∃ before s after,
      c.request.signals = before ++ s :: after ∧ r.signal = s.id ∧ r.source = s.source ∧
        (RefusedAtAdmission policy c.request before s ∨
          RefusedInTraversal topo policy ledger c.request before s)) ∧
    ∀ before s after, c.request.signals = before ++ s :: after →
      (RefusedAtAdmission policy c.request before s →
        UntracedAtAdmission pq policy ledger c s (before ++ after)) ∧
      (RefusedInTraversal topo policy ledger c.request before s →
        UntracedInTraversal pq policy ledger c before s after) := by
  refine ⟨fun r hr => ?_, fun before s after hsplit =>
    ⟨untraced_at_admission htopo hpolicy hsources hsplit,
      untraced_in_traversal htopo hpolicy hsources hsplit⟩⟩
  have hadmission : r ∈ (admission policy c.request).rejections → ∃ before s after,
      c.request.signals = before ++ s :: after ∧ r.signal = s.id ∧ r.source = s.source ∧
        (RefusedAtAdmission policy c.request before s ∨
          RefusedInTraversal topo policy ledger c.request before s) := by
    intro hr
    obtain ⟨before, s, after, hsplit, hrefused, hid, hsource⟩ := rejection_position hr
    exact ⟨before, s, after, hsplit, hid, hsource, .inl hrefused⟩
  rcases rejection_call htopo hpolicy hr with hr | ⟨pins, hr⟩
  · exact hadmission hr
  · rcases rejection_progress hr with hr | ⟨s, hs, horigin, hid, hsource⟩
    · exact hadmission hr
    · obtain ⟨haccepted, hlive⟩ := List.mem_filter.mp hs
      rw [accepted_admission] at haccepted
      obtain ⟨before, after, hsplit, hok⟩ := accepted_position haccepted
      exact ⟨before, s, after, hsplit, hid, hsource, .inr ⟨hok, hlive, horigin⟩⟩

end Untraced

/-! ## What does depend on a refused signal -/

def pairTopology : Topology :=
  probeTopology [probeResource ⟨7⟩, probeResource ⟨8⟩] [probeEdge ⟨1⟩ ⟨7⟩ ⟨8⟩]

/-- A probe of another source. -/
def probeFrom (source origin : UInt64) : PressureSignal :=
  { probeSignal probePolicy pairTopology ⟨origin⟩ 5 with
    id := ⟨source⟩, source := ⟨source⟩, lineage := ⟨source, 0⟩ }

def callWith (signals : List PressureSignal) : Call :=
  { probeCall 5 with request := withSignals (probeCall 5).request signals }

/-- A signal of another epoch, which the admission refuses. -/
def staleProbe : PressureSignal := { probeFrom 2 7 with epoch := ⟨9⟩ }

/-- The call without the signal differs: the explanations count a signal refused at the admission,
and one refused in its traversal keeps out a later signal of its source. -/
theorem refused_counted :
    (((callWith [probeFrom 1 7, staleProbe]).outcome .scan (.make 4 4 4)).rejections.map
        RejectionRecord.signal = [staleProbe.id] ∧
      ((callWith [probeFrom 1 7, staleProbe]).outcome .scan (.make 4 4 4)).explanations.map
          (fun e => e.counters.signalsReceived) = [2] ∧
      ((callWith [probeFrom 1 7]).outcome .scan (.make 4 4 4)).explanations.map
          (fun e => e.counters.signalsReceived) = [1]) ∧
    (((callWith [probeFrom 1 99, probeFrom 1 7, probeFrom 2 8]).outcome .scan
        (.make 4 4 4)).rejections.map RejectionRecord.signal = [⟨1⟩, ⟨1⟩] ∧
      ((callWith [probeFrom 1 99, probeFrom 1 7, probeFrom 2 8]).outcome .scan
        (.make 4 4 4)).nodes.map NodeOutcome.resource = [⟨8⟩] ∧
      ((callWith [probeFrom 1 7, probeFrom 2 8]).outcome .scan
        (.make 4 4 4)).nodes.map NodeOutcome.resource = [⟨7⟩, ⟨8⟩]) := by
  decide +kernel

/-- The two kinds of refusal at one accepted probe. -/
theorem untraced_probe :
    UntracedAtAdmission .scan probePolicy (.make 4 4 4) (callWith [probeFrom 1 7, staleProbe])
        staleProbe [probeFrom 1 7] ∧
      UntracedInTraversal .scan probePolicy (.make 4 4 4) (callWith [probeFrom 1 7, probeFrom 2 99])
        [probeFrom 1 7] (probeFrom 2 99) [] :=
  ⟨((refused_untraced .scan (.make 4 4 4) rfl rfl (by decide +kernel)).2 [probeFrom 1 7] staleProbe
      [] rfl).1 (by unfold RefusedAtAdmission; decide +kernel),
    ((refused_untraced .scan (.make 4 4 4) rfl rfl (by decide +kernel)).2 [probeFrom 1 7]
      (probeFrom 2 99) [] rfl).2 ⟨by decide +kernel, by decide +kernel, by decide +kernel⟩⟩

end PropagationEngine

end Backpressure
