import Backpressure.Engine.Cooldown

/-!
# What a commit leaves for the damping gate

A committed call writes a damping record for every hop that it has accepted, in the order of its
explanations. A later record of the same edge takes the place of an earlier one, and a full ledger
ends the records of an explanation without a word. So the gate of the next call sees every crossing
exactly when the crossed edges find room and the last crossing of each is its strongest.
-/

namespace Backpressure

namespace Crossing

variable {x y : Crossing} {l l' : List Crossing} {key : EdgeTargetKey}

/-- The keys that the crossings are recorded under. -/
def keys (l : List Crossing) : Finset EdgeTargetKey := (l.map Crossing.key).toFinset

/-- The last crossing of every edge is its strongest. -/
def Rising (l : List Crossing) : Prop :=
  ∀ x ∈ l, ∀ last ∈ (under x.key l).getLast?, x.magnitude.raw ≤ last.magnitude.raw

theorem keys_cons : keys (x :: l) = insert x.key (keys l) := List.toFinset_cons

theorem mem_under : x ∈ under key l ↔ x ∈ l ∧ x.key = key := by
  unfold under
  rw [List.mem_filter, decide_eq_true_eq]

theorem getLast?_under_of_mem (hx : x ∈ l) : ∃ last, (under x.key l).getLast? = some last := by
  have hne : under x.key l ≠ [] := List.ne_nil_of_mem (mem_under.mpr ⟨hx, rfl⟩)
  exact ⟨_, List.getLast?_eq_some_getLast hne⟩

theorem mem_ofHops {now : Tick} {hops : List HopRecord} :
    x ∈ ofHops now hops ↔ ∃ hop ∈ hops, hop.accepted = true ∧ x = ⟨now, hop⟩ := by
  unfold ofHops
  rw [List.mem_map]
  constructor
  · rintro ⟨hop, hhop, rfl⟩
    obtain ⟨hmem, haccepted⟩ := List.mem_filter.mp hhop
    exact ⟨hop, hmem, haccepted, rfl⟩
  · rintro ⟨hop, hmem, haccepted, rfl⟩
    exact ⟨hop, List.mem_filter.mpr ⟨hmem, haccepted⟩, rfl⟩

theorem ofHops_cons_of_pos {now : Tick} {hop : HopRecord} {hops : List HopRecord}
    (h : hop.accepted = true) : ofHops now (hop :: hops) = ⟨now, hop⟩ :: ofHops now hops := by
  unfold ofHops
  rw [List.filter_cons_of_pos h, List.map_cons]

theorem ofHops_cons_of_neg {now : Tick} {hop : HopRecord} {hops : List HopRecord}
    (h : ¬hop.accepted = true) : ofHops now (hop :: hops) = ofHops now hops := by
  unfold ofHops
  rw [List.filter_cons_of_neg h]

end Crossing

/-! ## The damping ledger -/

namespace PropagationLedger

open Crossing

variable {base ledger ledger' : PropagationLedger} {l : List Crossing} {x : Crossing}

/-- The keys that have a damping record. -/
def damped (ledger : PropagationLedger) : Finset EdgeTargetKey := ledger.dampings.keys.toFinset

/-- The crossings find room: every edge has a record already, or the records and the crossings
together have no more keys than the ledger takes. -/
def Room (ledger : PropagationLedger) (l : List Crossing) : Prop :=
  keys l ⊆ ledger.damped ∨ (ledger.damped ∪ keys l).card ≤ ledger.dampingCapacity

/-- The ledger after the record of one crossing. -/
def withCrossing (ledger : PropagationLedger) (x : Crossing) : PropagationLedger :=
  { ledger with dampings := ledger.dampings.insert x.key x.record }

theorem mem_damped {key : EdgeTargetKey} : key ∈ ledger.damped ↔ key ∈ ledger.dampings := by
  unfold damped
  rw [List.mem_toFinset, AList.mem_keys]

theorem card_damped : ledger.damped.card = ledger.dampings.entries.length := by
  unfold damped
  rw [List.toFinset_card_of_nodup ledger.dampings.keys_nodup, length_entries]

theorem damped_withCrossing : (ledger.withCrossing x).damped = insert x.key ledger.damped := by
  ext key
  rw [mem_damped, Finset.mem_insert, mem_damped]
  exact AList.mem_insert _

theorem recordDamping_eq : ledger.recordDamping x.hop.dst x.hop.edge x.magnitude x.tick =
    if x.key ∉ ledger.dampings ∧ ledger.dampingCapacity ≤ ledger.dampings.entries.length then
      (.error .limitExceeded "damping ledger" ledger.dampings.entries.length,
        { ledger with dampingRejections := ledger.dampingRejections + 1 })
    else (.success, ledger.withCrossing x) := rfl

/-- A record is refused only when it is a new one and the ledger is full. -/
theorem recordDamping_cases :
    (x.key ∈ ledger.damped ∨ ledger.damped.card < ledger.dampingCapacity) ∧
        ledger.recordDamping x.hop.dst x.hop.edge x.magnitude x.tick =
          (.success, ledger.withCrossing x) ∨
      (x.key ∉ ledger.damped ∧ ledger.dampingCapacity ≤ ledger.damped.card) ∧
        (ledger.recordDamping x.hop.dst x.hop.edge x.magnitude x.tick).1.ok = false ∧
        (ledger.recordDamping x.hop.dst x.hop.edge x.magnitude x.tick).2.dampings =
          ledger.dampings ∧
        (ledger.recordDamping x.hop.dst x.hop.edge x.magnitude x.tick).2.dampingCapacity =
          ledger.dampingCapacity := by
  rw [mem_damped, card_damped, recordDamping_eq]
  by_cases hfull : x.key ∉ ledger.dampings ∧ ledger.dampingCapacity ≤ ledger.dampings.entries.length
  · right
    refine ⟨hfull, ?_⟩
    rw [if_pos hfull]
    exact ⟨rfl, rfl, rfl⟩
  · left
    rw [not_and_or, not_not, Nat.not_le] at hfull
    refine ⟨hfull, if_neg ?_⟩
    rintro ⟨hnew, hle⟩
    rcases hfull with hmem | hlt
    · exact hnew hmem
    · omega

/-- The first of the crossings that find room is recorded, and the others find room beside it. -/
theorem Room.cons (h : ledger.Room (x :: l)) :
    ledger.recordDamping x.hop.dst x.hop.edge x.magnitude x.tick =
        (.success, ledger.withCrossing x) ∧
      (ledger.withCrossing x).Room l := by
  unfold Room at h
  rw [keys_cons] at h
  constructor
  · rcases @recordDamping_cases ledger x with ⟨-, hok⟩ | ⟨⟨hnew, hfull⟩, -⟩
    · exact hok
    · exfalso
      rcases h with hsub | hcard
      · exact hnew (hsub (Finset.mem_insert_self _ _))
      · have hssub : ledger.damped ⊂ ledger.damped ∪ insert x.key (keys l) := by
          refine Finset.ssubset_iff_subset_ne.mpr ⟨Finset.subset_union_left, fun heq => hnew ?_⟩
          rw [heq]
          exact Finset.mem_union_right _ (Finset.mem_insert_self _ _)
        have hlt := Finset.card_lt_card hssub
        omega
  · unfold Room
    rw [damped_withCrossing]
    apply h.imp
    · exact fun hsub => (Finset.subset_insert _ _).trans (hsub.trans (Finset.subset_insert _ _))
    · intro hcard
      rwa [Finset.insert_union, ← Finset.union_insert]

theorem Room.append {l' : List Crossing} (h : ledger.Room (l ++ l')) :
    ledger.Room l := by
  have hkeys : keys l ⊆ keys (l ++ l') := by
    intro key hkey
    unfold keys at hkey ⊢
    rw [List.map_append, List.toFinset_append]
    exact Finset.mem_union_left _ hkey
  refine h.imp hkeys.trans fun hcard => ?_
  exact (Finset.card_le_card (Finset.union_subset_union_right hkeys)).trans hcard

/-- The records grow, and past the capacity they stay what they were. -/
structure Grows (ledger ledger' : PropagationLedger) : Prop where
  capacity : ledger'.dampingCapacity = ledger.dampingCapacity
  kept : ledger.damped ⊆ ledger'.damped
  bounded : ledger'.damped = ledger.damped ∨ ledger'.damped.card ≤ ledger.dampingCapacity

theorem Grows.of_eq (hsame : ledger'.dampings = ledger.dampings)
    (hcap : ledger'.dampingCapacity = ledger.dampingCapacity) : Grows ledger ledger' := by
  have hdamped : ledger'.damped = ledger.damped := by
    unfold damped
    rw [hsame]
  exact ⟨hcap, hdamped.superset, .inl hdamped⟩

theorem Grows.trans {ledger'' : PropagationLedger} (h : Grows ledger ledger')
    (h' : Grows ledger' ledger'') : Grows ledger ledger'' where
  capacity := h'.capacity.trans h.capacity
  kept := h.kept.trans h'.kept
  bounded := by
    rcases h'.bounded with hsame | hcard
    · rw [hsame]
      exact h.bounded
    · rw [h.capacity] at hcard
      exact .inr hcard

theorem grows_recordDamping :
    Grows ledger (ledger.recordDamping x.hop.dst x.hop.edge x.magnitude x.tick).2 := by
  rcases @recordDamping_cases ledger x with ⟨hroom, hok⟩ | ⟨-, -, hsame, hcap⟩
  · rw [hok]
    refine ⟨rfl, ?_, ?_⟩ <;> dsimp only <;> rw [damped_withCrossing]
    · exact Finset.subset_insert _ _
    · apply hroom.imp
      · exact Finset.insert_eq_of_mem
      · intro hlt
        have hcard := Finset.card_insert_le x.key ledger.damped
        omega
  · exact Grows.of_eq hsame hcap

/-- What grows to hold every crossing has had room for them. -/
theorem Grows.room (h : Grows ledger ledger') (hall : keys l ⊆ ledger'.damped) : ledger.Room l := by
  rcases h.bounded with hsame | hcard
  · exact .inl (hsame ▸ hall)
  · exact .inr ((Finset.card_le_card (Finset.union_subset h.kept hall)).trans hcard)

end PropagationLedger

namespace PropagationEngine

open Crossing PropagationLedger Traversal

variable {pq : EntryQueue} {topo : Topology} {policy : PropagationPolicy}
  {base ledger : PropagationLedger} {fences : Option FenceTable} {pins : List (Option Generation)}
  {request : PropagationRequest} {s : PressureSignal} {l l' : List Crossing} {now : Tick} {c : Call}
  {explanations : List PropagationExplanation}

/-! ## The loops over the hops -/

theorem grows_commitHops {hops : List HopRecord} : Grows ledger (commitHops now hops ledger) := by
  induction hops generalizing ledger with
  | nil => exact .of_eq rfl rfl
  | cons hop rest ih =>
    rw [commitHops]
    split
    · exact ih
    · have hgrows := @grows_recordDamping ledger ⟨now, hop⟩
      dsimp only
      split
      · exact hgrows.trans ih
      · exact hgrows

theorem grows_commitDamping : Grows ledger (commitDamping now explanations ledger) := by
  unfold commitDamping
  exact List.foldlRecOn (motive := Grows ledger) _ _ (.of_eq rfl rfl)
    fun ledger' hgrows e _ => hgrows.trans grows_commitHops

/-- With room for all crossings, no accepted hop of an explanation is refused. -/
theorem room_commitHops {hops : List HopRecord} (hroom : ledger.Room (ofHops now hops ++ l')) :
    (commitHops now hops ledger).dampingRejections = ledger.dampingRejections ∧
      (commitHops now hops ledger).Room l' := by
  induction hops generalizing ledger with
  | nil => exact ⟨rfl, hroom⟩
  | cons hop rest ih =>
    rw [commitHops]
    by_cases haccepted : hop.accepted = true
    · rw [ofHops_cons_of_pos haccepted] at hroom
      obtain ⟨hok, hrest⟩ := Room.cons hroom
      have hfirst : ledger.recordDamping hop.dst hop.edge hop.potentialAfter.toMagnitude now =
          (.success, ledger.withCrossing ⟨now, hop⟩) := hok
      rw [if_neg (by simp [haccepted]), hfirst]
      exact ih hrest
    · rw [ofHops_cons_of_neg haccepted] at hroom
      rw [if_pos (by simpa using haccepted)]
      exact ih hroom

/-- The crossings of explanations, in the order in which they are recorded. -/
def crossingsIn (now : Tick) (explanations : List PropagationExplanation) : List Crossing :=
  explanations.flatMap fun e => ofHops now e.hops

theorem room_commitDamping (hroom : ledger.Room (crossingsIn now explanations)) :
    (commitDamping now explanations ledger).dampingRejections = ledger.dampingRejections := by
  induction explanations generalizing ledger with
  | nil => rfl
  | cons e rest ih =>
    unfold crossingsIn at hroom
    rw [List.flatMap_cons] at hroom
    obtain ⟨hfirst, hrest⟩ := room_commitHops hroom
    exact (ih hrest).trans hfirst

/-! ## What is kept of the crossings -/

/-- Every accepted hop has left a damping record of the time of the call that is as strong as the
hop. -/
def DampingKept (now : Tick) (explanations : List PropagationExplanation)
    (ledger : PropagationLedger) : Prop :=
  ∀ e ∈ explanations, ∀ hop ∈ e.hops, hop.accepted = true →
    (ledger.damping hop.dst hop.edge).present = true ∧
    (ledger.damping hop.dst hop.edge).tick = now ∧
    hop.potentialAfter.toMagnitude.raw ≤ (ledger.damping hop.dst hop.edge).magnitude.raw

theorem mem_crossingsIn {x : Crossing} : x ∈ crossingsIn now explanations ↔
    ∃ e ∈ explanations, ∃ hop ∈ e.hops, hop.accepted = true ∧ x = ⟨now, hop⟩ := by
  unfold crossingsIn
  simp only [List.mem_flatMap, mem_ofHops]

/-- A record that is present has a key. -/
theorem damped_of_present {target : ResourceId} {edge : EdgeId}
    (h : (ledger.damping target edge).present = true) : ⟨target, edge⟩ ∈ ledger.damped := by
  rw [mem_damped]
  by_contra hnone
  unfold PropagationLedger.damping at h
  rw [AList.lookup_eq_none.mpr hnone] at h
  cases h

/-- The commit keeps the crossings exactly when they find room and the last crossing of every edge
is its strongest. -/
theorem dampingKept_iff : DampingKept now explanations (commitDamping now explanations ledger) ↔
    ledger.Room (crossingsIn now explanations) ∧ Rising (crossingsIn now explanations) := by
  have hlast (hroom : ledger.Room (crossingsIn now explanations)) :
      ∀ x ∈ crossingsIn now explanations, ∃ last ∈ crossingsIn now explanations,
        (under x.key (crossingsIn now explanations)).getLast? = some last ∧
        (commitDamping now explanations ledger).damping x.hop.dst x.hop.edge = last.record := by
    intro x hx
    obtain ⟨last, hlast⟩ := getLast?_under_of_mem hx
    have hmem := (mem_under.mp (List.mem_of_getLast? hlast)).1
    refine ⟨last, hmem, hlast, ?_⟩
    have hfollows := Follows.commitDamping .refl (room_commitDamping hroom) x.key
    unfold crossingsIn at hlast
    rw [List.nil_append, hlast] at hfollows
    unfold PropagationLedger.damping
    exact congrArg (Option.getD · _) hfollows
  constructor
  · intro hkept
    have hroom : ledger.Room (crossingsIn now explanations) := by
      apply grows_commitDamping.room
      intro key hkey
      obtain ⟨x, hx, rfl⟩ := List.mem_map.mp (List.mem_toFinset.mp hkey)
      obtain ⟨e, he, hop, hhop, haccepted, rfl⟩ := mem_crossingsIn.mp hx
      exact damped_of_present (hkept e he hop hhop haccepted).1
    refine ⟨hroom, fun x hx last hstrongest => ?_⟩
    obtain ⟨last', -, hlast', hrecord⟩ := hlast hroom x hx
    obtain rfl : last' = last := Option.some.inj (hlast'.symm.trans hstrongest)
    obtain ⟨e, he, hop, hhop, haccepted, rfl⟩ := mem_crossingsIn.mp hx
    obtain ⟨-, -, hstrong⟩ := hkept e he hop hhop haccepted
    rw [hrecord] at hstrong
    exact hstrong
  · rintro ⟨hroom, hrising⟩ e he hop hhop haccepted
    have hx : ⟨now, hop⟩ ∈ crossingsIn now explanations :=
      mem_crossingsIn.mpr ⟨e, he, hop, hhop, haccepted, rfl⟩
    obtain ⟨last, hmem, hlast, hrecord⟩ := hlast hroom _ hx
    obtain ⟨-, -, hop', -, -, rfl⟩ := mem_crossingsIn.mp hmem
    rw [hrecord]
    exact ⟨rfl, rfl, hrising _ hx _ hlast⟩

/-! ## The crossings of a call -/

/-- What the live signals cross, each traversing by itself. -/
def passages (pq : EntryQueue) (topo : Topology) (policy : PropagationPolicy)
    (ledger : PropagationLedger) (fences : Option FenceTable) (pins : List (Option Generation))
    (request : PropagationRequest) : List Crossing :=
  (liveSignals policy ledger request).flatMap fun s =>
    ofHops request.now (aloneTraversal pq topo policy ledger fences pins request s).2.expl.hops

/-- What the live signals of a call cross; nothing when the call lacks something it needs. -/
def Call.passages (pq : EntryQueue) (ledger : PropagationLedger) (c : Call) : List Crossing :=
  match c.topology, c.policy with
  | some topo, some policy =>
    match resolvePins topo c.request.pins with
    | .ok pins => PropagationEngine.passages pq topo policy ledger c.fences pins c.request
    | .error _ => []
  | _, _ => []

/-- A refused traversal has crossed nothing. -/
theorem hops_of_refused {p : Progress} {st : Status} {t : Traversal pq} (hst : st.ok = false)
    (hrun : (startTraversal pq topo policy request p s).run
      (traversalContext topo policy ledger fences pins request s) = (st, t)) : t.expl.hops = [] := by
  have hcase := enter_cases (traversalContext topo policy ledger fences pins request s)
    (@startTraversal_fresh pq topo policy request p s)
  unfold run at hrun
  revert hrun hcase
  generalize (startTraversal pq topo policy request p s).enter
    (traversalContext topo policy ledger fences pins request s) = r
  intro hrun hcase
  cases hcase with
  | refused =>
    cases hrun
    rfl
  | blocked => cases hrun; cases hst
  | seeded => cases hrun; cases hst

/-- What other signals have left behind plays no part in what a traversal crosses. -/
theorem hops_alone (p : Progress) : ((startTraversal pq topo policy request p s).run
      (traversalContext topo policy ledger fences pins request s)).2.expl.hops =
    (aloneTraversal pq topo policy ledger fences pins request s).2.expl.hops := by
  obtain ⟨ws, st, u, hruns⟩ := run_withOutputs
    (traversalContext topo policy ledger fences pins request s)
    (startTraversal pq topo policy request p s)
  have hhere := hruns ⟨p.acc, p.counters, p.truncated⟩
  have hthere := hruns ⟨∅, (unstarted policy ledger topo request).counters, false⟩
  have hself : (startTraversal pq topo policy request p s).withOutputs
      ⟨p.acc, p.counters, p.truncated⟩ = startTraversal pq topo policy request p s := rfl
  have halone : (startTraversal pq topo policy request p s).withOutputs
      ⟨∅, (unstarted policy ledger topo request).counters, false⟩ =
        startTraversal pq topo policy request (unstarted policy ledger topo request) s := rfl
  unfold aloneTraversal
  rw [hself] at hhere
  rw [halone] at hthere
  rw [hhere, hthere]
  rfl

/-- The explanations report what the live signals cross by themselves. -/
theorem crossingsIn_progress :
    crossingsIn request.now (progress pq topo policy ledger fences pins request).explanations =
      passages pq topo policy ledger fences pins request := by
  refine progress_induction (P := fun l p => crossingsIn request.now p.explanations =
    l.flatMap fun s =>
      ofHops request.now (aloneTraversal pq topo policy ledger fences pins request s).2.expl.hops)
    ?_ ?_
  · rw [List.flatMap_nil, crossingsIn, List.flatMap_eq_nil_iff]
    intro e he
    obtain ⟨hnone, -⟩ := unstarted_spec.replays e he
    rw [hnone]
    rfl
  · rintro before s after - hp
    rcases hrun : (startTraversal pq topo policy request
      (progressBefore pq topo policy ledger fences pins request s) s).run
        (traversalContext topo policy ledger fences pins request s) with ⟨st, t⟩
    have hleft := traverse_left hrun
    have hhops : t.expl.hops =
        (aloneTraversal pq topo policy ledger fences pins request s).2.expl.hops := by
      rw [← hops_alone (progressBefore pq topo policy ledger fences pins request s), hrun]
    rw [List.flatMap_append, List.flatMap_singleton, ← hp, ← hhops, hleft.explanations]
    unfold crossingsIn
    rw [List.flatMap_append]
    apply congrArg
    cases hst : st.ok with
    | false =>
      rw [if_neg Bool.false_ne_true, hops_of_refused hst hrun]
      rfl
    | true => rw [if_pos rfl, List.flatMap_singleton]; rfl

theorem dampingCapacity_commitApplications {nodes : List NodeOutcome} :
    (commitApplications now nodes ledger).2.dampingCapacity = ledger.dampingCapacity := by
  have hrecord : ∀ (ledger : PropagationLedger) (source : SourceId) (resource : ResourceId)
      (m : Magnitude), (ledger.recordApplication source resource m now).2.dampingCapacity =
        ledger.dampingCapacity := by
    intro ledger source resource m
    unfold recordApplication
    dsimp only
    split <;> rfl
  induction nodes generalizing ledger with
  | nil => rfl
  | cons n rest ih =>
    rw [commitApplications]
    split
    · exact ih
    · dsimp only
      split
      · exact ih.trans (hrecord _ _ _ _)
      · exact hrecord _ _ _ _

/-- A call that succeeds has a topology and a policy. -/
theorem present_of_ok (hok : (c.outcome pq ledger).status.ok = true) :
    ∃ topo policy, c.topology = some topo ∧ c.policy = some policy := by
  have hcase := propagate_cases pq (c.context ledger) c.request
  unfold Call.outcome at hok
  revert hcase hok
  generalize propagate pq (c.context ledger) c.request = r
  intro hok hcase
  cases hcase with
  | refused _ hst => simp [hst] at hok
  | allRefused htopo hpolicy => exact ⟨_, _, htopo, hpolicy⟩
  | kept htopo hpolicy => exact ⟨_, _, htopo, hpolicy⟩
  | committed htopo hpolicy => exact ⟨_, _, htopo, hpolicy⟩

/-- A committed call keeps what it has crossed exactly when the crossings find room in the damping
ledger and the last crossing of every edge is its strongest. -/
theorem damping_kept_iff (pq : EntryQueue) (ledger : PropagationLedger) (c : Call)
    (hcommitted : c.request.dryRun = false) (hok : (c.outcome pq ledger).status.ok = true)
    (hcomplete : (c.outcome pq ledger).complete = true) :
    DampingKept c.request.now (c.outcome pq ledger).explanations (c.after pq ledger) ↔
      ledger.Room (c.passages pq ledger) ∧ Rising (c.passages pq ledger) := by
  obtain ⟨topo, policy, htopo, hpolicy⟩ := present_of_ok hok
  obtain ⟨pins, hready, hexplanations, -, hafter⟩ :=
    written_call htopo hpolicy hcommitted hok hcomplete
  have hpassages : c.passages pq ledger =
      crossingsIn c.request.now
        (progress pq topo policy ledger c.fences pins c.request).explanations := by
    rw [crossingsIn_progress]
    unfold Call.passages
    rw [htopo, hpolicy]
    dsimp only
    rw [hready.pins]
  rw [hexplanations, hafter, hpassages]
  unfold committed
  dsimp only
  rw [dampingKept_iff]
  apply and_congr_left'
  obtain ⟨hsame, hcap⟩ : (commitApplications c.request.now
        (aggregateNodes policy (progress pq topo policy ledger c.fences pins c.request).acc)
        (markLineages (liveSignals policy ledger c.request) ledger)).2.dampings = ledger.dampings ∧
      (commitApplications c.request.now
        (aggregateNodes policy (progress pq topo policy ledger c.fences pins c.request).acc)
        (markLineages (liveSignals policy ledger c.request) ledger)).2.dampingCapacity =
          ledger.dampingCapacity := by
    refine ⟨dampings_commitApplications.trans (dampings_markLineages _ _), ?_⟩
    rw [dampingCapacity_commitApplications, markLineages_eq]
    rfl
  unfold Room damped
  rw [hsame, hcap]

/-- One crossing, with room for its record. -/
theorem damping_kept_probe :
    let topo := probeTopology [probeResource ⟨7⟩, probeResource ⟨8⟩] [probeEdge ⟨1⟩ ⟨7⟩ ⟨8⟩]
    let c := cooldownCall topo probePolicy .one { lo := 1 } 5
    c.passages .scan (.make 4 4 4) ≠ [] ∧
      DampingKept 5 (c.outcome .scan (.make 4 4 4)).explanations (c.after .scan (.make 4 4 4)) := by
  intro topo c
  refine ⟨by decide +kernel, ?_⟩
  apply (damping_kept_iff .scan (.make 4 4 4) c rfl (by decide +kernel) (by decide +kernel)).mpr
  unfold PropagationLedger.Room Rising
  decide +kernel

/-- Two sources observe full and half pressure at one resource. -/
def fadingCall (topo : Topology) (policy : PropagationPolicy) : Call :=
  let c := cooldownCall topo policy .one { lo := 1 } 5
  let weak := { probeSignal policy topo ⟨7⟩ 5 with
    id := ⟨2⟩, source := ⟨2⟩, lineage := { lo := 2 }
    observation := .observed (.fromRawSaturating 32768) policy.thresholds }
  { c with request := { c.request with signals := c.request.signals ++ [weak] } }

/-- The weaker crossing takes the place of the stronger one; and in a ledger for one record, the
second of two edges that one signal crosses leaves none. -/
theorem damping_lost :
    (¬∀ (pq : EntryQueue) (ledger : PropagationLedger) (c : Call), c.request.dryRun = false →
      (c.outcome pq ledger).status.ok = true → (c.outcome pq ledger).complete = true →
        DampingKept c.request.now (c.outcome pq ledger).explanations (c.after pq ledger)) ∧
    let topo := probeTopology [probeResource ⟨7⟩, probeResource ⟨8⟩, probeResource ⟨9⟩]
      [probeEdge ⟨1⟩ ⟨7⟩ ⟨8⟩, probeEdge ⟨2⟩ ⟨7⟩ ⟨9⟩]
    let c := cooldownCall topo probePolicy .one { lo := 1 } 5
    (c.outcome .scan (.make 4 4 1)).status.ok = true ∧
      (c.outcome .scan (.make 4 4 1)).complete = true ∧
      ¬DampingKept 5 (c.outcome .scan (.make 4 4 1)).explanations (c.after .scan (.make 4 4 1)) := by
  constructor
  · intro h
    have hkept := h .scan (.make 4 4 4) (fadingCall (probeTopology
      [probeResource ⟨7⟩, probeResource ⟨8⟩] [probeEdge ⟨1⟩ ⟨7⟩ ⟨8⟩]) probePolicy) rfl
      (by decide +kernel) (by decide +kernel)
    unfold DampingKept at hkept
    revert hkept
    decide +kernel
  · intro topo c
    unfold DampingKept
    decide +kernel

end PropagationEngine

end Backpressure
