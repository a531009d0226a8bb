import Backpressure.Store.Course

/-!
# Settings

The policy, the topology that the store is bound to, the fences and the resources that wait for a
revalidation are set by calls of one record each. A course that changes them once is there as a
whole behind a crash, or not at all.
-/

namespace Backpressure

/-- What is set in a store. -/
structure Settings where
  policy : Option PropagationPolicy
  binding : Option (Digest128 × Generation)
  fences : List Fence
  revalidation : List ResourceId
  deriving DecidableEq

def RecoveredState.settings (state : RecoveredState) : Settings where
  policy := if state.hasPolicy then some state.policy else none
  binding :=
    if state.hasTopologyBinding then some (state.topologyDigest, state.topologyGeneration) else none
  fences := state.fences
  revalidation := state.revalidationRequired

def Durable.settings (v : Durable) : Settings where
  policy := if v.hasPolicy then some v.policy else none
  binding := if v.hasTopologyBinding then some (v.topologyDigest, v.topologyGeneration) else none
  fences := v.fences
  revalidation := v.revalidationRequired

/-- Some more resources wait for a revalidation, behind those that did. -/
structure Settings.Grows (u v : Settings) : Prop where
  policy : v.policy = u.policy
  binding : v.binding = u.binding
  fences : v.fences = u.fences
  revalidation : u.revalidation <+: v.revalidation

namespace Settings.Grows

variable {u v w : Settings}

theorem refl : v.Grows v := ⟨rfl, rfl, rfl, List.prefix_refl _⟩

theorem of_eq (h : v = u) : u.Grows v := h ▸ refl

theorem trans (h : u.Grows v) (h' : v.Grows w) : u.Grows w where
  policy := h'.policy.trans h.policy
  binding := h'.binding.trans h.binding
  fences := h'.fences.trans h.fences
  revalidation := h.revalidation.trans h'.revalidation

end Settings.Grows

namespace DurableStore

variable {s s₁ s' : DurableStore} {d d₁ d' : Disk} {c : Call} {o : Op} {ops front rest : List Op}
  {k j : Nat}

/-! ## What leaves the settings alone -/

/-- The call is about the epoch, the lineages or the attempts. -/
def Call.still : Call → Bool
  | establishEpoch _ | recordBoot _ _ | recordLineage _ _ | beginAttempt _ _ | commitAttempt _ _
  | abortAttempt _ _ | compact => true
  | _ => false

def Op.still : Op → Bool
  | call c => c.still
  | sync => true

theorem settings_rememberLineage {maxLineages : Nat} {lineage : Digest128}
    {state : RecoveredState} :
    (state.rememberLineage maxLineages lineage).settings = state.settings := by
  unfold RecoveredState.rememberLineage
  split
  · rfl
  · split <;> rfl

theorem Call.keepsSettings (h : c.still = true) :
    s.Keeps RecoveredState.settings (c.run s d) := by
  cases c with
  | establishEpoch now =>
    show s.Keeps RecoveredState.settings (s.establishEpoch now d)
    unfold DurableStore.establishEpoch
    split
    · rfl
    · exact .write fun _ => rfl
  | recordBoot incarnation now => exact (Keeps.write fun _ => rfl).withEpoch.guarded
  | recordLineage lineage now =>
    exact (Keeps.write fun _ => settings_rememberLineage).withEpoch.guarded
  | beginAttempt id now => exact (Keeps.write fun _ => rfl).guarded.withEpoch.guarded
  | commitAttempt id now => exact (Keeps.write fun _ => rfl).guarded
  | abortAttempt id now => exact (Keeps.write fun _ => rfl).guarded
  | compact => exact .compact fun _ _ => rfl
  | _ => cases h

theorem Op.keepsSettings (h : o.still = true) :
    (o.run s d).1.durable.settings = s.durable.settings := by
  cases o with
  | call c => exact Call.keepsSettings h
  | sync => rfl

/-- The operation makes some more resources wait for a revalidation, or leaves the settings
alone. -/
def Op.grows : Op → Bool
  | call (.recordPressureFootprint _ _) => true
  | o => o.still

theorem grows_requireAll {maxEntries : Nat} {entries : List (SourceId × ResourceId)}
    {state : RecoveredState} :
    state.settings.Grows (requireAll maxEntries entries state).settings := by
  induction entries generalizing state with
  | nil => exact .refl
  | cons entry rest ih =>
    unfold requireAll
    split
    · exact ih
    · split
      · exact ⟨rfl, rfl, rfl, List.prefix_refl _⟩
      · have hone : state.settings.Grows ({ state with
            revalidationRequired := state.revalidationRequired ++ [entry.2] } :
              RecoveredState).settings :=
          ⟨rfl, rfl, rfl, List.prefix_append _ _⟩
        exact hone.trans ih

theorem recordPressureFootprint_grows {entries : List (SourceId × ResourceId)} {now : Tick} :
    s.state.settings.Grows (s.recordPressureFootprint entries now d).2.1.state.settings := by
  unfold recordPressureFootprint withEpoch
  split
  · exact .refl
  split
  · exact .refl
  split
  · exact .refl
  rcases hwrite : s.write .revalidation now s.state.epoch
    (ByteWriter.take s.config.journalLimits.maxRecordBytes (encodeFootprint entries)) true
    (succeed fun s =>
      let state := requireAll s.config.maxFootprintEntries entries s.state
      { s with
        state := { state with footprintEntries := state.revalidationRequired.length } }) d
    with ⟨st, s', d'⟩
  cases write_cases hwrite with
  | unencoded => exact .refl
  | refused => exact .refl
  | torn => exact .refl
  | unsynced => exact .refl
  | written => exact (@grows_requireAll _ entries s.state).trans (.of_eq rfl)

theorem Op.growsSettings (h : o.grows = true) :
    s.durable.settings.Grows (o.run s d).1.durable.settings := by
  by_cases hstill : o.still = true
  · exact .of_eq (Op.keepsSettings hstill)
  · cases o with
    | sync => exact .refl
    | call c =>
      cases c with
      | recordPressureFootprint entries now => exact recordPressureFootprint_grows
      | _ => exact absurd h hstill

/-! ## Courses -/

/-- How many of the operations change the settings. -/
def changes (ops : List Op) : Nat := ops.countP fun o => !o.still

theorem changes_append {more : List Op} : changes (ops ++ more) = changes ops + changes more :=
  List.countP_append

theorem changes_cons : changes (o :: ops) = changes [o] + changes ops :=
  @changes_append [o] ops

theorem changes_still (h : o.still = true) : changes [o] = 0 := by
  simp [changes, h]

theorem still_of_changes (hnone : changes ops = 0) : ∀ o ∈ ops, o.still = true := by
  simpa [changes] using hnone

theorem Course.still (h : Course ops s d s' d') (hnone : changes ops = 0) :
    s'.durable.settings = s.durable.settings := by
  induction h with
  | nil => rfl
  | @cons o ops s s₁ s' d d₁ d' hsafe hrun _ ih =>
    simp only [changes, List.countP_cons, Nat.add_eq_zero_iff] at hnone
    have hstill : o.still = true := by simpa using hnone.2
    have hone := Op.keepsSettings (s := s) (d := d) hstill
    rw [hrun] at hone
    exact (ih hnone.1).trans hone

theorem Course.grows (h : Course ops s d s' d') (hgrows : ∀ o ∈ ops, o.grows = true) :
    s.durable.settings.Grows s'.durable.settings := by
  induction h with
  | nil => exact .refl
  | @cons o ops s s₁ s' d d₁ d' hsafe hrun _ ih =>
    rw [List.forall_mem_cons] at hgrows
    have hone := Op.growsSettings (s := s) (d := d) hgrows.1
    rw [hrun] at hone
    exact hone.trans (ih hgrows.2)

/-- One change at most: it is all done or not begun, on either side of the operation. -/
theorem Course.Torn.whole (h : Torn ops s d s' d' k front o rest s₁ d₁ j)
    (hone : changes ops ≤ 1) {u : Settings}
    (hu : u = s₁.durable.settings ∨ u = (o.run s₁ d₁).1.durable.settings) :
    u = s.durable.settings ∨ u = s'.durable.settings := by
  have hsum := congrArg changes h.ops
  have hidle : changes [idleOp] = 0 := rfl
  rw [changes_append, changes_append, @changes_cons o rest, hidle] at hsum
  by_cases hfront : changes front = 0
  · have hbefore := h.front.still hfront
    by_cases hlast : changes rest = 0
    · have hafter := h.rest.still hlast
      rcases hu with rfl | rfl
      · exact .inl hbefore
      · exact .inr hafter.symm
    · have hstill : o.still = true := by
        by_contra hno
        have hmore : changes [o] = 1 := by simp [changes, hno]
        omega
      have hsame := Op.keepsSettings (s := s₁) (d := d₁) hstill
      rcases hu with rfl | rfl
      · exact .inl hbefore
      · exact .inl (hsame.trans hbefore)
  · have hafter := h.rest.still (by omega)
    have hstill : o.still = true := by
      by_contra hno
      have hmore : changes [o] = 1 := by simp [changes, hno]
      omega
    have hsame := Op.keepsSettings (s := s₁) (d := d₁) hstill
    rcases hu with rfl | rfl
    · exact .inr (hsame.symm.trans hafter.symm)
    · exact .inr hafter.symm

theorem Course.Torn.between (h : Torn ops s d s' d' k front o rest s₁ d₁ j)
    (hgrows : ∀ o ∈ ops, o.grows = true) {u : Settings}
    (hu : u = s₁.durable.settings ∨ u = (o.run s₁ d₁).1.durable.settings) :
    s.durable.settings.Grows u ∧ u.Grows s'.durable.settings := by
  have hall : ∀ o' ∈ front ++ o :: rest, o'.grows = true := by
    intro o' ho'
    rw [← h.ops, List.mem_append, List.mem_singleton] at ho'
    rcases ho' with hold | rfl
    · exact hgrows o' hold
    · rfl
  rw [List.forall_mem_append, List.forall_mem_cons] at hall
  obtain ⟨hfront, ho, hrest⟩ := hall
  have hbefore := h.front.grows hfront
  have hmiddle := Op.growsSettings (s := s₁) (d := d₁) ho
  have hafter := h.rest.grows hrest
  rcases hu with rfl | rfl
  · exact ⟨hbefore, hmiddle.trans hafter⟩
  · exact ⟨hbefore.trans hmiddle, hafter⟩

/-! ## Crashes -/

/-- What an open of the directory finds set. -/
def found (config : DurableConfig) (d : Disk) : Option Settings :=
  (openAt config d).1.toOption.map fun s => s.durable.settings

end DurableStore

namespace StoreHistory

open DurableStore (Course Op found)

variable {config : DurableConfig} {w : StoreHistory} {s s' : DurableStore} {d d' : Disk}
  {ops : List Op} {steps : List Step} {k n : Nat} {P : Durable → Prop} {u : Settings}

theorem Inv.finds (hinv : w.Inv config) (h : w.Always P) :
    ∃ s d', DurableStore.openAt config w.disk = (.ok s, d') ∧ P s.durable := by
  obtain ⟨s, d', hopen, i, hi, hstate⟩ := hinv.reopens
  exact ⟨s, d', hopen, h i s.durable hi hstate⟩

theorem Inv.found (hinv : w.Inv config) (h : w.Always fun v => v.settings = u) :
    found config w.disk = some u := by
  obtain ⟨s, d', hopen, hsame⟩ := hinv.finds h
  unfold DurableStore.found
  rw [hopen]
  exact congrArg some hsame

theorem Fresh.settings (h : w.Fresh config) (hstore : w.store = some s) :
    w.Always fun v => v.settings = s.durable.settings := by
  intro i v hi hv
  obtain ⟨more, hsame⟩ := h s hstore i v hi hv
  rw [hsame]
  rfl

/-- The step is about the epoch, the lineages or the attempts. -/
def Step.still : Step → Bool
  | .op o | .crash o _ _ => o.still
  | .openAt | .crashOpen _ _ => true

/-- The steps give the store no lineage and leave alone what is set. -/
def Quiet (steps : List Step) : Prop := recorded steps = 0 ∧ ∀ a ∈ steps, a.still = true

theorem Quiet.opened (h : Quiet steps) : Quiet (.openAt :: steps) :=
  ⟨(Nat.zero_add _).trans h.1, List.forall_mem_cons.mpr ⟨rfl, h.2⟩⟩

theorem quiet_course (hnone : DurableStore.recorded ops = 0)
    (hstill : DurableStore.changes ops = 0) : Quiet (ops.map .op) := by
  refine ⟨recorded_course.trans hnone, fun a ha => ?_⟩
  obtain ⟨o, ho, rfl⟩ := List.mem_map.mp ha
  exact DurableStore.still_of_changes hstill o ho

/-- A course of that kind that the machine dies in. -/
theorem quiet_dying {front rest : List Op} {o : Op} {s₁ : DurableStore} {d₁ : Disk} {j : Nat}
    (h : Course.Torn ops s d s' d' k front o rest s₁ d₁ j) (hnone : DurableStore.recorded ops = 0)
    (hstill : DurableStore.changes ops = 0) : Quiet (dying front o j n) := by
  have hcount := h.recorded
  refine ⟨recorded_dying.trans (by omega), fun a ha => ?_⟩
  have hall : ∀ o' ∈ front ++ o :: rest, o'.still = true := by
    intro o' ho'
    rw [← h.ops, List.mem_append, List.mem_singleton] at ho'
    rcases ho' with hold | rfl
    · exact DurableStore.still_of_changes hstill o' hold
    · rfl
  unfold dying at ha
  rw [List.mem_append, List.mem_singleton, List.mem_map] at ha
  rcases ha with ⟨o', ho', rfl⟩ | rfl
  · exact hall o' (List.mem_append_left _ ho')
  · exact hall o (List.mem_append_right _ List.mem_cons_self)

theorem Always.quiet (h : w.Always fun v => v.settings = u) (hmax : 0 < config.maxLineages)
    (hinv : w.Inv config) (hsafe : w.SafeRun config steps) (hquiet : Quiet steps) :
    (w.run config steps).Always fun v => v.settings = u := by
  obtain ⟨-, hstill⟩ := hquiet
  induction steps generalizing w with
  | nil => exact h
  | cons a steps ih =>
    rw [List.forall_mem_cons] at hstill
    refine ih (h.step (fun _ hv => hv) hinv ?_) (hinv.step hmax hsafe.1) hsafe.2 hstill.2
    cases a with
    | op o => exact fun s _ hs => (Op.keepsSettings hstill.1).trans hs
    | crash o _ _ => exact fun s _ hs => (Op.keepsSettings hstill.1).trans hs
    | openAt => trivial
    | crashOpen => trivial

/-- A course that the machine dies in: what was set before one of its operations is found, or what
was set behind it. -/
theorem course_torn (hmax : 0 < config.maxLineages) (hinv : w.Inv config) (hfirm : w.disk.Firm)
    (hfresh : w.Fresh config) (hstore : w.store = some s) (hcourse : Course ops s w.disk s' d')
    (hk : k + w.disk.past.length ≤ d'.past.length) :
    ∃ front o rest s₁ d₁ j, Course.Torn ops s w.disk s' d' k front o rest s₁ d₁ j ∧
      ∃ u, found config ((d'.back k).crash n) = some u ∧
        (u = s₁.durable.settings ∨ u = (o.run s₁ d₁).1.durable.settings) := by
  obtain ⟨front, o, rest, s₁, d₁, j, htorn, hsafe, -, hdisk, -⟩ :=
    course_dies (n := n) hmax hinv hfirm hstore hcourse hk
  obtain ⟨hsafe₁, hstore₁, hdisk₁, hinv₁, -⟩ := course_done hmax hinv hfirm hstore htorn.front
  have hsame := (hfresh.run hmax hinv hsafe₁).settings hstore₁
  have hlast := hsame.step (a := .crash o j n)
    (Q := fun v => v.settings = s₁.durable.settings ∨
      v.settings = (o.run s₁ d₁).1.durable.settings)
    (fun v hv => .inl hv) hinv₁ (fun s₂ hs₂ _ => by
      rw [hstore₁] at hs₂
      cases hs₂
      rw [hdisk₁]
      exact .inr rfl)
  unfold dying at hsafe hdisk
  rw [run_append] at hdisk
  have hend := hinv.run hmax hsafe
  rw [run_append] at hend
  obtain ⟨s₃, d₃, hopen, hfound⟩ := hend.finds hlast
  rw [hdisk] at hopen
  refine ⟨front, o, rest, s₁, d₁, j, htorn, s₃.durable.settings, ?_, hfound⟩
  unfold found
  rw [hopen]
  rfl

end StoreHistory

end Backpressure
