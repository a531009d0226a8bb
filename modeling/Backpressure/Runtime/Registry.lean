import Backpressure.Runtime.Books

/-!
# Superseded incarnations

The registry keeps the incarnation that speaks for a source, and nothing of those before it: a
sequence number is compared with the one it replaces, and only within one boot. As long as no
source comes back to a boot behind a number that it has held there, what is superseded stays out.
-/

namespace Backpressure

namespace Fabric

variable {pq : EntryQueue} {F F' : Fabric} {d : Disk} {now : Tick} {s source : SourceId}
  {incarnation A B : Incarnation} {known record : PublisherRecord} {signal : PressureSignal}

/-- The incarnation that speaks for a source. -/
def speaker (F : Fabric) (source : SourceId) : Option Incarnation :=
  (F.publishers.lookup source).map PublisherRecord.incarnation

theorem SameBooks.speaker (h : SameBooks F F') : F'.speaker s = F.speaker s := by
  rw [Fabric.speaker, Fabric.speaker, h.publishers]

theorem speaker_insert (h : F'.publishers = F.publishers.insert source record) :
    F'.speaker s = if s = source then some record.incarnation else F.speaker s := by
  rw [speaker, h]
  split
  case isTrue heq => rw [heq, AList.lookup_insert, Option.map_some]
  case isFalse hne => rw [AList.lookup_insert_ne hne, speaker]

/-- A record that is written back with its incarnation. -/
theorem speaker_rewrite (hF' : F'.publishers = F.publishers.insert source record)
    (h : F.publishers.lookup source = some known) (hsame : record.incarnation = known.incarnation) :
    F'.speaker s = F.speaker s := by
  rw [speaker_insert hF']
  split
  case isTrue heq => rw [heq, speaker, h, Option.map_some, hsame]
  case isFalse => rfl

theorem speaker_rejectFrom : (F.rejectFrom source).speaker s = F.speaker s := by
  cases h : F.publishers.lookup source with
  | none => rw [speaker, speaker, rejectFrom, h]
  | some record =>
    have hwrite : (F.rejectFrom source).publishers =
        F.publishers.insert source { record with rejected := record.rejected + 1 } := by
      rw [rejectFrom, h]
    exact speaker_rewrite hwrite h rfl

theorem speaker_acceptFrom : (F.acceptFrom source).speaker s = F.speaker s := by
  cases h : F.publishers.lookup source with
  | none => rw [speaker, speaker, acceptFrom, h]
  | some record =>
    have hwrite : (F.acceptFrom source).publishers =
        F.publishers.insert source { record with accepted := record.accepted + 1 } := by
      rw [acceptFrom, h]
    exact speaker_rewrite hwrite h rfl

/-! ## The calls -/

theorem speaker_heartbeat : (F.heartbeat source incarnation now).2.speaker s = F.speaker s := by
  unfold heartbeat
  split
  · rfl
  · split
    · rfl
    case h_2 record h =>
      split
      · rfl
      · split
        · rfl
        · split
          · rfl
          · exact speaker_rewrite rfl h rfl

theorem speaker_retirePublisher :
    (F.retirePublisher source incarnation now).2.speaker s = F.speaker s := by
  unfold retirePublisher
  split
  · rfl
  case h_2 record h =>
    split
    · rfl
    · exact speaker_rewrite rfl h rfl

/-- The registration is heard. -/
def Heard (F : Fabric) (source : SourceId) (incarnation : Incarnation) : Prop :=
  F.shuttingDown = false ∧ source.valid = true ∧ incarnation.valid = true

/-- A registration leaves the speaker of every source alone, or it puts the new one in its place:
one that is ahead of the incarnation it replaces, if they are of one boot. -/
theorem speaker_registerPublisher (F : Fabric) (s source : SourceId) (incarnation : Incarnation)
    (now : Tick) :
    (F.registerPublisher source incarnation now).2.speaker s = F.speaker s ∨
      s = source ∧ (F.registerPublisher source incarnation now).2.speaker s = some incarnation ∧
        F.Heard source incarnation ∧ ∀ live, F.speaker s = some live →
          live.boot = incarnation.boot → live.seq < incarnation.seq := by
  unfold registerPublisher
  dsimp only
  split
  · exact .inl rfl
  case isFalse hup =>
    split
    · exact .inl rfl
    case isFalse hvalid =>
      have hheard : F.Heard source incarnation := by
        simp only [Bool.not_eq_true', not_or, Bool.not_eq_false, Bool.not_eq_true] at hvalid hup
        exact ⟨hup, hvalid⟩
      split
      case h_1 known h =>
        split
        · exact .inl (speaker_rewrite rfl h rfl)
        · split
          · exact .inl rfl
          case isFalse hahead =>
            rw [speaker_insert rfl]
            split
            case isTrue heq =>
              refine .inr ⟨heq, rfl, hheard, fun live hlive hboot => ?_⟩
              rw [heq, speaker, h, Option.map_some, Option.some.injEq] at hlive
              subst hlive
              exact UInt64.not_le.mp fun hle => hahead ⟨hboot, hle⟩
            case isFalse => exact .inl rfl
      case h_2 h =>
        split
        · exact .inl rfl
        · rw [speaker_insert rfl]
          split
          case isTrue heq =>
            refine .inr ⟨heq, rfl, hheard, fun live hlive _ => ?_⟩
            rw [heq, speaker, h] at hlive
            cases hlive
          case isFalse => exact .inl rfl

theorem speaker_publishLocked {durableIntent cancelFlag : Bool} :
    (F.publishLocked pq signal now durableIntent cancelFlag d).2.1.speaker s = F.speaker s := by
  generalize h : F.publishLocked pq signal now durableIntent cancelFlag d = after
  obtain ⟨result, F', d'⟩ := after
  unfold publishLocked at h
  split at h
  · cases h
    rfl
  split at h
  case h_2 =>
    cases h
    rfl
  split at h
  · cases h
    rfl
  iterate 4
    split at h
    · cases h
      exact speaker_rejectFrom
  dsimp only at h
  split at h
  · cases h
    exact speaker_rejectFrom
  split at h
  · cases h
    rfl
  generalize htransact : transact pq _ _ _ _ _ = after at h
  have hbooks : after.2.1.speaker s = F.speaker s := by
    rw [← htransact]
    exact books_transact.speaker
  obtain ⟨ending, F₁, d₁⟩ := after
  cases ending with
  | done outcome =>
    cases h
    exact books_journalCompactionLocked.speaker.trans (speaker_acceptFrom.trans hbooks)
  | refused st =>
    cases h
    exact hbooks
  | failed outcome =>
    cases h
    exact speaker_rejectFrom.trans hbooks
  | mismatch =>
    cases h
    exact hbooks
  | uncommitted st =>
    cases h
    exact hbooks

theorem speaker_publishBatch {signals : List PressureSignal} :
    (F.publishBatch pq signals now d).2.1.speaker s = F.speaker s := by
  generalize h : F.publishBatch pq signals now d = after
  obtain ⟨result, F', d'⟩ := after
  unfold publishBatch at h
  split at h
  · cases h
    rfl
  split at h
  case h_2 =>
    cases h
    rfl
  split at h
  · cases h
    rfl
  split at h
  · cases h
    rfl
  dsimp only at h
  split at h
  · cases h
    rfl
  generalize htransact : transact pq _ _ _ _ _ = after at h
  have hbooks : after.2.1.speaker s = F.speaker s := by
    rw [← htransact]
    exact books_transact.speaker
  obtain ⟨ending, F₁, d₁⟩ := after
  cases ending with
  | done outcome =>
    cases h
    exact books_journalCompactionLocked.speaker.trans hbooks
  | _ =>
    cases h
    exact hbooks

/-! ## Who is refused -/

/-- A signal of another incarnation than the one that speaks is not published. -/
theorem publish_refused (h : F.speaker signal.source ≠ some signal.publisher) :
    ∃ st, (F.publish pq signal now d).1 = .error st := by
  unfold publish publishLocked
  split
  · exact ⟨_, rfl⟩
  split
  case h_2 => exact ⟨_, rfl⟩
  split
  · exact ⟨_, rfl⟩
  case h_2 record hrecord =>
    have hother : record.incarnation ≠ signal.publisher := fun heq =>
      h (by rw [speaker, hrecord, Option.map_some, heq])
    rw [if_pos hother]
    exact ⟨_, rfl⟩

theorem checkPublisher_refused (h : F.speaker signal.source ≠ some signal.publisher) :
    (F.checkPublisher signal).ok = false := by
  unfold checkPublisher
  split
  · rfl
  case h_2 record hrecord =>
    have hother : record.incarnation ≠ signal.publisher := fun heq =>
      h (by rw [speaker, hrecord, Option.map_some, heq])
    rw [if_pos hother]
    rfl

/-- A batch with such a signal is refused as a whole. -/
theorem publishBatch_refused {signals : List PressureSignal} (hmem : signal ∈ signals)
    (h : F.speaker signal.source ≠ some signal.publisher) :
    ∃ st, (F.publishBatch pq signals now d).1 = .error st := by
  have hcheck : (F.checkPublishers signals).ok = false := by
    induction signals with
    | nil => cases hmem
    | cons first rest ih =>
      rw [checkPublishers, Status.ok_andThen, Bool.and_eq_false_iff]
      rcases List.mem_cons.mp hmem with rfl | hrest
      · exact .inl (checkPublisher_refused h)
      · exact .inr (ih hrest)
  unfold publishBatch
  split
  · exact ⟨_, rfl⟩
  split
  case h_2 => exact ⟨_, rfl⟩
  split
  · exact ⟨_, rfl⟩
  · rw [hcheck, Bool.not_false, if_pos rfl]
    exact ⟨_, rfl⟩

/-! ## Runs -/

inductive RegistryCall
  | registerPublisher (source : SourceId) (incarnation : Incarnation) (now : Tick)
  | heartbeat (source : SourceId) (incarnation : Incarnation) (now : Tick)
  | retirePublisher (source : SourceId) (incarnation : Incarnation) (now : Tick)
  | publish (signal : PressureSignal) (now : Tick)
  | publishBatch (signals : List PressureSignal) (now : Tick)

def RegistryCall.step (pq : EntryQueue) (state : Fabric × Disk) : RegistryCall → Fabric × Disk
  | .registerPublisher source incarnation now =>
    ((state.1.registerPublisher source incarnation now).2, state.2)
  | .heartbeat source incarnation now => ((state.1.heartbeat source incarnation now).2, state.2)
  | .retirePublisher source incarnation now =>
    ((state.1.retirePublisher source incarnation now).2, state.2)
  | .publish signal now => (state.1.publish pq signal now state.2).2
  | .publishBatch signals now => (state.1.publishBatch pq signals now state.2).2

/-- The fabric and its disk behind a run of calls. -/
def registryRun (pq : EntryQueue) (start : Fabric × Disk) (calls : List RegistryCall) :
    Fabric × Disk :=
  calls.foldl (RegistryCall.step pq) start

variable {start : Fabric × Disk} {calls before after later : List RegistryCall} {call : RegistryCall}

theorem registryRun_concat :
    registryRun pq start (calls ++ [call]) = call.step pq (registryRun pq start calls) :=
  List.foldl_concat ..

/-- The incarnation has spoken for the source at some point of the run. -/
def Spoke (pq : EntryQueue) (start : Fabric × Disk) (calls : List RegistryCall) (source : SourceId)
    (A : Incarnation) : Prop :=
  ∃ before, before <+: calls ∧ (registryRun pq start before).1.speaker source = some A

/-- The call is heard and brings a source back to a boot that it has left, without a sequence
number above those that it had there. -/
def Regresses (pq : EntryQueue) (start : Fabric × Disk) (before : List RegistryCall) :
    RegistryCall → Prop
  | .registerPublisher source incarnation _ =>
    (registryRun pq start before).1.Heard source incarnation ∧
      (∃ live, (registryRun pq start before).1.speaker source = some live ∧
        live.boot ≠ incarnation.boot) ∧
      ∃ A, Spoke pq start before source A ∧ A.boot = incarnation.boot ∧ incarnation.seq ≤ A.seq
  | _ => False

/-- No call of the run regresses. -/
def Onward (pq : EntryQueue) (start : Fabric × Disk) (calls : List RegistryCall) : Prop :=
  ∀ before call after, calls = before ++ call :: after → ¬Regresses pq start before call

theorem onward_concat : Onward pq start (calls ++ [call]) ↔
    Onward pq start calls ∧ ¬Regresses pq start calls call := by
  constructor
  · refine fun h => ⟨fun before c after hcalls => ?_, h calls call [] rfl⟩
    exact h before c (after ++ [call]) (by rw [hcalls]; simp)
  · rintro ⟨h, hlast⟩ before c after hcalls
    rcases List.eq_nil_or_concat after with rfl | ⟨later, last, rfl⟩
    · obtain ⟨rfl, rfl⟩ := List.append_singleton_inj.mp hcalls
      exact hlast
    · rw [List.concat_eq_append, ← List.cons_append, ← List.append_assoc] at hcalls
      exact h before c later (List.append_singleton_inj.mp hcalls).1

theorem onward_nil : Onward pq start [] := fun _ _ _ h =>
  absurd h.symm (List.append_ne_nil_of_right_ne_nil _ (List.cons_ne_nil _ _))

theorem Onward.left (h : Onward pq start (calls ++ later)) : Onward pq start calls :=
  fun before call after hcalls => h before call (after ++ later) (by rw [hcalls]; simp)

theorem Spoke.mono (h : Spoke pq start calls s A) : Spoke pq start (calls ++ later) s A := by
  obtain ⟨before, hbefore, hspeaker⟩ := h
  exact ⟨before, hbefore.trans (List.prefix_append _ _), hspeaker⟩

theorem spoke_nil (h : start.1.speaker s = none) : ¬Spoke pq start [] s A := by
  rintro ⟨before, hbefore, hspeaker⟩
  rw [List.prefix_nil.mp hbefore] at hspeaker
  exact Option.some_ne_none _ (hspeaker.symm.trans h)

theorem spoke_now (h : (registryRun pq start calls).1.speaker s = some A) : Spoke pq start calls s A :=
  ⟨calls, List.prefix_rfl, h⟩

theorem spoke_concat (h : Spoke pq start (calls ++ [call]) s A) :
    Spoke pq start calls s A ∨ (registryRun pq start (calls ++ [call])).1.speaker s = some A := by
  obtain ⟨before, hbefore, hspeaker⟩ := h
  rcases List.prefix_concat_iff.mp hbefore with rfl | hbefore
  · exact .inr hspeaker
  · exact .inl ⟨before, hbefore, hspeaker⟩

/-- A call leaves the speaker alone, or a registration that is heard puts a new one in its place:
ahead of the one before if they are of one boot, and ahead of all that have spoken under its boot if
they are not. -/
theorem speaker_step (h : Onward pq start (calls ++ [call])) :
    (registryRun pq start (calls ++ [call])).1.speaker s = (registryRun pq start calls).1.speaker s ∨
      ∃ incarnation, (registryRun pq start (calls ++ [call])).1.speaker s = some incarnation ∧
        ∀ live, (registryRun pq start calls).1.speaker s = some live →
          (live.boot = incarnation.boot → live.seq < incarnation.seq) ∧
          (live.boot ≠ incarnation.boot → ∀ A, Spoke pq start calls s A →
            A.boot = incarnation.boot → A.seq < incarnation.seq) := by
  rw [registryRun_concat]
  cases call with
  | registerPublisher source incarnation now =>
    rcases (registryRun pq start calls).1.speaker_registerPublisher s source incarnation now
      with hsame | ⟨rfl, hnew, hheard, hahead⟩
    · exact .inl hsame
    · refine .inr ⟨incarnation, hnew, fun live hlive => ⟨hahead live hlive, ?_⟩⟩
      intro hboot A hA hAboot
      by_contra hbehind
      exact h calls _ [] rfl ⟨hheard, ⟨live, hlive, hboot⟩, A, hA, hAboot, UInt64.not_lt.mp hbehind⟩
  | heartbeat source incarnation now => exact .inl speaker_heartbeat
  | retirePublisher source incarnation now => exact .inl speaker_retirePublisher
  | publish signal now => exact .inl speaker_publishLocked
  | publishBatch signals now => exact .inl speaker_publishBatch

/-- Under its own boot the speaker is ahead of all that have spoken. -/
theorem speaker_ahead (h : Onward pq start calls) (hA : Spoke pq start calls s A) :
    ∃ live, (registryRun pq start calls).1.speaker s = some live ∧
      (A.boot = live.boot → A = live ∨ A.seq < live.seq) := by
  induction calls using List.reverseRecOn with
  | nil =>
    obtain ⟨before, hbefore, hspeaker⟩ := hA
    rw [List.prefix_nil.mp hbefore] at hspeaker
    exact ⟨A, hspeaker, fun _ => .inl rfl⟩
  | append_singleton calls call ih =>
    rcases spoke_concat hA with hA | hnow
    case inr => exact ⟨A, hnow, fun _ => .inl rfl⟩
    obtain ⟨live, hlive, hahead⟩ := ih h.left hA
    rcases speaker_step h with hsame | ⟨incarnation, hnew, hplaced⟩
    · exact ⟨live, hsame.trans hlive, hahead⟩
    · refine ⟨incarnation, hnew, fun hboot => .inr ?_⟩
      by_cases hsameBoot : live.boot = incarnation.boot
      · have hlt := (hplaced live hlive).1 hsameBoot
        rcases hahead (hboot.trans hsameBoot.symm) with rfl | hbehind
        · exact hlt
        · exact UInt64.lt_trans hbehind hlt
      · exact (hplaced live hlive).2 hsameBoot A hA hboot

/-- What has been superseded does not speak again. -/
theorem superseded_silent (h : Onward pq start (calls ++ later)) (hA : Spoke pq start calls s A)
    (hother : (registryRun pq start calls).1.speaker s ≠ some A) :
    (registryRun pq start (calls ++ later)).1.speaker s ≠ some A := by
  induction later using List.reverseRecOn with
  | nil => rwa [List.append_nil]
  | append_singleton later call ih =>
    rw [← List.append_assoc] at h ⊢
    have hsilent := ih h.left
    rcases speaker_step h with hsame | ⟨incarnation, hnew, hplaced⟩
    · rwa [hsame]
    · rw [hnew]
      rintro ⟨⟩
      obtain ⟨live, hlive, hahead⟩ := speaker_ahead h.left hA.mono
      by_cases hboot : live.boot = A.boot
      · have hlt := (hplaced live hlive).1 hboot
        rcases hahead hboot.symm with rfl | hbehind
        · exact hsilent hlive
        · exact UInt64.lt_irrefl _ (UInt64.lt_trans hlt hbehind)
      · exact UInt64.lt_irrefl _ ((hplaced live hlive).2 hboot A hA.mono rfl)

/-- In a run in which no source regresses, an incarnation that has been replaced never speaks for
its source again, and nothing that it signs is published. -/
theorem superseded_stays_out (pq : EntryQueue) (start : Fabric × Disk)
    (before after : List RegistryCall) (call : RegistryCall) (s : SourceId) (A B : Incarnation)
    (honward : Onward pq start (before ++ call :: after))
    (hA : (registryRun pq start before).1.speaker s = some A)
    (hB : (registryRun pq start (before ++ [call])).1.speaker s = some B) (hne : B ≠ A) :
    let (F, d) := registryRun pq start (before ++ call :: after)
    F.speaker s ≠ some A ∧
      (∀ signal now, signal.source = s → signal.publisher = A →
        ∃ st, (F.publish pq signal now d).1 = .error st) ∧
      ∀ signals now, (∃ signal ∈ signals, signal.source = s ∧ signal.publisher = A) →
        ∃ st, (F.publishBatch pq signals now d).1 = .error st := by
  have hcalls : before ++ call :: after = (before ++ [call]) ++ after := by simp
  rw [hcalls] at honward ⊢
  have hother : (registryRun pq start (before ++ [call])).1.speaker s ≠ some A := by
    rw [hB]
    exact fun heq => hne (Option.some.inj heq)
  have hsilent := superseded_silent honward (spoke_now hA).mono hother
  refine ⟨hsilent, fun signal now hsource hpublisher => ?_, fun signals now hmem => ?_⟩
  · apply publish_refused
    rwa [hsource, hpublisher]
  · obtain ⟨signal, hmem, hsource, hpublisher⟩ := hmem
    apply publishBatch_refused hmem
    rwa [hsource, hpublisher]

/-! ## Two boots -/

def ofBoot (boot seq : UInt64) : Incarnation := { boot := ⟨boot, boot⟩, pid := 7, index := 0, seq }

/-- An empty fabric in memory. -/
def newcomer : Fabric × Disk := ({ blank {} (ofBoot 9 1) with epoch := ⟨1⟩ }, {})

/-- A source that moves to another boot and comes back to the first one ahead of itself. -/
def aheadCalls : List RegistryCall :=
  [.registerPublisher ⟨1⟩ (ofBoot 1 5) 0, .registerPublisher ⟨1⟩ (ofBoot 2 1) 0,
    .registerPublisher ⟨1⟩ (ofBoot 1 6) 0]

theorem onward_aheadCalls : Onward .scan newcomer aheadCalls := by
  have hfirst : ∀ A, Spoke .scan newcomer (aheadCalls.take 1) ⟨1⟩ A → A = ofBoot 1 5 := by
    intro A hA
    rcases @spoke_concat _ _ _ _ [] _ hA with hnone | hnow
    · exact absurd hnone (spoke_nil rfl)
    · exact (Option.some.inj hnow).symm
  have hsecond : ∀ A, Spoke .scan newcomer (aheadCalls.take 2) ⟨1⟩ A →
      A = ofBoot 1 5 ∨ A = ofBoot 2 1 := by
    intro A hA
    rcases @spoke_concat _ _ _ _ (aheadCalls.take 1) _ hA with hbefore | hnow
    · exact .inl (hfirst A hbefore)
    · exact .inr (Option.some.inj hnow).symm
  refine (@onward_concat _ _ (aheadCalls.take 2) _).mpr
    ⟨(@onward_concat _ _ (aheadCalls.take 1) _).mpr
      ⟨(@onward_concat _ _ [] _).mpr ⟨onward_nil, ?_⟩, ?_⟩, ?_⟩
  · rintro ⟨-, ⟨live, hlive, -⟩, -⟩
    cases hlive
  · rintro ⟨-, -, A, hA, hboot, -⟩
    rw [hfirst A hA] at hboot
    cases hboot
  · rintro ⟨-, -, A, hA, hboot, hbehind⟩
    rcases hsecond A hA with rfl | rfl
    · exact absurd hbehind (by decide)
    · cases hboot

theorem comeback_ahead :
    (registryRun .scan newcomer aheadCalls).1.speaker ⟨1⟩ ≠ some (ofBoot 1 5) :=
  (superseded_stays_out .scan newcomer (aheadCalls.take 1) (aheadCalls.drop 2)
    (.registerPublisher ⟨1⟩ (ofBoot 2 1) 0) ⟨1⟩ (ofBoot 1 5) (ofBoot 2 1) onward_aheadCalls rfl rfl
    (by decide)).1

/-- It comes back behind itself: what was superseded speaks again. -/
theorem superseded_speaks_again :
    ¬∀ pq config incarnation F d before call after s A B,
      openAt config incarnation {} = (.ok F, d) →
      (registryRun pq (F, d) before).1.speaker s = some A →
      (registryRun pq (F, d) (before ++ [call])).1.speaker s = some B → B ≠ A →
      (registryRun pq (F, d) (before ++ call :: after)).1.speaker s ≠ some A := by
  intro hall
  exact hall .scan {} (ofBoot 9 1) newcomer.1 newcomer.2 [.registerPublisher ⟨1⟩ (ofBoot 1 5) 0]
    (.registerPublisher ⟨1⟩ (ofBoot 2 1) 0) [.registerPublisher ⟨1⟩ (ofBoot 1 5) 0] ⟨1⟩
    (ofBoot 1 5) (ofBoot 2 1) rfl rfl rfl (by decide) rfl

end Fabric
end Backpressure
