import Backpressure.Store.Crash

/-!
# Epochs

The epoch is all that tells two incarnations apart. An epoch that was established is synced, and
every later one, behind whatever crashes and compactions, is greater.
-/

namespace Backpressure

namespace DurableStore

variable {s s' : DurableStore} {d d' : Disk} {st : Status} {now : Tick} {c : Call}

/-! ## What most calls leave alone -/

/-- The epoch and the queue of lineages. -/
def marks (s : RecoveredState) : Epoch × List Digest128 := (s.epoch, s.lineages)

/-- What is read from the state is what it was. -/
def Keeps {α : Type} (s : DurableStore) (read : RecoveredState → α)
    (after : Status × DurableStore × Disk) : Prop :=
  read after.2.1.state = read s.state

namespace Keeps

variable {α : Type} {read : RecoveredState → α}

theorem guarded {p : Prop} [Decidable p] {next : Status × DurableStore × Disk}
    (h : s.Keeps read next) : s.Keeps read (if p then (st, s, d) else next) := by
  split
  · rfl
  · exact h

theorem withEpoch {next : Status × DurableStore × Disk} (h : s.Keeps read next) :
    s.Keeps read (s.withEpoch d next) := h.guarded

theorem write {type : RecordType} {epoch : Epoch} {payload : Result Bytes} {sync : Bool}
    {effect : DurableStore → Status × DurableStore}
    (heffect : ∀ s₁, read (effect s₁).2.state = read s₁.state) :
    s.Keeps read (s.write type now epoch payload sync effect d) := by
  rcases hwrite : s.write type now epoch payload sync effect d with ⟨st, s', d'⟩
  cases write_cases hwrite with
  | unencoded => rfl
  | refused => rfl
  | torn => rfl
  | unsynced => rfl
  | written => exact heffect _

theorem compact
    (hread : ∀ (state : RecoveredState) n, read { state with recordsReplayed := n } = read state) :
    s.Keeps read (s.compact d) := by
  unfold DurableStore.compact
  split
  · rfl
  · dsimp only
    split
    · rfl
    · exact hread _ _

end Keeps

theorem marks_requireAll {maxEntries : Nat} {entries : List (SourceId × ResourceId)}
    {state : RecoveredState} : marks (requireAll maxEntries entries state) = marks state := by
  induction entries generalizing state with
  | nil => rfl
  | cons entry rest ih =>
    unfold requireAll
    split
    · exact ih
    · split
      · rfl
      · exact ih

theorem marks_putFence {f : Fence} {context : String} {state state' : RecoveredState}
    (h : state.putFence f context = .ok state') : marks state' = marks state := by
  unfold RecoveredState.putFence at h
  split at h
  · cases h
    rfl
  · split at h
    · cases h
    · cases h
      rfl

/-- Only one call changes the epoch, and only one the queue. -/
theorem Call.keepsMarks (hepoch : ∀ now, c ≠ .establishEpoch now)
    (hlineage : ∀ lineage now, c ≠ .recordLineage lineage now) : s.Keeps marks (c.run s d) := by
  cases c with
  | establishEpoch now => exact absurd rfl (hepoch now)
  | recordLineage lineage now => exact absurd rfl (hlineage lineage now)
  | recordBoot incarnation now => exact (Keeps.write fun _ => rfl).withEpoch.guarded
  | persistPolicy policy now =>
    refine (Keeps.withEpoch ?_).guarded
    split
    · exact Keeps.guarded (p := s.state.policy.digest = policy.digest) rfl
    · exact .write fun _ => rfl
  | bindTopology digest generation now =>
    exact (Keeps.write fun _ => rfl).withEpoch.guarded
  | putFence fence now =>
    refine (Keeps.withEpoch ?_).guarded
    split
    · rfl
    · refine (Keeps.write fun s₁ => ?_).guarded
      split
      · rfl
      case h_2 hput => exact marks_putFence hput
  | removeFence id now => exact (Keeps.write fun _ => rfl).guarded.withEpoch
  | requestRevalidation resource now =>
    refine (Keeps.write fun s₁ => ?_).withEpoch.guarded
    dsimp only
    split
    · rfl
    · split <;> rfl
  | clearRevalidation resource now => exact (Keeps.write fun _ => rfl).withEpoch
  | recordPressureFootprint entries now =>
    exact (Keeps.write fun _ => marks_requireAll).guarded.guarded.withEpoch
  | beginAttempt id now => exact (Keeps.write fun _ => rfl).guarded.withEpoch.guarded
  | commitAttempt id now => exact (Keeps.write fun _ => rfl).guarded
  | abortAttempt id now => exact (Keeps.write fun _ => rfl).guarded
  | compact => exact .compact fun _ _ => rfl

theorem epoch_rememberLineage {maxLineages : Nat} {lineage : Digest128} {state : RecoveredState} :
    (state.rememberLineage maxLineages lineage).epoch = state.epoch := by
  unfold RecoveredState.rememberLineage
  split
  · rfl
  · split <;> rfl

/-- The store remembers the lineage, or refuses it and keeps its queue. -/
theorem recordLineage_queue {lineage : Digest128}
    (h : s.recordLineage lineage now d = (st, s', d')) :
    s'.config = s.config ∧ (st.ok = false ∧ s'.state = s.state ∨
      st.ok = true ∧ lineage.isZero = false ∧
        s'.state = s.state.rememberLineage s.config.maxLineages lineage) := by
  unfold recordLineage withEpoch at h
  split at h
  · cases h
    exact ⟨rfl, .inl ⟨rfl, rfl⟩⟩
  case isFalse hzero =>
  split at h
  · cases h
    exact ⟨rfl, .inl ⟨rfl, rfl⟩⟩
  have hpayload : ∃ bytes, ByteWriter.take 24 (ByteWriter.digest lineage) = .ok bytes :=
    ⟨_, (Appends.digest lineage).take (by simp)⟩
  cases write_cases h with
  | unencoded herror =>
    obtain ⟨bytes, hbytes⟩ := hpayload
    rw [hbytes] at herror
    cases herror
  | refused _ hno => exact ⟨rfl, .inl ⟨hno, rfl⟩⟩
  | torn => exact ⟨rfl, .inl ⟨rfl, rfl⟩⟩
  | unsynced _ _ _ _ _ hno => exact ⟨rfl, .inl ⟨hno, rfl⟩⟩
  | written => exact ⟨rfl, .inr ⟨rfl, by simpa using hzero, rfl⟩⟩

/-- Only the call that establishes an epoch changes it. -/
theorem Call.keepsEpoch (hc : ∀ now, c ≠ .establishEpoch now) :
    (c.run s d).2.1.state.epoch = s.state.epoch := by
  by_cases hlineage : ∀ lineage now, c ≠ .recordLineage lineage now
  · exact congrArg Prod.fst (Call.keepsMarks hc hlineage)
  · simp only [not_forall, not_not] at hlineage
    obtain ⟨lineage, now, rfl⟩ := hlineage
    rcases hrun : s.recordLineage lineage now d with ⟨st, s', d'⟩
    show (s.recordLineage lineage now d).2.1.state.epoch = _
    rw [hrun]
    rcases recordLineage_queue hrun with ⟨-, ⟨-, hsame⟩ | ⟨-, -, hremembers⟩⟩
    · exact congrArg RecoveredState.epoch hsame
    · exact (congrArg RecoveredState.epoch hremembers).trans epoch_rememberLineage

/-- An epoch that is established is greater than the one before, and synced. -/
theorem establishEpoch_rises (h : s.establishEpoch now d = (st, s', d')) :
    st.ok = true ∧ s.state.epoch.value < s'.state.epoch.value ∧ d'.bytes.length ≤ d'.synced ∨
      st.ok = false ∧ s'.state.epoch = s.state.epoch := by
  unfold establishEpoch at h
  split at h
  case h_1 refused hrefused =>
    cases h
    refine .inr ⟨?_, rfl⟩
    split at hrefused
    · unfold Epoch.next at hrefused
      split at hrefused
      · cases hrefused
        rfl
      · cases hrefused
    · cases hrefused
  case h_2 next hnext =>
    have hless : s.state.epoch.value < next.value := by
      split at hnext
      · unfold Epoch.next at hnext
        split at hnext
        · cases hnext
        case isFalse hlast =>
          cases hnext
          rw [UInt64.lt_iff_toNat_lt]
          have hbound := s.state.epoch.value.toNat_lt
          have hne : s.state.epoch.value.toNat ≠ 0xFFFFFFFFFFFFFFFF := fun heq =>
            hlast (UInt64.toNat.inj heq)
          have hone : (1 : UInt64).toNat = 1 := rfl
          rw [UInt64.toNat_add, hone]
          omega
      case isFalse hunknown =>
        cases hnext
        have hzero : s.state.epoch.value = 0 := by
          simpa [Epoch.known] using hunknown
        rw [hzero]
        decide
    cases write_cases h with
    | unencoded herror =>
      rw [(Appends.u64 next.value).take (by simp)] at herror
      cases herror
    | refused _ hno => exact .inr ⟨hno, rfl⟩
    | torn => exact .inr ⟨rfl, rfl⟩
    | unsynced _ _ _ _ _ hno => exact .inr ⟨hno, rfl⟩
    | written _ _ _ hsync =>
      rcases hsync with ⟨hno, -⟩ | ⟨-, st', hok, hsync⟩
      · cases hno
      · obtain ⟨hbytes, -, hall⟩ := Journal.sync_cases hsync
        refine .inl ⟨rfl, hless, ?_⟩
        rw [hbytes]
        exact (hall hok).ge

end DurableStore

namespace StoreHistory

open DurableStore (Op)

variable {config : DurableConfig} {w : StoreHistory} {s : DurableStore} {d : Disk}
  {steps : List Step} {a : Step} {floor : UInt64}

/-! ## The epochs of a run -/

/-- The epoch that a step establishes. -/
def established (w : StoreHistory) : Step → Option Epoch
  | .op (.call (.establishEpoch now)) => w.store.bind fun s =>
    let (st, s', _) := s.establishEpoch now w.disk
    if st.ok then some s'.state.epoch else none
  | _ => none

/-- The epochs that are established along the way. -/
def epochs (config : DurableConfig) (w : StoreHistory) : List Step → List Epoch
  | [] => []
  | a :: steps => (w.established a).toList ++ (w.step config a).epochs config steps

/-- The epoch is the given one or a later one. -/
def From (floor : UInt64) (v : Durable) : Prop := floor ≤ v.epoch.value

/-- Nothing lowers the epoch. -/
theorem epoch_op (o : Op) (s : DurableStore) (d : Disk) :
    s.state.epoch.value ≤ (o.run s d).1.state.epoch.value := by
  cases o with
  | sync => exact UInt64.le_refl _
  | call c =>
    show s.state.epoch.value ≤ (c.run s d).2.1.state.epoch.value
    by_cases hc : ∀ now, c ≠ .establishEpoch now
    · rw [DurableStore.Call.keepsEpoch hc]
      exact UInt64.le_refl _
    · obtain ⟨now, rfl⟩ := not_forall_not.mp hc
      rcases hrun : s.establishEpoch now d with ⟨st, s', d'⟩
      show s.state.epoch.value ≤ (s.establishEpoch now d).2.1.state.epoch.value
      rw [hrun]
      rcases DurableStore.establishEpoch_rises hrun with ⟨-, hless, -⟩ | ⟨-, hsame⟩
      · exact UInt64.le_of_lt hless
      · rw [hsame]
        exact UInt64.le_refl _

theorem brings_from : w.Brings (From floor) (From floor) a := by
  cases a with
  | op o => exact fun s _ h => UInt64.le_trans h (epoch_op o s w.disk)
  | crash o back kept => exact fun s _ h => UInt64.le_trans h (epoch_op o s w.disk)
  | openAt => trivial
  | crashOpen back kept => trivial

/-- An epoch that is established is above the floor, and raises it. -/
theorem raises {e : Epoch} (h : w.Always (From floor)) (hinv : w.Inv config)
    (hsome : w.established a = some e) :
    floor < e.value ∧ (w.step config a).Always (From e.value) := by
  unfold established at hsome
  split at hsome
  case h_2 => cases hsome
  case h_1 now =>
    obtain ⟨s, hstore, hepoch⟩ := Option.bind_eq_some_iff.mp hsome
    rcases hrun : s.establishEpoch now w.disk with ⟨st, s', d'⟩
    rw [hrun] at hepoch
    dsimp only at hepoch
    split at hepoch
    case isFalse => cases hepoch
    case isTrue hok =>
      cases hepoch
      rcases DurableStore.establishEpoch_rises hrun with ⟨-, hless, hsynced⟩ | ⟨hno, -⟩
      case inr =>
        rw [hno] at hok
        cases hok
      rcases hinv with ⟨s₁, hstore₁, hahead⟩ | ⟨hdead, -⟩
      case inr =>
        rw [hdead] at hstore
        cases hstore
      rw [hstore] at hstore₁
      cases hstore₁
      refine ⟨UInt64.lt_of_le_of_lt (h.current hahead) hless, ?_⟩
      have hstep : w.step config (.op (.call (.establishEpoch now))) = w.goOn s' d' := by
        unfold StoreHistory.step
        rw [hstore]
        show w.goOn (s.establishEpoch now w.disk).2.1 (s.establishEpoch now w.disk).2.2 = _
        rw [hrun]
      rw [hstep]
      exact always_settled hsynced (UInt64.le_refl _)

theorem epochs_rise (hmax : 0 < config.maxLineages) (hinv : w.Inv config)
    (h : w.Always (From floor)) (hsafe : w.SafeRun config steps) :
    (w.epochs config steps).Pairwise (fun e e' => e.value < e'.value) ∧
      ∀ e ∈ w.epochs config steps, floor < e.value := by
  induction steps generalizing w floor with
  | nil => exact ⟨.nil, fun e he => by cases he⟩
  | cons a steps ih =>
    have hnext := hinv.step hmax hsafe.1
    unfold epochs
    cases hsome : w.established a with
    | none => exact ih hnext (h.step (fun _ => id) hinv brings_from) hsafe.2
    | some e =>
      obtain ⟨hless, hraised⟩ := raises h hinv hsome
      obtain ⟨hpairs, hall⟩ := ih hnext hraised hsafe.2
      refine ⟨List.pairwise_cons.mpr ⟨hall, hpairs⟩, fun e' he' => ?_⟩
      rcases List.mem_cons.mp he' with rfl | hlater
      · exact hless
      · exact UInt64.lt_trans hless (hall e' hlater)

/-- Every epoch that is established is greater than those that were established before it, however
often the machine dies in between. -/
theorem established_rise (config : DurableConfig) (hmax : 0 < config.maxLineages) (d d₀ : Disk)
    (s : DurableStore) (hfaults : d.faults = []) (hsynced : d.bytes.length ≤ d.synced)
    (hopen : DurableStore.openAt config d = (.ok s, d₀)) (steps : List Step)
    (hsafe : (start s d₀).SafeRun config steps) :
    ((start s d₀).epochs config steps).Pairwise fun e e' => e.value < e'.value := by
  have hfrom : (start s d₀).Always (From 0) := fun _ _ _ _ => UInt64.zero_le
  exact (epochs_rise hmax (inv_start hfaults hsynced hopen) hfrom hsafe).1

/-- An epoch, and another one that the machine dies in. -/
def tornEpoch : List Step :=
  [.op (.call (.establishEpoch 0)), .crash (.call (.establishEpoch 1)) 1 100, .openAt,
    .op (.call (.establishEpoch 2))]

/-- The torn epoch was established by nobody, and is established again. -/
theorem tornEpoch_rises : ∃ s d₀, DurableStore.openAt {} {} = (.ok s, d₀) ∧
    (start s d₀).epochs {} tornEpoch = [⟨1⟩, ⟨2⟩] ∧
    ((start s d₀).epochs {} tornEpoch).Pairwise fun e e' => e.value < e'.value := by
  have hsome : (DurableStore.openAt {} {}).1.toOption.map (fun s =>
      let w := start s (DurableStore.openAt {} {}).2
      let w' := w.step {} (.op (.call (.establishEpoch 0)))
      (w'.store.map fun s' => decide (w'.Survives
          (Op.run (.call (.establishEpoch 1)) s' w'.disk).2 1 100),
        w.epochs {} tornEpoch)) = some (some true, [⟨1⟩, ⟨2⟩]) := by
    decide +kernel
  rcases hopen : DurableStore.openAt {} {} with ⟨r, d₀⟩
  rw [hopen] at hsome
  cases r with
  | error st => cases hsome
  | ok s =>
    obtain ⟨hsurvives, hepochs⟩ := Prod.mk.inj (Option.some.inj hsome)
    have hsafe : (start s d₀).SafeRun {} tornEpoch :=
      ⟨fun _ _ => trivial, safe_crash (fun _ => trivial) hsurvives, trivial, fun _ _ => trivial,
        trivial⟩
    exact ⟨s, d₀, rfl, hepochs,
      established_rise {} (by decide) {} d₀ s rfl (le_refl _) hopen _ hsafe⟩

end StoreHistory

end Backpressure
