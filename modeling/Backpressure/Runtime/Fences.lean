import Backpressure.Runtime.Fabric
import Backpressure.Store.Lasting
import Backpressure.Store.Faultless

/-!
# The live fences

A fence is put into the durable store first and into the table of the fabric second; an open builds
the table from the replayed fences, which it binds to the new epoch. The two lists follow the same
rules, so the table is at every moment the list of the store under the live epoch.
-/

namespace Backpressure

/-- A fence under another epoch. -/
def Fence.rebind (epoch : Epoch) (f : Fence) : Fence := { f with epoch }

/-- What the live and the durable fence have in common. -/
structure Fence.Face where
  id : FenceId
  resource : ResourceId
  kind : FenceKind
  expiresAt : Tick
  durable : Bool
  deriving DecidableEq

def Fence.face (f : Fence) : Fence.Face := ⟨f.id, f.resource, f.kind, f.expiresAt, f.durable⟩

section Lists

variable {fences : List Fence} {f : Fence} {epoch : Epoch} {id : FenceId}

@[simp] theorem id_rebind : (f.rebind epoch).id = f.id := rfl

@[simp] theorem face_rebind : (f.rebind epoch).face = f.face := rfl

theorem ids_rebind : (fences.map (Fence.rebind epoch)).map Fence.id = fences.map Fence.id := by
  rw [List.map_map]
  rfl

theorem any_rebind : ((fences.map (Fence.rebind epoch)).any fun g => g.id == id) =
    fences.any fun g => g.id == id := by
  rw [List.any_map]
  rfl

theorem replaceF_rebind (h : f.epoch = epoch) :
    (fences.map (Fence.rebind epoch)).replaceF (fun g => if g.id = f.id then some f else none) =
      (fences.replaceF fun g => if g.id = f.id then some f else none).map (Fence.rebind epoch) := by
  have hsame : f.rebind epoch = f := by
    rw [← h]
    rfl
  induction fences with
  | nil => rfl
  | cons g rest ih =>
    by_cases hid : g.id = f.id
    · simp [hid, hsame]
    · simp [hid, ih]

/-- A fence of the epoch is put into the bound list as into the list itself. -/
theorem putFences_rebind (h : f.epoch = epoch) :
    putFences (fences.map (Fence.rebind epoch)) f = (putFences fences f).map (Fence.rebind epoch) := by
  unfold putFences
  rw [any_rebind, replaceF_rebind h]
  split
  · rfl
  · rw [List.map_append, List.map_singleton, ← h]
    rfl

theorem eraseP_rebind :
    ((fences.map (Fence.rebind epoch)).eraseP fun g => g.id == id) =
      (fences.eraseP fun g => g.id == id).map (Fence.rebind epoch) := by
  rw [List.eraseP_map]
  rfl

theorem roomFor_rebind : RoomFor (fences.map (Fence.rebind epoch)) f ↔ RoomFor fences f := by
  rw [RoomFor, any_rebind, List.length_map, RoomFor]

end Lists

/-! ## The table -/

namespace FenceTable

variable {t : FenceTable} {f : Fence} {id : FenceId}

/-- A valid fence for which there is room goes into the table. -/
theorem add_of_room (hvalid : f.validate.ok = true) (hroom : RoomFor t.fences f) :
    (t.add f).1 = .success ∧ (t.add f).2.fences = putFences t.fences f := by
  unfold add putFences
  rw [dif_pos hvalid]
  by_cases hany : (t.fences.any fun existing => existing.id == f.id) = true
  · rw [if_pos hany, if_pos hany]
    exact ⟨rfl, rfl⟩
  · have hfew : ¬kMaxFences ≤ t.fences.length := Nat.not_le.mpr (hroom.resolve_left hany)
    rw [if_neg hany, if_neg hany, dif_neg hfew]
    exact ⟨rfl, rfl⟩

/-- A fence that the table takes is put like one of the store. -/
theorem add_ok (h : (t.add f).1.ok = true) : (t.add f).2.fences = putFences t.fences f := by
  by_cases hvalid : f.validate.ok = true
  · refine (add_of_room hvalid ?_).2
    by_contra hfull
    obtain ⟨hany, hcount⟩ := not_or.mp hfull
    unfold add at h
    rw [dif_pos hvalid, if_neg hany, dif_pos (Nat.not_lt.mp hcount)] at h
    cases h
  · unfold add at h
    rw [dif_neg hvalid] at h
    exact absurd h hvalid

theorem remove_of_any (h : (t.fences.any fun f => f.id == id) = true) :
    (t.remove id).1 = .success ∧ (t.remove id).2.fences = t.fences.eraseP fun f => f.id == id := by
  unfold remove
  rw [if_pos h]
  exact ⟨rfl, rfl⟩

end FenceTable

/-! ## The store -/

namespace DurableStore

variable {s s' : DurableStore} {d d' : Disk} {st : Status} {now : Tick} {f : Fence} {id : FenceId}
  {type : RecordType} {epoch : Epoch} {payload : Result Bytes} {sync : Bool}
  {effect : DurableStore → Status × DurableStore}

/-- A write either has its effect or leaves the state alone. -/
theorem Wrote.state (h : Wrote s type now epoch payload sync effect d st s' d')
    (hpayload : ∃ bytes, payload = .ok bytes) :
    (st.ok = false ∧ s'.state = s.state) ∨
      ∃ bytes, (st, s') = effect (s.logged type now epoch bytes) := by
  cases h with
  | unencoded herror =>
    obtain ⟨bytes, hbytes⟩ := hpayload
    rw [hbytes] at herror
    cases herror
  | refused _ hno => exact .inl ⟨hno, rfl⟩
  | torn => exact .inl ⟨rfl, rfl⟩
  | unsynced _ _ _ _ _ hno => exact .inl ⟨hno, rfl⟩
  | @written bytes => exact .inr ⟨bytes, rfl⟩

/-- The store takes a valid fence for which it has room, or keeps its fences. -/
theorem putFence_state (h : s.putFence f now d = (st, s', d')) :
    (st.ok = false ∧ s'.state.fences = s.state.fences) ∨
      (st.ok = true ∧ f.validate.ok = true ∧ RoomFor s.state.fences f ∧
        s'.state.fences = putFences s.state.fences f) := by
  unfold putFence withEpoch at h
  split at h
  case isTrue hinvalid =>
    cases h
    exact .inl ⟨by simpa using hinvalid, rfl⟩
  case isFalse hvalid =>
    have hvalid : f.validate.ok = true := by simpa using hvalid
    obtain ⟨bytes, hlength, hwrite, -⟩ := fence_codec hvalid
    have htake : serializeFence f = .ok bytes := hwrite.take (by rw [hlength]; decide)
    rw [htake] at h
    dsimp only at h
    split at h
    · cases h
      exact .inl ⟨rfl, rfl⟩
    split at h
    · cases h
      exact .inl ⟨rfl, rfl⟩
    rcases (write_cases h).state ⟨bytes, rfl⟩ with ⟨hno, hsame⟩ | ⟨written, heffect⟩
    · exact .inl ⟨hno, by rw [hsame]⟩
    · have hfences : (s.logged .fencePut now s.state.epoch written).state = s.state := rfl
      rw [hfences] at heffect
      by_cases hroom : RoomFor s.state.fences f
      · rw [putFence_ok hroom] at heffect
        cases heffect
        exact .inr ⟨rfl, hvalid, hroom, rfl⟩
      · obtain ⟨hany, hcount⟩ := not_or.mp hroom
        rw [RecoveredState.putFence, if_neg hany, if_pos (Nat.not_lt.mp hcount)] at heffect
        cases heffect
        exact .inl ⟨rfl, rfl⟩

/-- The store takes out a fence that it has, or keeps its fences. -/
theorem removeFence_state (h : s.removeFence id now d = (st, s', d')) :
    (st.ok = false ∧ s'.state.fences = s.state.fences) ∨
      (st.ok = true ∧ (s.state.fences.any fun f => f.id == id) = true ∧
        s'.state.fences = s.state.fences.eraseP fun f => f.id == id) := by
  unfold removeFence withEpoch at h
  split at h
  · cases h
    exact .inl ⟨rfl, rfl⟩
  split at h
  · cases h
    exact .inl ⟨rfl, rfl⟩
  case isFalse hany =>
    rcases (write_cases h).state (take_u64 (by decide) _) with ⟨hno, hsame⟩ | ⟨written, heffect⟩
    · exact .inl ⟨hno, by rw [hsame]⟩
    · cases heffect
      exact .inr ⟨rfl, not_not.mp hany, rfl⟩

end DurableStore

/-! ## The fabric -/

namespace Fabric

variable {F F' : Fabric} {s : DurableStore} {d d' : Disk} {st : Status}

/-- The store changes first; the fabric follows when the store has accepted the change. -/
theorem withStore_cases {change : DurableStore → Disk → Status × DurableStore × Disk}
    {next : Fabric → Status × Fabric} (hstore : F.store = some s)
    (h : F.withStore change d next = (st, F', d')) :
    ∃ st₁ s₁, change s d = (st₁, s₁, d') ∧
      (st₁ = st ∧ st.ok = false ∧ F' = { F with store := some s₁ } ∨
        st₁.ok = true ∧ (st, F') = next { F with store := some s₁ }) := by
  unfold withStore at h
  rw [hstore] at h
  dsimp only at h
  rcases hchange : change s d with ⟨st₁, s₁, d₁⟩
  rw [hchange] at h
  dsimp only at h
  cases hok : st₁.ok with
  | false =>
    rw [hok, Bool.not_false, if_pos rfl] at h
    cases h
    exact ⟨st, s₁, rfl, .inl ⟨rfl, hok, rfl⟩⟩
  | true =>
    rw [hok, Bool.not_true, if_neg (by decide)] at h
    rcases hnext : next { F with store := some s₁ } with ⟨st₂, F₂⟩
    rw [hnext] at h
    cases h
    exact ⟨st₁, s₁, rfl, .inr ⟨hok, hnext.symm⟩⟩

/-- Recovered fences of distinct identities are appended in their order. -/
theorem restoreFences_ok {epoch : Epoch} {fences : List Fence} {t t' : FenceTable}
    (h : restoreFences epoch fences t = .ok t')
    (hids : (t.fences.map Fence.id ++ fences.map Fence.id).Nodup) :
    t'.fences = t.fences ++ fences.map (Fence.rebind epoch) := by
  induction fences generalizing t with
  | nil =>
    cases h
    exact (List.append_nil _).symm
  | cons f rest ih =>
    unfold restoreFences at h
    dsimp only at h
    split at h
    case isFalse => cases h
    case isTrue hok =>
      have hput := FenceTable.add_ok hok
      have hnew : ¬(t.fences.any fun g => g.id == (f.rebind epoch).id) = true := by
        intro hany
        rw [List.map_cons, List.nodup_append] at hids
        exact hids.2.2 _ (any_id.mp hany) _ List.mem_cons_self rfl
      have happend : (t.add (f.rebind epoch)).2.fences = t.fences ++ [f.rebind epoch] := by
        refine hput.trans ?_
        unfold putFences
        exact if_neg hnew
      have hall := ih h (by
        show ((t.add (f.rebind epoch)).2.fences.map Fence.id ++ rest.map Fence.id).Nodup
        rw [happend, List.map_append, List.append_assoc]
        exact hids)
      refine hall.trans ?_
      show (t.add (f.rebind epoch)).2.fences ++ _ = _
      rw [happend, List.append_assoc]
      rfl

/-- The live table is the list of the store under the live epoch. -/
structure Fenced (F : Fabric) (s : DurableStore) : Prop where
  store : F.store = some s
  fences : F.fences.fences = s.state.fences.map (Fence.rebind F.epoch)

/-- An open binds the replayed fences to the new epoch. -/
theorem openAt_restores {config : FabricConfig} {i : Incarnation} (hdurable : config.durable = true)
    (h : openAt config i d = (.ok F, d')) :
    ∃ s₀ d₀ s, DurableStore.openAt (durableConfig config) d = (.ok s₀, d₀) ∧ F.Fenced s ∧
      s.state.fences = s₀.state.fences ∧
      (d.faults = [] → DurableStore.Kept (durableConfig config) s d') := by
  unfold openAt at h
  dsimp only at h
  rw [if_pos hdurable] at h
  split at h
  case h_1 => cases h
  case h_2 s₀ d₀ hopen =>
    obtain ⟨hrefined, -⟩ := DurableStore.openAt_ok hopen
    have hids : (s₀.state.fences.map Fence.id).Nodup := hrefined.replays.sane.fenceIds
    rcases hepoch : s₀.establishEpoch kNoTick d₀ with ⟨st₁, s₁, d₁⟩
    rw [hepoch] at h
    dsimp only at h
    split at h
    case isTrue => cases h
    rcases hboot : s₁.recordBoot i kNoTick d₁ with ⟨st₂, s₂, d₂⟩
    rw [hboot] at h
    dsimp only at h
    split at h
    case isTrue => cases h
    -- neither the epoch nor the boot touches the fences
    obtain ⟨_, _, htake₁, -, htried₁⟩ := DurableStore.establishEpoch_tried hepoch
    obtain ⟨_, htake₂, -, htried₂⟩ := DurableStore.recordBoot_tried hboot
    have hsame₁ : s₁.state.fences = s₀.state.fences := by
      rcases htried₁.state ⟨_, htake₁⟩ with ⟨-, j, rfl⟩ | ⟨-, j, rfl⟩ <;> rfl
    have hsame₂ : s₂.state.fences = s₁.state.fences := by
      rcases htried₂.state ⟨_, htake₂⟩ with ⟨-, j, rfl⟩ | ⟨-, j, rfl⟩ <;> rfl
    have hkept : d.faults = [] → DurableStore.Kept (durableConfig config) s₂ d₂ := fun hfaults => by
      have hkept₀ := DurableStore.Kept.opened hfaults hopen
      have hkept₁ := hkept₀.settled
        (DurableStore.establishEpoch_settles hkept₀.live hkept₀.faults hepoch)
        (DurableStore.establishEpoch_does hepoch)
      exact hkept₁.settled (DurableStore.recordBoot_settles hkept₁.live hkept₁.faults hboot)
        (DurableStore.recordBoot_does hboot)
    unfold restore at h
    split at h
    case h_1 => cases h
    case h_2 fences hfences =>
      cases h
      have hrestored := restoreFences_ok hfences (by
        show (_ ++ s₂.state.fences.map Fence.id).Nodup
        rw [hsame₂, hsame₁]
        exact hids)
      exact ⟨s₀, d₀, s₂, hopen, ⟨rfl, hrestored⟩, hsame₂.trans hsame₁, hkept⟩

theorem openAt_fenced {config : FabricConfig} {i : Incarnation} (hdurable : config.durable = true)
    (h : openAt config i d = (.ok F, d')) : ∃ s, F.Fenced s := by
  obtain ⟨-, -, s, -, hfenced, -⟩ := openAt_restores hdurable h
  exact ⟨s, hfenced⟩

/-- What the store accepts, the table takes. -/
theorem Fenced.add (h : F.Fenced s) {f : Fence} (hvalid : f.validate.ok = true)
    (hroom : RoomFor s.state.fences f) :
    (F.fences.add f).1 = .success ∧
      (F.fences.add f).2.fences = putFences (s.state.fences.map (Fence.rebind F.epoch)) f := by
  rw [← h.fences]
  refine FenceTable.add_of_room hvalid ?_
  rw [h.fences]
  exact roomFor_rebind.mpr hroom

theorem Fenced.remove (h : F.Fenced s) {id : FenceId}
    (hany : (s.state.fences.any fun f => f.id == id) = true) :
    (F.fences.remove id).1 = .success ∧ (F.fences.remove id).2.fences =
      (s.state.fences.map (Fence.rebind F.epoch)).eraseP fun f => f.id == id := by
  rw [← h.fences]
  refine FenceTable.remove_of_any ?_
  rw [h.fences, any_rebind]
  exact hany

/-- A fence that is not refused at once goes to the store under the live epoch. -/
theorem putFence_cases {fence : Fence} {now : Tick} (hstore : F.store = some s)
    (h : F.putFence fence now d = (st, F', d')) :
    (st.ok = false ∧ F' = F ∧ d' = d) ∨
      ∃ f st₁ s₁, (f.id = fence.id ∧ (∀ epoch, f.rebind epoch = fence.rebind epoch) ∧
        f.epoch = F.epoch) ∧ s.putFence f now d = (st₁, s₁, d') ∧
        (st₁ = st ∧ st.ok = false ∧ F' = { F with store := some s₁ } ∨
          st₁.ok = true ∧ st = (F.fences.add f).1 ∧
            F' = { F with store := some s₁, fences := (F.fences.add f).2 }) := by
  unfold putFence at h
  dsimp only at h
  have hid : (if fence.epoch.known then fence
      else { fence with epoch := F.epoch }).id = fence.id := by
    split <;> rfl
  have hrebind : ∀ epoch, (if fence.epoch.known then fence
      else { fence with epoch := F.epoch }).rebind epoch = fence.rebind epoch := by
    intro epoch
    split <;> rfl
  generalize (if fence.epoch.known then fence else { fence with epoch := F.epoch }) = f
    at h hid hrebind
  split at h
  · cases h
    exact .inl ⟨rfl, rfl, rfl⟩
  split at h
  · cases h
    exact .inl ⟨rfl, rfl, rfl⟩
  case isFalse hepoch =>
    obtain ⟨st₁, s₁, hwrite, hend⟩ := withStore_cases hstore h
    refine .inr ⟨f, st₁, s₁, ⟨hid, hrebind, not_not.mp hepoch⟩, hwrite, hend.imp_right ?_⟩
    rintro ⟨hyes, hnext⟩
    cases hnext
    exact ⟨hyes, rfl, rfl⟩

/-- A fence is put into the store and into the table, or neither changes its fences. -/
theorem Fenced.put (h : F.Fenced s) {fence : Fence} {now : Tick}
    (hput : F.putFence fence now d = (st, F', d')) :
    ∃ s', F'.Fenced s' ∧ F'.epoch = F.epoch ∧
      (st.ok = false ∧ s'.state.fences = s.state.fences ∨
        st.ok = true ∧ ∃ f : Fence, f.id = fence.id ∧
          (∀ epoch, f.rebind epoch = fence.rebind epoch) ∧
          s'.state.fences = putFences s.state.fences f) := by
  rcases putFence_cases h.store hput with
    ⟨hno, rfl, rfl⟩ | ⟨f, st₁, s₁, ⟨hid, hrebind, hepoch⟩, hstore, hend⟩
  · exact ⟨s, h, rfl, .inl ⟨hno, rfl⟩⟩
  rcases DurableStore.putFence_state hstore with ⟨hno, hsame⟩ | ⟨hyes, hvalid, hroom, hfences⟩
  · rcases hend with ⟨-, hno, rfl⟩ | ⟨hyes, -⟩
    · exact ⟨s₁, ⟨rfl, by rw [hsame]; exact h.fences⟩, rfl, .inl ⟨hno, hsame⟩⟩
    · rw [hno] at hyes
      cases hyes
  · rcases hend with ⟨rfl, hno, -⟩ | ⟨-, rfl, rfl⟩
    · rw [hno] at hyes
      cases hyes
    · obtain ⟨hok, htable⟩ := h.add hvalid hroom
      refine ⟨s₁, ⟨rfl, ?_⟩, rfl, .inr ⟨by rw [hok]; rfl, f, hid, hrebind, hfences⟩⟩
      rw [hfences, ← putFences_rebind hepoch]
      exact htable

/-- A fence is taken out of the store and of the table, or neither changes its fences. -/
theorem Fenced.clear (h : F.Fenced s) {id : FenceId} {now : Tick}
    (hclear : F.clearFence id now d = (st, F', d')) :
    ∃ s', F'.Fenced s' ∧ F'.epoch = F.epoch ∧
      (st.ok = false ∧ s'.state.fences = s.state.fences ∨
        st.ok = true ∧ s'.state.fences = s.state.fences.eraseP fun f => f.id == id) := by
  obtain ⟨st₁, s₁, hstore, hend⟩ := withStore_cases h.store hclear
  rcases DurableStore.removeFence_state hstore with ⟨hno, hsame⟩ | ⟨hyes, hany, herase⟩
  · rcases hend with ⟨-, hno, rfl⟩ | ⟨hyes, -⟩
    · exact ⟨s₁, ⟨rfl, by rw [hsame]; exact h.fences⟩, rfl, .inl ⟨hno, hsame⟩⟩
    · rw [hno] at hyes
      cases hyes
  · rcases hend with ⟨rfl, hno, -⟩ | ⟨-, hnext⟩
    · rw [hno] at hyes
      cases hyes
    · obtain ⟨hok, htable⟩ := h.remove hany
      have hst : st = (F.fences.remove id).1 := congrArg Prod.fst hnext
      have hF' : F' = { F with store := some s₁, fences := (F.fences.remove id).2 } :=
        congrArg Prod.snd hnext
      subst hst hF'
      refine ⟨s₁, ⟨rfl, ?_⟩, rfl, .inr ⟨by rw [hok]; rfl, herase⟩⟩
      rw [herase, ← eraseP_rebind]
      exact htable

/-- The live fences are those of the store, and the table takes whatever the store accepts. -/
structure Mirrors (F : Fabric) (s : DurableStore) : Prop where
  store : F.store = some s
  faces : F.fences.fences.map Fence.face = s.state.fences.map Fence.face
  adds : ∀ fence now d, (s.putFence fence now d).1.ok = true → (F.fences.add fence).1.ok = true
  removes : ∀ id now d, (s.removeFence id now d).1.ok = true → (F.fences.remove id).1.ok = true

theorem Fenced.mirrors (h : F.Fenced s) : F.Mirrors s where
  store := h.store
  faces := by
    rw [h.fences, List.map_map]
    rfl
  adds fence now d hok := by
    rcases hput : s.putFence fence now d with ⟨st, s', d'⟩
    rw [hput] at hok
    rcases DurableStore.putFence_state hput with ⟨hno, -⟩ | ⟨-, hvalid, hroom, -⟩
    · exact absurd hok (by simp [hno])
    · rw [(h.add hvalid hroom).1]
      rfl
  removes id now d hok := by
    rcases hremove : s.removeFence id now d with ⟨st, s', d'⟩
    rw [hremove] at hok
    rcases DurableStore.removeFence_state hremove with ⟨hno, -⟩ | ⟨-, hany, -⟩
    · exact absurd hok (by simp [hno])
    · rw [(h.remove hany).1]
      rfl

end Fabric

/-! ## Runs -/

/-- A durable fabric on a disk; it is opened again and again. -/
structure FencedRun where
  fabric : Option Fabric := none
  disk : Disk

namespace FencedRun

inductive Call
  /-- A fabric that is still there is destroyed first. -/
  | openAt (config : FabricConfig) (incarnation : Incarnation)
  | putFence (fence : Fence) (now : Tick)
  | clearFence (id : FenceId) (now : Tick)

/-- One call, whatever comes of it. -/
def step (w : FencedRun) : Call → FencedRun
  | .openAt config incarnation =>
    match Fabric.openAt { config with durable := true } incarnation w.disk with
    | (.ok F, disk) => ⟨some F, disk⟩
    | (.error _, disk) => ⟨none, disk⟩
  | .putFence fence now =>
    match w.fabric with
    | none => w
    | some F =>
      let (_, F, disk) := F.putFence fence now w.disk
      ⟨some F, disk⟩
  | .clearFence id now =>
    match w.fabric with
    | none => w
    | some F =>
      let (_, F, disk) := F.clearFence id now w.disk
      ⟨some F, disk⟩

def run (w : FencedRun) (calls : List Call) : FencedRun := calls.foldl step w

/-- Every fabric of the run is fenced. -/
def Inv (w : FencedRun) : Prop := ∀ F, w.fabric = some F → ∃ s, F.Fenced s

theorem Inv.step {w : FencedRun} (h : w.Inv) (call : Call) : (w.step call).Inv := by
  intro F hF
  cases call with
  | openAt config incarnation =>
    unfold FencedRun.step at hF
    dsimp only at hF
    split at hF
    case h_1 hopen =>
      cases hF
      exact Fabric.openAt_fenced rfl hopen
    case h_2 => cases hF
  | putFence fence now =>
    unfold FencedRun.step at hF
    dsimp only at hF
    split at hF
    case h_1 hnone => exact h F hF
    case h_2 F₀ hsome =>
      cases hF
      obtain ⟨s, hs⟩ := h F₀ hsome
      obtain ⟨s', hs', -⟩ := hs.put rfl
      exact ⟨s', hs'⟩
  | clearFence id now =>
    unfold FencedRun.step at hF
    dsimp only at hF
    split at hF
    case h_1 hnone => exact h F hF
    case h_2 F₀ hsome =>
      cases hF
      obtain ⟨s, hs⟩ := h F₀ hsome
      obtain ⟨s', hs', -⟩ := hs.clear rfl
      exact ⟨s', hs'⟩

theorem Inv.run {w : FencedRun} (h : w.Inv) (calls : List Call) : (w.run calls).Inv := by
  induction calls generalizing w with
  | nil => exact h
  | cons call calls ih => exact ih (h.step call)

/-- After every call of every run on a state directory, the live fences mirror the durable ones. -/
theorem fences_mirrored (d : Disk) (calls : List Call) :
    ∀ F, (({ disk := d } : FencedRun).run calls).fabric = some F → ∃ s, F.Mirrors s := by
  intro F hF
  have hstart : ({ disk := d } : FencedRun).Inv := fun F hF => by cases hF
  obtain ⟨s, hs⟩ := hstart.run calls F hF
  exact ⟨s, hs.mirrors⟩

/-- Two fences are put and one of them is cleared. -/
def fencing : List Call :=
  [.openAt {} { boot := ⟨1, 1⟩, pid := 1, index := 0, seq := 1 },
    .putFence { id := ⟨1⟩, resource := ⟨7⟩ } 0,
    .putFence { id := ⟨2⟩, resource := ⟨8⟩, kind := .refuseEgress } 1, .clearFence ⟨1⟩ 2]

theorem second_fence_mirrored : ∃ F, (({ disk := {} } : FencedRun).run fencing).fabric = some F ∧
    F.fences.fences.map Fence.id = [⟨2⟩] ∧ ∃ s, F.Mirrors s := by
  have hlive : (({ disk := {} } : FencedRun).run fencing).fabric.map
      (fun F => F.fences.fences.map Fence.id) = some [⟨2⟩] := by
    decide +kernel
  obtain ⟨F, hF, hids⟩ := Option.map_eq_some_iff.mp hlive
  exact ⟨F, hF, hids, fences_mirrored {} fencing F hF⟩

end FencedRun

end Backpressure
