import Backpressure.Runtime.Reopen

/-!
# Fences across a restart

The store persists every fence that is put, and an open restores every fence that is replayed: the
durable flag is kept, and nobody asks for it.
-/

namespace Backpressure

section Lists

variable {fences : List Fence} {f : Fence} {id : FenceId} {epoch epoch' : Epoch}

theorem find_replaceF (h : (fences.any fun g => g.id == f.id) = true) :
    (fences.replaceF fun g => if g.id = f.id then some f else none).find? (fun g => g.id == id) =
      if id = f.id then some f else fences.find? fun g => g.id == id := by
  induction fences with
  | nil => cases h
  | cons g rest ih =>
    by_cases hg : g.id = f.id
    · rw [List.replaceF_cons, if_pos hg]
      dsimp only
      by_cases hid : id = f.id
      · rw [if_pos hid, List.find?_cons_of_pos (by simpa using hid.symm)]
      · rw [if_neg hid, List.find?_cons_of_neg (by simpa using Ne.symm hid),
          List.find?_cons_of_neg (by simpa [hg] using Ne.symm hid)]
    · rw [List.replaceF_cons, if_neg hg]
      dsimp only
      have hrest : (rest.any fun g => g.id == f.id) = true := by simpa [hg] using h
      by_cases hid : g.id = id
      · have hne : id ≠ f.id := fun heq => hg (hid.trans heq)
        rw [if_neg hne, List.find?_cons_of_pos (by simpa using hid),
          List.find?_cons_of_pos (by simpa using hid)]
      · rw [List.find?_cons_of_neg (by simpa using hid),
          List.find?_cons_of_neg (by simpa using hid), ih hrest]

/-- The fence of an identity after a fence is put. -/
theorem find_putFences : (putFences fences f).find? (fun g => g.id == id) =
    if id = f.id then some f else fences.find? fun g => g.id == id := by
  unfold putFences
  by_cases hany : (fences.any fun g => g.id == f.id) = true
  · rw [if_pos hany, find_replaceF hany]
  · rw [if_neg hany, List.find?_append]
    by_cases hid : id = f.id
    · have hnone : fences.find? (fun g => g.id == id) = none := by
        rw [List.find?_eq_none]
        intro g hg heq
        exact hany (List.any_eq_true.mpr ⟨g, hg, hid ▸ heq⟩)
      rw [hnone, if_pos hid, List.find?_cons_of_pos (by simpa using hid.symm)]
      rfl
    · rw [if_neg hid, List.find?_cons_of_neg (by simpa using Ne.symm hid), List.find?_nil,
        Option.or_none]

/-- Among fences of distinct identities, those of one identity are the one that is found. -/
theorem filter_id (h : (fences.map Fence.id).Nodup) :
    fences.filter (fun g => g.id == id) = (fences.find? fun g => g.id == id).toList := by
  induction fences with
  | nil => rfl
  | cons g rest ih =>
    rw [List.map_cons, List.nodup_cons] at h
    by_cases hid : g.id = id
    · have hnone : rest.filter (fun g => g.id == id) = [] := by
        rw [List.filter_eq_nil_iff]
        intro g' hg' heq
        refine h.1 (List.mem_map.mpr ⟨g', hg', ?_⟩)
        rw [hid]
        exact by simpa using heq
      rw [List.filter_cons_of_pos (by simpa using hid), List.find?_cons_of_pos (by simpa using hid),
        hnone]
      rfl
    · rw [List.filter_cons_of_neg (by simpa using hid), List.find?_cons_of_neg (by simpa using hid),
        ih h.2]

/-- The fence of an identity after the fence of one is taken out. -/
theorem find_eraseP (h : (fences.map Fence.id).Nodup) {gone : FenceId} :
    (fences.eraseP fun g => g.id == gone).find? (fun g => g.id == id) =
      if id = gone then none else fences.find? fun g => g.id == id := by
  induction fences with
  | nil => simp
  | cons g rest ih =>
    rw [List.map_cons, List.nodup_cons] at h
    by_cases hg : g.id = gone
    · rw [List.eraseP_cons_of_pos (by simpa using hg)]
      by_cases hid : id = gone
      · rw [if_pos hid, List.find?_eq_none]
        intro g' hg' heq
        refine h.1 (List.mem_map.mpr ⟨g', hg', ?_⟩)
        rw [hg, ← hid]
        exact by simpa using heq
      · rw [if_neg hid, List.find?_cons_of_neg (by simpa [hg] using Ne.symm hid)]
    · rw [List.eraseP_cons_of_neg (by simpa using hg)]
      by_cases hid : g.id = id
      · have hne : id ≠ gone := fun heq => hg (hid.trans heq)
        rw [if_neg hne, List.find?_cons_of_pos (by simpa using hid),
          List.find?_cons_of_pos (by simpa using hid)]
      · rw [List.find?_cons_of_neg (by simpa using hid),
          List.find?_cons_of_neg (by simpa using hid), ih h.2]

end Lists

/-- A store whose records are not replayed, although nothing fails. -/
structure DurableStore.Refused (config : DurableConfig) (s : DurableStore) (d : Disk) : Prop where
  limits : s.journal.limits = config.journalLimits
  live : s.journal.Live d
  faults : d.faults = []
  none : ∀ v, ¬Replays config s.journal.records v

namespace DurableStore

variable {config : DurableConfig} {s s' : DurableStore} {d d' : Disk} {st : Status} {now : Tick}

/-- What is written behind a record that is refused does not help. -/
theorem Refused.grown (h : Refused config s d) (hgrown : s.Grown s' d') : Refused config s' d' := by
  obtain ⟨r, hjournal⟩ := hgrown.record
  refine ⟨?_, hgrown.live, hgrown.faults, fun v hv => ?_⟩
  · rw [hjournal]
    exact h.limits
  · rw [hjournal] at hv
    obtain ⟨v', hv'⟩ := hv.front
    exact h.none v' hv'

theorem Refused.grows (h : Refused config s d) (hend : (s' = s ∧ d' = d) ∨ s.Grown s' d') :
    Refused config s' d' := by
  rcases hend with ⟨rfl, rfl⟩ | hgrown
  · exact h
  · exact h.grown hgrown

theorem Refused.not_open (h : Refused config s d) : openAt config d ≠ (.ok s', d') := by
  intro hopen
  obtain ⟨hrefined, -, -, j, hjournal, hs⟩ := openAt_ok hopen
  obtain ⟨j', d₂, hagain, hrecords, -⟩ := h.live.reopen h.faults true
  rw [h.limits, hjournal] at hagain
  cases hagain
  refine h.none s'.durable ?_
  rw [← hrecords, ← hs]
  exact hrefined.replays

/-- The record of a fence for which there is no room is refused. -/
theorem applyRecord_full {f : Fence} {r : JournalRecord} (hvalid : f.validate.ok = true)
    (htype : r.type = .fencePut) (htake : serializeFence f = .ok r.payload)
    (hfull : ¬RoomFor s.state.fences f) : ∃ st, s.applyRecord r = .error st := by
  obtain ⟨bytes, hlength, hwrite, hread⟩ := fence_codec hvalid
  have hpayload := hwrite.eq_of_take (by rw [hlength]; decide) htake
  obtain ⟨hnew, hcount⟩ := not_or.mp hfull
  have hstops : Stops (readEffect s r) r.payload
      (.error .limitExceeded "recovered fences" s.state.fences.length) := by
    unfold readEffect
    rw [htype, hpayload]
    refine Stops.after hread fun rest => ?_
    rw [RecoveredState.putFence, if_neg hnew, if_pos (not_lt.mp hcount)]
    rfl
  exact ⟨_, hstops.decode⟩

/-- It cannot be replayed with the records in front of it. -/
theorem Kept.refused {f : Fence} {bytes : Bytes} (h : Kept config s d)
    (hvalid : f.validate.ok = true) (htake : serializeFence f = .ok bytes)
    (hfull : ¬RoomFor s.state.fences f)
    (hgrown : s.Grown (s.logged .fencePut now s.state.epoch bytes) d') :
    Refused config (s.logged .fencePut now s.state.epoch bytes) d' := by
  refine ⟨h.limits, hgrown.live, hgrown.faults, fun v hv => ?_⟩
  obtain ⟨s₁, hall, -, -⟩ := hv
  obtain ⟨s₀, hfirst, -, hdurable⟩ := h.refined.replays
  have hrecords : (s.logged .fencePut now s.state.epoch bytes).journal.records =
      s.journal.records ++ [s.journal.nextRecord .fencePut now s.state.epoch bytes] := rfl
  have hfences : s₀.state.fences = s.state.fences := congrArg Durable.fences hdurable
  obtain ⟨st, herror⟩ := applyRecord_full (s := s₀)
    (r := s.journal.nextRecord .fencePut now s.state.epoch bytes) hvalid rfl htake (hfences ▸ hfull)
  rw [hrecords, applyAll_append, hfirst] at hall
  dsimp only at hall
  rw [applyAll, herror] at hall
  cases hall

/-- A change of the fences leaves the store as it was, or with one more record. -/
theorem putFence_grows {f : Fence} (hlive : s.journal.Live d) (hfaults : d.faults = [])
    (h : s.putFence f now d = (st, s', d')) : (s' = s ∧ d' = d) ∨ s.Grown s' d' := by
  rcases putFence_settles hlive hfaults h with ⟨-, hs, hd⟩ | ⟨bytes, -, -, -, hgrown, -⟩
  · exact .inl ⟨hs, hd⟩
  · exact .inr hgrown

theorem removeFence_grows {id : FenceId} (hlive : s.journal.Live d) (hfaults : d.faults = [])
    (h : s.removeFence id now d = (st, s', d')) : (s' = s ∧ d' = d) ∨ s.Grown s' d' :=
  (removeFence_settles hlive hfaults h).imp_right And.right

end DurableStore

namespace Fabric

open DurableStore (Kept Refused)

variable {config : DurableConfig} {F F' : Fabric} {s : DurableStore} {d d' : Disk} {st : Status}
  {now : Tick} {fence : Fence} {id : FenceId}

/-- The fabric has a store whose records are not replayed. -/
def Lost (config : DurableConfig) (F : Fabric) (d : Disk) : Prop :=
  ∃ s, F.store = some s ∧ Refused config s d

theorem Lost.put (h : F.Lost config d) (hcall : F.putFence fence now d = (st, F', d')) :
    F'.Lost config d' := by
  obtain ⟨s, hstore, hrefused⟩ := h
  rcases putFence_cases hstore hcall with ⟨-, rfl, rfl⟩ | ⟨f, st₁, s₁, -, hwrite, hend⟩
  · exact ⟨s, hstore, hrefused⟩
  · refine ⟨s₁, ?_, hrefused.grows (DurableStore.putFence_grows hrefused.live hrefused.faults hwrite)⟩
    rcases hend with ⟨-, -, rfl⟩ | ⟨-, -, rfl⟩ <;> rfl

theorem Lost.clear (h : F.Lost config d) (hcall : F.clearFence id now d = (st, F', d')) :
    F'.Lost config d' := by
  obtain ⟨s, hstore, hrefused⟩ := h
  obtain ⟨st₁, s₁, hwrite, hend⟩ := withStore_cases hstore hcall
  refine ⟨s₁, ?_,
    hrefused.grows (DurableStore.removeFence_grows hrefused.live hrefused.faults hwrite)⟩
  rcases hend with ⟨-, -, rfl⟩ | ⟨-, hnext⟩
  · rfl
  · exact congrArg (fun after => after.2.store) hnext

/-- A fence that is put leaves a store that can be opened, or records that are not replayed. -/
theorem kept_put (hstore : F.store = some s) (h : Kept config s d)
    (hcall : F.putFence fence now d = (st, F', d')) :
    (∃ s', F'.store = some s' ∧ Kept config s' d') ∨ F'.Lost config d' := by
  rcases putFence_cases hstore hcall with ⟨-, rfl, rfl⟩ | ⟨f, st₁, s₁, -, hwrite, hend⟩
  · exact .inl ⟨s, hstore, h⟩
  have hafter : F'.store = some s₁ := by
    rcases hend with ⟨-, -, rfl⟩ | ⟨-, -, rfl⟩ <;> rfl
  rcases DurableStore.putFence_settles h.live h.faults hwrite with
    ⟨-, rfl, rfl⟩ | ⟨bytes, hvalid, htake, -, hgrown, ⟨hok, -⟩ | ⟨-, hfull, rfl⟩⟩
  · exact .inl ⟨_, hafter, h⟩
  · exact .inl ⟨_, hafter, h.does (DurableStore.putFence_does hwrite hok) hgrown⟩
  · exact .inr ⟨_, hafter, h.refused hvalid htake hfull hgrown⟩

theorem kept_clear (hstore : F.store = some s) (h : Kept config s d)
    (hcall : F.clearFence id now d = (st, F', d')) :
    ∃ s', F'.store = some s' ∧ Kept config s' d' := by
  obtain ⟨st₁, s₁, hwrite, hend⟩ := withStore_cases hstore hcall
  refine ⟨s₁, ?_, h.settled (DurableStore.removeFence_settles h.live h.faults hwrite)
    fun hok => DurableStore.removeFence_does hwrite hok h.sane⟩
  rcases hend with ⟨-, -, rfl⟩ | ⟨-, hnext⟩
  · rfl
  · exact congrArg (fun after => after.2.store) hnext

end Fabric

/-! ## Runs -/

/-- A fabric with its disk, and of every fence that has not been cleared the latest version. -/
structure FenceHistory where
  fabric : Fabric
  disk : Disk
  latest : FenceId → Option Fence

namespace FenceHistory

inductive Call
  | putFence (fence : Fence) (now : Tick)
  | clearFence (id : FenceId) (now : Tick)

def Call.id : Call → FenceId
  | .putFence fence _ => fence.id
  | .clearFence id _ => id

/-- One call; a call that succeeds makes or ends a version. -/
def step (w : FenceHistory) : Call → FenceHistory
  | .putFence fence now =>
    let (st, fabric, disk) := w.fabric.putFence fence now w.disk
    { fabric, disk
      latest := if st.ok then Function.update w.latest fence.id (some fence) else w.latest }
  | .clearFence id now =>
    let (st, fabric, disk) := w.fabric.clearFence id now w.disk
    { fabric, disk, latest := if st.ok then Function.update w.latest id none else w.latest }

def run (w : FenceHistory) (calls : List Call) : FenceHistory := calls.foldl step w

/-- A fabric that was just opened, with the fences that it has restored. -/
def start (F : Fabric) (d : Disk) : FenceHistory where
  fabric := F
  disk := d
  latest := fun id => F.fences.fences.find? fun f => f.id == id

/-- The versions are those of the fences, under some epoch. -/
def Agrees (latest : FenceId → Option Fence) (fences : List Fence) : Prop :=
  ∀ epoch id, (latest id).map (Fence.rebind epoch) =
    (fences.find? fun f => f.id == id).map (Fence.rebind epoch)

/-- The fabric has a store that can be opened and agrees with the history, or its records are not
replayed. -/
def Inv (config : DurableConfig) (w : FenceHistory) : Prop :=
  (∃ s, w.fabric.Fenced s ∧ DurableStore.Kept config s w.disk ∧ Agrees w.latest s.state.fences) ∨
    w.fabric.Lost config w.disk

variable {config : DurableConfig} {w : FenceHistory}

theorem Agrees.put {latest : FenceId → Option Fence} {fences : List Fence} {f fence : Fence}
    (h : Agrees latest fences) (hid : f.id = fence.id)
    (hrebind : ∀ epoch, f.rebind epoch = fence.rebind epoch) :
    Agrees (Function.update latest fence.id (some fence)) (putFences fences f) := by
  intro epoch id
  rw [find_putFences, hid]
  by_cases heq : id = fence.id
  · rw [if_pos heq, heq, Function.update_self, Option.map_some, Option.map_some, hrebind]
  · rw [if_neg heq, Function.update_of_ne heq, h epoch id]

theorem Agrees.clear {latest : FenceId → Option Fence} {fences : List Fence} {gone : FenceId}
    (h : Agrees latest fences) (hids : (fences.map Fence.id).Nodup) :
    Agrees (Function.update latest gone none) (fences.eraseP fun f => f.id == gone) := by
  intro epoch id
  rw [find_eraseP hids]
  by_cases heq : id = gone
  · rw [if_pos heq, heq, Function.update_self]
  · rw [if_neg heq, Function.update_of_ne heq, h epoch id]

theorem Inv.step (h : w.Inv config) (call : Call) : (w.step call).Inv config := by
  cases call with
  | putFence fence now =>
    rcases hcall : w.fabric.putFence fence now w.disk with ⟨st, F', d'⟩
    unfold FenceHistory.step
    dsimp only
    rw [hcall]
    dsimp only
    rcases h with ⟨s, hfenced, hkept, hagrees⟩ | hlost
    case inr => exact .inr (hlost.put hcall)
    rcases Fabric.kept_put hfenced.store hkept hcall with ⟨s₁, hstore, hkept'⟩ | hlost
    case inr => exact .inr hlost
    obtain ⟨s', hfenced', -, hend⟩ := hfenced.put hcall
    have hsame := hfenced'.store.symm.trans hstore
    cases hsame
    refine .inl ⟨s₁, hfenced', hkept', ?_⟩
    rcases hend with ⟨hno, hfences⟩ | ⟨hyes, f, hid, hrebind, hfences⟩
    · rw [hno, hfences]
      exact hagrees
    · rw [hyes, hfences]
      exact hagrees.put hid hrebind
  | clearFence id now =>
    rcases hcall : w.fabric.clearFence id now w.disk with ⟨st, F', d'⟩
    unfold FenceHistory.step
    dsimp only
    rw [hcall]
    dsimp only
    rcases h with ⟨s, hfenced, hkept, hagrees⟩ | hlost
    case inr => exact .inr (hlost.clear hcall)
    obtain ⟨s₁, hstore, hkept'⟩ := Fabric.kept_clear hfenced.store hkept hcall
    obtain ⟨s', hfenced', -, hend⟩ := hfenced.clear hcall
    have hsame := hfenced'.store.symm.trans hstore
    cases hsame
    refine .inl ⟨s₁, hfenced', hkept', ?_⟩
    rcases hend with ⟨hno, hfences⟩ | ⟨hyes, hfences⟩
    · rw [hno, hfences]
      exact hagrees
    · rw [hyes, hfences]
      exact hagrees.clear hkept.sane.fenceIds

theorem Inv.run (h : w.Inv config) (calls : List Call) : (w.run calls).Inv config := by
  induction calls generalizing w with
  | nil => exact h
  | cons call calls ih => exact ih (h.step call)

/-- Calls for other fences leave the version of a fence alone. -/
theorem latest_other {calls : List Call} {id : FenceId} (h : ∀ call ∈ calls, call.id ≠ id) :
    (w.run calls).latest id = w.latest id := by
  induction calls generalizing w with
  | nil => rfl
  | cons call calls ih =>
    rw [List.forall_mem_cons] at h
    refine (ih h.2).trans ?_
    cases call with
    | putFence fence now =>
      unfold step
      dsimp only
      split
      · exact Function.update_of_ne (Ne.symm h.1) _ _
      · rfl
    | clearFence gone now =>
      unfold step
      dsimp only
      split
      · exact Function.update_of_ne (Ne.symm h.1) _ _
      · rfl

/-- A fabric that was just opened agrees with the history that starts with it. -/
theorem Inv.start {config : FabricConfig} {i : Incarnation} {d d₀ : Disk} {F : Fabric}
    (hdurable : config.durable = true) (hfaults : d.faults = [])
    (hopen : Fabric.openAt config i d = (.ok F, d₀)) :
    (FenceHistory.start F d₀).Inv (Fabric.durableConfig config) := by
  obtain ⟨-, -, s, -, hfenced, -, hkept⟩ := Fabric.openAt_restores hdurable hopen
  refine .inl ⟨s, hfenced, hkept hfaults, fun epoch id => ?_⟩
  show (F.fences.fences.find? _).map _ = _
  rw [hfenced.fences, List.find?_map, Option.map_map]
  rfl

/-- The table of a new fabric has just the durable versions, bound to its epoch. -/
def Survives (latest : FenceId → Option Fence) (F : Fabric) : Prop :=
  ∀ id, F.fences.fences.filter (fun f => f.id == id) =
    (((latest id).filter Fence.durable).map (Fence.rebind F.epoch)).toList

/-- A new fabric has every latest version that has not been cleared. -/
theorem restored {config : FabricConfig} {i i' : Incarnation} {d d₀ d₁ : Disk} {F F' : Fabric}
    (hdurable : config.durable = true) (hfaults : d.faults = [])
    (hopen : Fabric.openAt config i d = (.ok F, d₀)) (calls : List Call)
    (hagain : Fabric.openAt config i' ((start F d₀).run calls).disk = (.ok F', d₁)) (id : FenceId) :
    F'.fences.fences.filter (fun f => f.id == id) =
      ((((start F d₀).run calls).latest id).map (Fence.rebind F'.epoch)).toList := by
  have hstart := Inv.start hdurable hfaults hopen
  obtain ⟨s₀, d₂, s', hstore, hfenced, hsame, -⟩ := Fabric.openAt_restores hdurable hagain
  rcases hstart.run calls with ⟨s, -, hkept, hagrees⟩ | ⟨s, -, hrefused⟩
  case inr => exact absurd hstore hrefused.not_open
  obtain ⟨s₁, d₃, hstore', hdurables, -⟩ := hkept.reopens
  rw [hstore] at hstore'
  cases hstore'
  have hfences : s'.state.fences = s.state.fences :=
    hsame.trans (congrArg Durable.fences hdurables)
  have hids : (s.state.fences.map Fence.id).Nodup := hkept.sane.fenceIds
  rw [hagrees F'.epoch id, hfenced.fences, hfences, filter_id (by rw [ids_rebind]; exact hids),
    List.find?_map]
  rfl

/-- The fences survive a restart just when they are durable exactly if none of the versions that
are not cleared is volatile. -/
theorem fences_survive_iff (config : FabricConfig) (hdurable : config.durable = true)
    (i i' : Incarnation) (d d₀ d₁ : Disk) (F F' : Fabric) (calls : List Call) (hfaults : d.faults = [])
    (hopen : Fabric.openAt config i d = (.ok F, d₀))
    (hagain : Fabric.openAt config i' ((start F d₀).run calls).disk = (.ok F', d₁)) :
    Survives ((start F d₀).run calls).latest F' ↔
      ∀ id f, ((start F d₀).run calls).latest id = some f → f.durable = true := by
  have hrestored := restored hdurable hfaults hopen calls hagain
  constructor
  · intro h id f hf
    have hboth := (hrestored id).symm.trans (h id)
    rw [hf] at hboth
    by_contra hvolatile
    rw [Option.filter_some_neg (Bool.eq_false_iff.mpr hvolatile)] at hboth
    cases hboth
  · intro h id
    rw [hrestored id]
    cases hf : ((start F d₀).run calls).latest id with
    | none => rfl
    | some f => rw [Option.filter_some_pos (h id f hf)]

def keeping : FabricConfig := { durable := true }

def bootOf (boot : UInt64) : Incarnation := { boot := ⟨boot, boot⟩, pid := 1, index := 0, seq := 1 }

/-- A volatile fence is replaced by a durable one. -/
def hardened : List Call :=
  [.putFence { id := ⟨1⟩, resource := ⟨7⟩ } 0,
    .putFence { id := ⟨1⟩, resource := ⟨7⟩, durable := true } 1]

/-- Whether the records of the fabric replay and leave room for an open. -/
def bootable (F : Fabric) : Bool :=
  match F.store with
  | none => false
  | some s =>
    (DurableStore.applyAll s.journal.records
        { config := Fabric.durableConfig keeping }).toOption.isSome &&
      decide (Bootable keeping.journalLimits s.journal.records) &&
      s.state.epoch.value != 0xFFFFFFFFFFFFFFFF

/-- Whether the fabric can be opened again after the calls, the fences it starts with, and the latest
version of one. -/
def restart (calls : List Call) : Option (Bool × List Fence × Option Fence) :=
  (Fabric.openAt keeping (bootOf 1) {}).1.toOption.map fun F =>
    let w := (start F (Fabric.openAt keeping (bootOf 1) {}).2).run calls
    (bootable w.fabric, F.fences.fences, w.latest ⟨1⟩)

theorem restart_opens {calls : List Call} {fences : List Fence} {latest : Option Fence}
    (h : restart calls = some (true, fences, latest)) : ∃ F d₀ F' d₁,
    Fabric.openAt keeping (bootOf 1) {} = (.ok F, d₀) ∧
      Fabric.openAt keeping (bootOf 2) ((start F d₀).run calls).disk = (.ok F', d₁) ∧
      F.fences.fences = fences ∧ ((start F d₀).run calls).latest ⟨1⟩ = latest := by
  unfold restart at h
  rcases hopen : Fabric.openAt keeping (bootOf 1) {} with ⟨r, d₀⟩
  rw [hopen] at h
  cases r with
  | error st => cases h
  | ok F =>
    obtain ⟨hboot, hrest⟩ := Prod.mk.inj (Option.some.inj h)
    obtain ⟨hfences, hlatest⟩ := Prod.mk.inj hrest
    have hdurable : keeping.durable = true := rfl
    rcases (Inv.start hdurable rfl hopen).run calls with
      ⟨s, hfenced, hkept, -⟩ | ⟨s, hstore, hrefused⟩
    · unfold bootable at hboot
      rw [hfenced.store] at hboot
      simp only [Bool.and_eq_true, decide_eq_true_eq, bne_iff_ne] at hboot
      obtain ⟨⟨-, hroom⟩, hlast⟩ := hboot
      obtain ⟨F', d₁, hagain⟩ :=
        (Fabric.opens_iff (i := bootOf 2) rfl hkept (by decide) hlast).mpr hroom
      exact ⟨F, d₀, F', d₁, rfl, hagain, hfences, hlatest⟩
    · unfold bootable at hboot
      rw [hstore] at hboot
      simp only [Bool.and_eq_true] at hboot
      cases hall : DurableStore.applyAll s.journal.records
          { config := Fabric.durableConfig keeping } with
      | error st =>
        rw [hall] at hboot
        cases hboot.1.1
      | ok t => exact absurd (Replays.of_applyAll hall).1 (hrefused.none _)

theorem hardened_survives : ∃ F d₀ F' d₁,
    Fabric.openAt keeping (bootOf 1) {} = (.ok F, d₀) ∧
      Fabric.openAt keeping (bootOf 2) ((start F d₀).run hardened).disk = (.ok F', d₁) ∧
      Survives ((start F d₀).run hardened).latest F' := by
  have heval : restart hardened =
      some (true, [], some { id := ⟨1⟩, resource := ⟨7⟩, durable := true }) := by
    decide +kernel
  obtain ⟨F, d₀, F', d₁, hopen, hagain, hfences, hlatest⟩ := restart_opens heval
  refine ⟨F, d₀, F', d₁, hopen, hagain, (fences_survive_iff keeping rfl (bootOf 1) (bootOf 2) {} d₀
    d₁ F F' hardened rfl hopen hagain).mpr fun id f hf => ?_⟩
  by_cases hid : id = ⟨1⟩
  · rw [hid, hlatest] at hf
    cases hf
    rfl
  · have hother : ((start F d₀).run hardened).latest id = none := by
      rw [latest_other (by simp [hardened, Call.id, Ne.symm hid])]
      show F.fences.fences.find? _ = none
      rw [hfences, List.find?_nil]
    rw [hother] at hf
    cases hf

/-- A volatile fence is in the table after the restart. -/
theorem volatile_survives : ¬∀ config i i' d d₀ d₁ F F' calls,
    config.durable = true → d.faults = [] → Fabric.openAt config i d = (.ok F, d₀) →
      Fabric.openAt config i' ((start F d₀).run calls).disk = (.ok F', d₁) →
      Survives ((start F d₀).run calls).latest F' := by
  intro hall
  have heval : restart [.putFence { id := ⟨1⟩, resource := ⟨7⟩ } 0] =
      some (true, [], some { id := ⟨1⟩, resource := ⟨7⟩ }) := by
    decide +kernel
  obtain ⟨F, d₀, F', d₁, hopen, hagain, -, hlatest⟩ := restart_opens heval
  have hdurable : keeping.durable = true := rfl
  have hthere := restored hdurable rfl hopen _ hagain ⟨1⟩
  have hgone := hall keeping (bootOf 1) (bootOf 2) {} d₀ d₁ F F' _ rfl rfl hopen hagain ⟨1⟩
  rw [hthere, hlatest] at hgone
  cases hgone

end FenceHistory

end Backpressure
