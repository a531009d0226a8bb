import Backpressure.Runtime.Survival

/-!
# Accepted once

A lineage that a publish has recorded and marked is known to every later incarnation of the fabric,
wherever the machine dies, until so many others have come in that the queues forget it.
-/

namespace Backpressure

open Lib (Recent)

namespace DurableStore

variable {config : DurableConfig} {s s' : DurableStore} {d d' : Disk} {st : Status} {now : Tick}
  {c : Call} {o : Op} {x : Digest128} {n : Nat}

/-! ## The queue of the store -/

theorem establishEpoch_sameQueue (h : s.establishEpoch now d = (st, s', d')) : SameQueue s s' := by
  unfold establishEpoch at h
  split at h
  · cases h
    exact .refl
  · exact write_sameQueue h fun _ => ⟨rfl, rfl⟩

theorem Call.lineages (hc : ∀ lineage now, c ≠ .recordLineage lineage now) :
    (c.run s d).2.1.state.lineages = s.state.lineages := by
  by_cases hepoch : ∀ now, c ≠ .establishEpoch now
  · exact congrArg Prod.snd (Call.keepsMarks hepoch hc)
  · obtain ⟨now, rfl⟩ := not_forall_not.mp hepoch
    rcases hrun : s.establishEpoch now d with ⟨st, s', d'⟩
    show (s.establishEpoch now d).2.1.state.lineages = s.state.lineages
    rw [hrun]
    exact (establishEpoch_sameQueue hrun).lineages

/-- A lineage of the queue is behind all that an operation brings in. -/
theorem Op.recent (h : Recent n x s.state.lineages) (hroom : n + o.records ≤ s.config.maxLineages) :
    Recent (n + o.records) x (o.run s d).1.state.lineages := by
  cases o with
  | sync => exact h
  | call c =>
    by_cases hc : ∀ lineage now, c ≠ .recordLineage lineage now
    · have hsame : ((Op.call c).run s d).1.state.lineages = s.state.lineages := Call.lineages hc
      rw [hsame]
      exact h.mono (Nat.le_add_right n _)
    · simp only [not_forall, not_not] at hc
      obtain ⟨lineage, now, rfl⟩ := hc
      rcases hrun : s.recordLineage lineage now d with ⟨st, s', d'⟩
      show Recent (n + 1) x (s.recordLineage lineage now d).2.1.state.lineages
      rw [hrun]
      rcases recordLineage_queue hrun with ⟨-, ⟨-, hsame⟩ | ⟨-, -, hremembers⟩⟩
      · rw [hsame]
        exact h.mono (Nat.le_succ n)
      · rw [hremembers]
        exact h.shifts hroom (RecoveredState.forgets.shifts s.state lineage trivial)

/-! ## What is synced -/

theorem commitAttempt_synced {id : AttemptId} (h : s.commitAttempt id now d = (st, s', d'))
    (hok : st.ok = true) : d'.bytes.length ≤ d'.synced := by
  unfold commitAttempt at h
  split at h
  · cases h
    exact absurd hok Bool.false_ne_true
  have hpayload : ∃ bytes, attemptPayload id = .ok bytes :=
    ⟨_, (Appends.u64 id.value).take (by simp)⟩
  cases write_cases h with
  | unencoded herror =>
    obtain ⟨bytes, hbytes⟩ := hpayload
    rw [hbytes] at herror
    cases herror
  | refused _ hno =>
    rw [hno] at hok
    cases hok
  | torn => exact absurd hok Bool.false_ne_true
  | unsynced _ _ _ _ _ hno =>
    rw [hno] at hok
    cases hok
  | written _ _ _ hsync =>
    rcases hsync with ⟨hno, -⟩ | ⟨-, st', hdone, hsync⟩
    · cases hno
    · obtain ⟨hbytes, -, hall⟩ := Journal.sync_cases hsync
      rw [hbytes]
      exact (hall hdone).ge

/-- What syncs what it writes leaves a synced file synced. -/
theorem Op.Changed.leaves_synced (h : o.Changed s d s' d') (ho : o.syncs = true)
    (hsynced : d.bytes.length ≤ d.synced) : d'.bytes.length ≤ d'.synced := by
  cases h with
  | idle _ hd =>
    subst hd
    exact hsynced
  | logged r _ hd =>
    rw [hd, ho]
    exact Nat.le_refl _
  | replaced image _ hd =>
    subst hd
    exact Nat.le_refl _
  | synced _ hd =>
    subst hd
    exact Nat.le_refl _

end DurableStore

namespace Fabric

open DurableStore (Course Kept Op SameQueue)

variable {pq : EntryQueue} {config : FabricConfig} {F F' : Fabric} {s s' : DurableStore}
  {d d' : Disk} {st : Status} {now : Tick} {p : PublishCall} {x : Digest128}

/-! ## A publish that is acknowledged -/

/-- A store that takes all the lineages has them in its queue. -/
theorem recordLineages_ok {id : AttemptId} {lineages : List Digest128}
    (h : recordLineages id now lineages s d = (st, s', d')) (hok : st.ok = true) :
    s'.config = s.config ∧
      s'.state.lineages = (s.state.rememberAll s.config.maxLineages lineages).lineages := by
  induction lineages generalizing s d with
  | nil =>
    cases h
    exact ⟨rfl, rfl⟩
  | cons lineage rest ih =>
    rw [recordLineages] at h
    rcases hrecord : s.recordLineage lineage now d with ⟨st₁, s₁, d₁⟩
    rw [hrecord] at h
    dsimp only at h
    obtain ⟨hconfig, ⟨hno, -⟩ | ⟨hyes, -, hstate⟩⟩ := DurableStore.recordLineage_queue hrecord
    · rw [hno, Bool.not_false, if_pos rfl] at h
      cases h
      rw [hno] at hok
      cases hok
    · rw [hyes, Bool.not_true, if_neg Bool.false_ne_true] at h
      obtain ⟨hsame, hqueue⟩ := ih h
      refine ⟨hsame.trans hconfig, ?_⟩
      rw [hqueue, hstate, hconfig]
      rfl

theorem intent_ok {signals : List PressureSignal} (h : F.intent signals now s d = (st, s', d'))
    (hok : st.ok = true) :
    s'.config = s.config ∧ s'.state.lineages = (s.state.rememberAll s.config.maxLineages
      (signals.map PressureSignal.lineage)).lineages := by
  have hbegun := begun_of_intent h hok
  unfold intent recordIntent at h
  rcases hbegin : s.beginAttempt F.attemptId now d with ⟨st₁, s₁, d₁⟩
  rw [hbegin] at h hbegun
  dsimp only at h hbegun
  rw [hbegun, Bool.not_true, if_neg Bool.false_ne_true] at h
  have hsame := DurableStore.beginAttempt_sameQueue hbegin
  obtain ⟨hconfig, hqueue⟩ := recordLineages_ok h hok
  refine ⟨hconfig.trans hsame.config, ?_⟩
  rw [hqueue, hsame.config]
  exact RecoveredState.lineages_rememberAll hsame.lineages

/-- What a publish that is acknowledged with a new lineage has done to its store: the course ends
behind a commit, and all that it wrote is synced. -/
structure Acked (F : Fabric) (d : Disk) (p : PublishCall) (F' : Fabric) (d' : Disk)
    (s s' : DurableStore) (ops : List Op) : Prop where
  store : F'.store = some s'
  course : Course ops s d s' d'
  ends : ops ≠ []
  synced : d'.bytes.length ≤ d'.synced
  queue : s'.state.lineages = (s.state.rememberAll s.config.maxLineages
    (p.signals.map PressureSignal.lineage)).lineages

theorem acked {o : PropagationOutcome} (hstore : F.store = some s)
    (hkept : Kept (durableConfig config) s d) (hmax : 0 < config.ledgerLineageCapacity)
    (hfits : ∀ s, F.Finishes pq p.signals now d s → s.CompactFits)
    (hrun : p.run pq F now d = (.ok o, F', d')) (hok : o.status.ok = true)
    (hrecorded : Recorded F F' x) : ∃ s' ops, F.Acked d p F' d' s s' ops := by
  have hruns := runs pq F p now d
  rw [hrun] at hruns
  cases hruns with
  | turnedAway _ hresult =>
    rw [hresult o rfl] at hok
    cases hok
  | @attempted topology policy after hattempts hends =>
    have htried := @tried pq F topology policy p.signals now d s hstore
    rcases hattempt : F.attempt pq topology policy p.signals now d with ⟨ending, F₁, d₁⟩
    rw [hattempt] at hends htried
    generalize hafter : ((.ok o, F', d') : Result PropagationOutcome × Fabric × Disk) = ended
      at hends
    cases hends with
    | refused => cases hafter
    | mismatch => cases hafter
    | uncommitted => cases hafter
    | failed hsame =>
      cases hafter
      cases htried with
      | idle _ _ _ _ hending =>
        rcases hending with ⟨hno, hfailed⟩ | ⟨-, hdone⟩
        · cases hfailed
          rw [hno] at hok
          cases hok
        · cases hdone
      | failed _ _ _ hno =>
        rw [hno] at hok
        cases hok
    | @done _ _ F₂ _ hsame =>
      rcases hcompacted : F₂.journalCompactionLocked d₁ with ⟨F₃, d₃⟩
      rw [hcompacted] at hafter
      cases hafter
      cases htried with
      | idle _ _ hstored =>
        -- the store is as it was, but for a compaction
        obtain ⟨s', hs', hqueue⟩ :=
          @store_journalCompactionLocked F₂ d s (hsame.store.trans hstored)
        rw [hcompacted] at hs'
        rw [recorded_iff hstore hs', hqueue.lineages] at hrecorded
        exact absurd hrecorded.1 hrecorded.2
      | @done st st₂ _ s₁ s₂ d₂ _ hsome hintent hyes hran hcommit hcommitted _ hstored =>
        obtain ⟨hconfig, hqueue⟩ := intent_ok hintent hyes
        obtain ⟨ops, hcourse, -⟩ := course_intent hintent
        have hcommits := hcourse.append
          (course_call (c := .commitAttempt F.attemptId now) trivial hcommit)
        have hsynced := DurableStore.commitAttempt_synced hcommit hcommitted
        have hkept₂ : Kept (durableConfig config) s₂ d₁ := hcommits.kept hmax hkept
        have hstore₂ : F₂.store = some s₂ := hsame.store.trans hstored
        have hlineages : s₂.state.lineages = (s.state.rememberAll s.config.maxLineages
            (p.signals.map PressureSignal.lineage)).lineages :=
          (DurableStore.commitAttempt_sameQueue hcommit).lineages.trans hqueue
        unfold journalCompactionLocked at hcompacted
        rw [hstore₂] at hcompacted
        dsimp only at hcompacted
        unfold DurableStore.compactIfNeeded at hcompacted
        split at hcompacted
        · cases hcompacted
          exact ⟨s₂, _, rfl, hcommits, by simp, hsynced, hlineages⟩
        · rcases hcompact : s₂.compact d₁ with ⟨st₃, s₃, d₄⟩
          rw [hcompact] at hcompacted
          cases hcompacted
          have hsafe := hfits s₂ (finishes_of_attempt hattempts hattempt hstored)
          have hone := course_call (c := .compact) hsafe hcompact
          refine ⟨s₃, _, rfl, hcommits.append hone, by simp, ?_, ?_⟩
          · have hchanged := hkept₂.changed_call (c := .compact) hmax hsafe hcompact
            exact hchanged.leaves_synced rfl hsynced
          · exact (DurableStore.compact_sameQueue hcompact).lineages.trans hlineages

theorem Acked.recent {ops : List Op} (h : F.Acked d p F' d' s s' ops) (hstore : F.store = some s)
    (hrecorded : Recorded F F' x) (hroom : p.signals.length ≤ s.config.maxLineages) :
    Recent p.signals.length x s'.state.lineages := by
  obtain ⟨hin, hnew⟩ := (recorded_iff hstore h.store).mp hrecorded
  rw [h.queue] at hin ⊢
  have hone := (RecoveredState.forgets.mem_of_mem trivial hin).resolve_right hnew
  have hfew : (p.signals.map PressureSignal.lineage).length ≤ s.config.maxLineages := by
    rwa [List.length_map]
  have hall := RecoveredState.forgets.arrives trivial hone hnew hfew
  rwa [List.length_map] at hall

/-- What a publish marks is at the back of the window. -/
theorem publish_recent (hstore : F.store = some s) (hmarked : Marked F (p.run pq F now d).2.1 x)
    (hroom : p.signals.length ≤ F.ledger.lineages.capacity) :
    Recent p.signals.length x (p.run pq F now d).2.1.ledger.lineages.queue := by
  have hmarks : F.Marks (p.run pq F now d).2.1 p.signals.length := publish_marks hstore
  obtain ⟨lineages, hlength, hafter⟩ := hmarks
  obtain ⟨hin, hnew⟩ := marked_iff.mp hmarked
  rw [hafter] at hin ⊢
  have hone := (Lib.Window.forgets.mem_of_mem rfl hin).resolve_right hnew
  exact (Lib.Window.forgets.arrives rfl hone hnew (hlength.trans hroom)).mono hlength

theorem publish_resting (hrest : F.Resting config d) (hmax : 0 < config.ledgerLineageCapacity)
    (hfits : ∀ s, F.Finishes pq p.signals now d s → s.CompactFits) :
    (p.run pq F now d).2.1.Resting config (p.run pq F now d).2.2 := by
  cases p with
  | publish signal => exact hrest.publish hmax hfits
  | publishBatch signals => exact hrest.publishBatch hmax hfits

/-- A lineage that the ledger has is not accepted afresh. -/
theorem not_fresh (hknown : F.shuttingDown = false → F.ledger.hasLineage x = true) :
    ¬F.Fresh pq p now (p.run pq F now d).1 x := by
  rintro ⟨o, topology, policy, signal, hresult, hok, -, -, -, hnew, rfl⟩
  have hruns := runs pq F p now d
  generalize p.run pq F now d = after at hresult hruns
  cases hruns with
  | turnedAway _ hno =>
    rw [hno o hresult] at hok
    cases hok
  | attempted hattempts =>
    rw [hknown hattempts.serving] at hnew
    cases hnew

end Fabric

/-! ## Histories of the store -/

namespace StoreHistory

open DurableStore (Course Op)

variable {config : DurableConfig} {w : StoreHistory} {s s' : DurableStore} {d d' : Disk}
  {steps : List Step} {a : Step} {ops : List Op} {x : Digest128} {m n : Nat} {P : Durable → Prop}

/-- What comes at the end of a course and is synced lasts. -/
theorem always_course (h : Course ops s d s' d') (hsome : ops ≠ []) (hstore : w.store = some s)
    (hdisk : w.disk = d) (hsynced : d'.bytes.length ≤ d'.synced) (hs' : P s'.durable) :
    (w.run config (ops.map .op)).Always P := by
  induction h generalizing w with
  | nil => exact absurd rfl hsome
  | @cons o ops s s₁ s' d d₁ d' hsafe hrun hrest ih =>
    have hstep : w.step config (.op o) = w.goOn s₁ d₁ := step_op hstore (hdisk ▸ hrun)
    show ((w.step config (.op o)).run config (ops.map .op)).Always P
    rw [hstep]
    cases hrest with
    | nil => exact always_settled hsynced hs'
    | cons => exact ih (by simp) rfl rfl hsynced hs'

/-- The lineage is one of the newest of the queue, as long as there is room for those. -/
def Recalls (cap n : Nat) (x : Digest128) (v : Durable) : Prop := n ≤ cap → Recent n x v.lineages

theorem Recalls.mono {cap : Nat} {v : Durable} (h : Recalls cap m x v) (hle : m ≤ n) :
    Recalls cap n x v := fun hroom => (h (by omega)).mono hle

theorem brings_recalls (hinv : w.Inv config) :
    w.Brings (Recalls config.maxLineages n x) (Recalls config.maxLineages (n + a.records) x) a := by
  have hone : ∀ (o : Op) s, w.store = some s → Recalls config.maxLineages n x s.durable →
      Recalls config.maxLineages (n + o.records) x (o.run s w.disk).1.durable := by
    intro o s hstore h hroom
    have hsame : s.config = config := (hinv.ahead hstore).kept.refined.same
    exact Op.recent (h (by omega)) (by rwa [hsame])
  cases a with
  | op o => exact hone o
  | crash o back kept => exact hone o
  | openAt => trivial
  | crashOpen back kept => trivial

theorem recalls_run (hmax : 0 < config.maxLineages) (hinv : w.Inv config)
    (h : w.Always (Recalls config.maxLineages n x)) (hsafe : w.SafeRun config steps) :
    (w.run config steps).Always (Recalls config.maxLineages (n + recorded steps) x) := by
  induction steps generalizing w n with
  | nil => exact h
  | cons a steps ih =>
    have hone := h.step (fun _ hv => hv.mono (Nat.le_add_right n a.records)) hinv
      (brings_recalls hinv)
    have hall := ih (hinv.step hmax hsafe.1) hone hsafe.2
    rw [Nat.add_assoc] at hall
    exact hall

end StoreHistory

/-! ## Histories of the fabric -/

namespace FabricHistory

open Fabric (durableConfig Boots Marks Recorded Marked Steady)
open DurableStore (Kept)
open StoreHistory (Recalls)

variable {pq : EntryQueue} {config : FabricConfig} {h : FabricHistory} {w : StoreHistory}
  {e : Event} {events : List Event} {F F' : Fabric} {d d' : Disk} {asked : Asked}
  {x : Digest128} {m n : Nat}

/-- What a fabric that goes on makes of the window of its ledger. -/
structure Carries (F F' : Fabric) (n : Nat) : Prop where
  capacity : F'.ledger.lineages.capacity = F.ledger.lineages.capacity
  marks : F'.shuttingDown = false → F.shuttingDown = false ∧ F.Marks F' n

theorem Carries.of_marks (hmarks : F.Marks F' n)
    (hdown : F.shuttingDown = true → F'.shuttingDown = true) : Carries F F' n := by
  refine ⟨?_, fun hup => ⟨?_, hmarks⟩⟩
  · obtain ⟨lineages, -, hafter⟩ := hmarks
    rw [hafter, Lib.Window.capacity_foldl_mark]
  · cases hthis : F.shuttingDown with
    | false => rfl
    | true => rw [hdown hthis] at hup; cases hup

/-- The fabric that an event leaves was opened by it, or was there before. -/
inductive Comes (config : FabricConfig) (h : FabricHistory) (e : Event) (F' : Fabric) : Prop
  | opened {i : Incarnation} {d' : Disk} :
      Fabric.openAt config i h.disk = (.ok F', d') → Comes config h e F'
  | carried {F : Fabric} : h.fabric = some F → Carries F F' e.signals → Comes config h e F'

theorem comes (hstores : ∀ F, h.fabric = some F → ∃ s, F.store = some s)
    (hafter : (h.step pq config e).fabric = some F') : h.Comes config e F' := by
  obtain ⟨asked, dies⟩ := e
  unfold FabricHistory.step done at hafter
  dsimp only at hafter
  split at hafter
  case h_2 => cases hafter
  cases asked with
  | openAt i =>
    rcases hopen : Fabric.openAt config i h.disk with ⟨r, d'⟩
    dsimp only at hafter
    rw [hopen] at hafter
    cases r with
    | error st => cases hafter
    | ok F =>
      cases hafter
      exact .opened hopen
  | request r =>
    cases hfabric : h.fabric with
    | none => rw [hfabric] at hafter; cases hafter
    | some F =>
      rw [hfabric] at hafter
      cases hafter
      obtain ⟨s, hstore⟩ := hstores F hfabric
      exact .carried hfabric (.of_marks (Fabric.request_marks hstore) Fabric.request_down)
  | recover source origin originGeneration residual authority now =>
    obtain ⟨F, hfabric, rfl⟩ := Option.map_eq_some_iff.mp hafter
    have hrecovered : F.Recovered
      (F.recover source origin originGeneration residual authority now).2 := Fabric.recovered
    refine .carried hfabric (.of_marks ⟨[], Nat.le_refl 0, hrecovered.lineages⟩ fun hdown => ?_)
    rw [hrecovered.shuttingDown, hdown]
  | shutdown now =>
    cases hfabric : h.fabric with
    | none => rw [hfabric] at hafter; cases hafter
    | some F =>
      rw [hfabric] at hafter
      refine .carried hfabric ?_
      dsimp only at hafter
      split at hafter
      · cases hafter
        exact .of_marks ⟨[], Nat.le_refl 0, rfl⟩ id
      · cases hafter
        have hsteady : ({ F with shuttingDown := true } : Fabric).Steady
          (({ F with shuttingDown := true } : Fabric).flushLocked now h.disk).2.1 :=
          Steady.flushLocked
        have hsame := congrArg (fun l : PropagationLedger => l.lineages.capacity) hsteady.ledger
        refine ⟨hsame, fun hup => ?_⟩
        have hdown := hsteady.shuttingDown.symm.trans hup
        cases hdown

/-- The ledger has room for as many lineages as the store. -/
def Sized (config : FabricConfig) (h : FabricHistory) : Prop :=
  ∀ F, h.fabric = some F → F.ledger.lineages.capacity = config.ledgerLineageCapacity

/-- Every incarnation that is still to come knows the lineage, and so does the one that is up. -/
structure Knows (config : FabricConfig) (n : Nat) (x : Digest128) (h : FabricHistory)
    (w : StoreHistory) : Prop where
  store : w.Always (Recalls config.ledgerLineageCapacity n x)
  ledger : ∀ F, h.fabric = some F → F.shuttingDown = false → n ≤ config.ledgerLineageCapacity →
    Recent n x F.ledger.lineages.queue

/-- A fabric that is opened takes the lineages from its store. -/
theorem openAt_ledger {i : Incarnation} (hdurable : config.durable = true)
    (hmax : 0 < config.ledgerLineageCapacity) (hfaults : d.faults = [])
    (hopen : Fabric.openAt config i d = (.ok F, d')) :
    F.ledger.lineages.capacity = config.ledgerLineageCapacity ∧
      ∃ s, F.store = some s ∧ F.ledger.lineages =
        s.state.lineages.foldl Lib.Window.mark (.ofCapacity config.ledgerLineageCapacity) := by
  obtain ⟨s₀, d₀, s, hstore₀, -⟩ := Fabric.openAt_restores hdurable hopen
  have hboots : Boots i s₀ d₀ (Fabric.openAt config i d) := Fabric.openAt_boots hdurable hstore₀
  have hrests : F.Resting config d' := Fabric.openAt_resting hdurable hfaults hopen
  rw [hopen] at hboots
  cases hboots with
  | opened _ _ _ hstore _ _ hledger _ _ =>
    rw [hrests.same] at hledger
    refine ⟨?_, _, hstore, hledger⟩
    rw [hledger, Lib.Window.capacity_foldl_mark]
    exact if_neg (Nat.ne_of_gt hmax)

theorem Mirrors.stores (hm : h.Mirrors config w) : ∀ F, h.fabric = some F → ∃ s, F.store = some s :=
  fun F hF => (hm.rests F hF).1.store.imp fun _ hs => hs.1

theorem Mirrors.faults (hm : h.Mirrors config w) : h.disk.faults = [] := by
  obtain ⟨-, -, -, hfaults⟩ := hm.inv.opens
  rwa [hm.disk] at hfaults

theorem Sized.step (hsized : h.Sized config) (hm : h.Mirrors config w)
    (hdurable : config.durable = true) (hmax : 0 < config.ledgerLineageCapacity) :
    (h.step pq config e).Sized config := by
  intro F' hF'
  cases comes hm.stores hF' with
  | opened hopen => exact (openAt_ledger hdurable hmax hm.faults hopen).1
  | carried hfabric hcarries => exact hcarries.capacity.trans (hsized _ hfabric)

/-- What a store in force knows. -/
theorem recalls_store {cap : Nat} {s : DurableStore} (hstore : w.Always (Recalls cap n x))
    (hinv : w.Inv (durableConfig config)) (hs : w.store = some s) :
    Recalls cap n x s.durable ∧ s.state.lineages.Nodup :=
  ⟨hstore.current (hinv.ahead hs), (hinv.ahead hs).kept.sane.lineages⟩

theorem Knows.follows {steps : List StoreHistory.Step} (hknows : h.Knows config n x w)
    (hm : h.Mirrors config w) (hsized : h.Sized config) (hdurable : config.durable = true)
    (hmax : 0 < config.ledgerLineageCapacity) (hfollows : Follows pq config h w e steps) :
    (h.step pq config e).Knows config (n + e.signals) x (w.run (durableConfig config) steps) := by
  have hstore : (w.run (durableConfig config) steps).Always
      (Recalls config.ledgerLineageCapacity (n + e.signals) x) := by
    have hall := StoreHistory.recalls_run hmax hm.inv hknows.store hfollows.safe
    exact fun i v hi hv => (hall i v hi hv).mono (Nat.add_le_add_left hfollows.recorded n)
  refine ⟨hstore, fun F' hF' hup hroom => ?_⟩
  cases comes hm.stores hF' with
  | opened hopen =>
    obtain ⟨-, s, hs, hledger⟩ := openAt_ledger hdurable hmax hm.faults hopen
    obtain ⟨hrecalls, hnodup⟩ := recalls_store hstore hfollows.mirrors.inv
      ((hfollows.mirrors.rests F' hF').2.symm.trans hs)
    rw [hledger]
    exact Lib.Window.forgets.replays (if_neg (Nat.ne_of_gt hmax)) (hrecalls hroom) hnodup
      List.not_mem_nil hroom
  | carried hfabric hcarries =>
    obtain ⟨hserving, lineages, hlength, hafter⟩ := hcarries.marks hup
    have hbefore := hknows.ledger _ hfabric hserving (by omega)
    rw [hafter]
    exact (Lib.Window.forgets.lasts (hsized _ hfabric) hbefore (by omega)).mono (by omega)

theorem Knows.run (hknows : h.Knows config n x w) (hm : h.Mirrors config w)
    (hsized : h.Sized config) (hdurable : config.durable = true)
    (hmax : 0 < config.ledgerLineageCapacity) (hsafe : h.SafeRun pq config events) :
    ∃ w', (h.run pq config events).Knows config (n + signals events) x w' := by
  induction events generalizing h w n with
  | nil => exact ⟨w, hknows⟩
  | cons e events ih =>
    obtain ⟨steps, hfollows⟩ := hm.follows hdurable hmax hsafe.1
    obtain ⟨w', hall⟩ := ih (hknows.follows hm hsized hdurable hmax hfollows) hfollows.mirrors
      (hsized.step hm hdurable hmax) hsafe.2
    rw [Nat.add_assoc] at hall
    exact ⟨w', hall⟩

theorem Sized.run (hsized : h.Sized config) (hm : h.Mirrors config w)
    (hdurable : config.durable = true) (hmax : 0 < config.ledgerLineageCapacity)
    (hsafe : h.SafeRun pq config events) : (h.run pq config events).Sized config := by
  induction events generalizing h w with
  | nil => exact hsized
  | cons e events ih =>
    obtain ⟨steps, hfollows⟩ := hm.follows hdurable hmax hsafe.1
    exact ih (hsized.step hm hdurable hmax) hfollows.mirrors hsafe.2

/-! ## Accepted once -/

/-- A publish that is acknowledged leaves its new lineages to every incarnation to come. -/
theorem knows_acked {p : PublishCall} {now : Tick} {o : PropagationOutcome}
    (hm : h.Mirrors config w) (hsized : h.Sized config) (hmax : 0 < config.ledgerLineageCapacity)
    (hfabric : h.fabric = some F)
    (hfits : ∀ s, F.Finishes pq p.signals now h.disk s → s.CompactFits)
    (hcall : p.run pq F now h.disk = (.ok o, F', d')) (hok : o.status.ok = true)
    (hrecorded : Recorded F F' x) (hmarked : Marked F F' x)
    (hroom : p.signals.length ≤ config.ledgerLineageCapacity) :
    ∃ w', Mirrors config ⟨some F', d'⟩ w' ∧ Sized config ⟨some F', d'⟩ ∧
      Knows config p.signals.length x ⟨some F', d'⟩ w' := by
  obtain ⟨hrest, hheld⟩ := hm.rests F hfabric
  obtain ⟨s, hstore, hkept⟩ := hrest.store
  obtain ⟨s', ops, hacked⟩ := Fabric.acked hstore hkept hmax hfits hcall hok hrecorded
  have hstore' : w.store = some s := hheld.symm.trans hstore
  have hcourse := hacked.course
  rw [← hm.disk] at hcourse
  obtain ⟨hsafe, hafter, hdisk, hinv, hfirm⟩ :=
    StoreHistory.course_done hmax hm.inv (hm.disk ▸ hm.firm) hstore' hcourse
  have hrecent := hacked.recent hstore hrecorded (by rwa [hkept.refined.same])
  have hresting := Fabric.publish_resting hrest hmax hfits
  have hmarks : F.Marks (p.run pq F now h.disk).2.1 p.signals.length := Fabric.publish_marks hstore
  rw [hcall] at hresting hmarks
  refine ⟨_, ⟨hdisk, hfirm, hinv, ?_⟩, ?_, ⟨?_, ?_⟩⟩
  · rintro F₁ ⟨⟩
    exact ⟨hresting, hacked.store.trans hafter.symm⟩
  · rintro F₁ ⟨⟩
    obtain ⟨lineages, -, hledger⟩ := hmarks
    rw [hledger, Lib.Window.capacity_foldl_mark]
    exact hsized F hfabric
  · exact StoreHistory.always_course hcourse hacked.ends hstore' rfl hacked.synced fun _ => hrecent
  · rintro F₁ ⟨⟩ - -
    have hlast : Marked F (p.run pq F now h.disk).2.1 x → _ → Recent p.signals.length x
      (p.run pq F now h.disk).2.1.ledger.lineages.queue := Fabric.publish_recent hstore
    rw [hcall] at hlast
    exact hlast hmarked (by rwa [hsized F hfabric])

/-- A lineage that a publish has recorded, marked and acknowledged is not accepted afresh again,
whatever is asked and wherever the machine dies, as long as no more signals have been brought since
than the queues have room for. -/
theorem accepted_once (pq : EntryQueue) (config : FabricConfig) (hdurable : config.durable = true)
    (hmax : 0 < config.ledgerLineageCapacity) (i : Incarnation) (d d₀ d₂ : Disk)
    (F F₁ F₂ : Fabric) (hfaults : d.faults = []) (hsynced : d.bytes.length ≤ d.synced)
    (hopen : Fabric.openAt config i d = (.ok F, d₀)) (events later : List Event)
    (hsafe : (FabricHistory.mk (some F) d₀).SafeRun pq config events) (p : PublishCall) (now : Tick)
    (o : PropagationOutcome) (x : Digest128)
    (hfabric : ((FabricHistory.mk (some F) d₀).run pq config events).fabric = some F₁)
    (hfits : ∀ s, F₁.Finishes pq p.signals now
      ((FabricHistory.mk (some F) d₀).run pq config events).disk s → s.CompactFits)
    (hcall : p.run pq F₁ now ((FabricHistory.mk (some F) d₀).run pq config events).disk =
      (.ok o, F₂, d₂))
    (hok : o.status.ok = true) (hrecorded : Recorded F₁ F₂ x) (hmarked : Marked F₁ F₂ x)
    (hlater : (FabricHistory.mk (some F₂) d₂).SafeRun pq config later)
    (hfew : p.signals.length + signals later ≤ config.ledgerLineageCapacity) :
    let h := (FabricHistory.mk (some F₂) d₂).run pq config later
    ∀ F', h.fabric = some F' → (F'.shuttingDown = false → F'.ledger.hasLineage x = true) ∧
      ∀ (p' : PublishCall) (now' : Tick), ¬F'.Fresh pq p' now' (p'.run pq F' now' h.disk).1 x := by
  intro h F' hF'
  obtain ⟨s₁, d₁, booted, -, -, hm, -⟩ := mirrors_start hdurable hmax hfaults hsynced hopen
  have hsized : Sized config ⟨some F, d₀⟩ := by
    rintro F₀ ⟨⟩
    exact (openAt_ledger hdurable hmax hfaults hopen).1
  obtain ⟨steps, -, hmirrors, -⟩ := hm.run hdurable hmax hsafe
  obtain ⟨w, hm₂, hsized₂, hknows⟩ := knows_acked hmirrors (hsized.run hm hdurable hmax hsafe) hmax
    hfabric hfits hcall hok hrecorded hmarked (by omega)
  obtain ⟨w', hend⟩ := hknows.run hm₂ hsized₂ hdurable hmax hlater
  have hknown : F'.shuttingDown = false → F'.ledger.hasLineage x = true := fun hup =>
    Lib.Window.has_iff.mpr (hend.ledger F' hF' hup hfew).mem
  exact ⟨hknown, fun p' now' => Fabric.not_fresh hknown⟩

/-- One resource, a policy and one publisher. -/
def settingUp : List Event :=
  [⟨.request (.installTopology [probeResource ⟨1⟩] [] 1), none⟩,
    ⟨.request (.installPolicy probePolicy 2), none⟩,
    ⟨.request (.registerPublisher ⟨1⟩ { boot := { lo := 1 }, seq := 1 } 3), none⟩]

/-- The machine dies, and the fabric is opened again. -/
def restarting : List Event :=
  [⟨.request (.heartbeat ⟨1⟩ { boot := { lo := 1 }, seq := 1 } 6), some (0, 0)⟩,
    ⟨.openAt { boot := { lo := 2 }, seq := 1 }, none⟩]

theorem restarting_safe {F : Fabric} {d : Disk} :
    (FabricHistory.mk (some F) d).SafeRun .scan { durable := true } restarting := by
  refine ⟨⟨fun _ _ => trivial, ?_⟩, ⟨trivial, fun _ _ hdies => by cases hdies⟩, trivial⟩
  rintro back kept ⟨⟩
  exact (Nat.zero_add d.past.length).le

/-- The signal is accepted, its lineage is new to both queues, and the store can be compacted. -/
def acceptedSmall (F : Fabric) (d : Disk) : Bool :=
  let after := F.publish .scan F.smallSignal 5 d
  let fits := fun s : DurableStore => s.compacted.toOption.all fun records =>
    decide (payloadBytes records ≤ s.journal.limits.maxRetainedBytes)
  after.1.toOption.any (fun o => o.status.ok) &&
    decide (Marked F after.2.1 F.smallSignal.lineage) &&
    F.store.any (fun s => after.2.1.store.any fun s' =>
      decide (F.smallSignal.lineage ∈ s'.state.lineages ∧
        F.smallSignal.lineage ∉ s.state.lineages)) &&
    F.topology.all fun topology => F.policy.all fun policy =>
      (F.attempt .scan topology policy [F.smallSignal] 5 d).2.1.store.all fits

theorem parts_of_acceptedSmall (h : acceptedSmall F d = true) :
    ∃ o F' d', (PublishCall.publish F.smallSignal).run .scan F 5 d = (.ok o, F', d') ∧
      o.status.ok = true ∧ Marked F F' F.smallSignal.lineage ∧
      Recorded F F' F.smallSignal.lineage ∧
      ∀ s, F.Finishes .scan [F.smallSignal] 5 d s → s.CompactFits := by
  unfold acceptedSmall at h
  simp only [Bool.and_eq_true, decide_eq_true_eq] at h
  obtain ⟨⟨⟨hresult, hmarked⟩, hrecorded⟩, hfits⟩ := h
  rcases hcall : F.publish .scan F.smallSignal 5 d with ⟨r, F', d'⟩
  rw [hcall] at hresult hmarked hrecorded
  obtain ⟨o, ho, hok⟩ := (Option.any_eq_true _ _).mp hresult
  obtain ⟨s, hs, hafter⟩ := (Option.any_eq_true _ _).mp hrecorded
  obtain ⟨s', hs', hqueue⟩ := (Option.any_eq_true _ _).mp hafter
  cases r with
  | error st => cases ho
  | ok o' =>
    cases ho
    refine ⟨o, F', d', hcall, hok, hmarked, ⟨s, s', hs, hs', of_decide_eq_true hqueue⟩, ?_⟩
    rintro s₁ ⟨topology, policy, o₁, F₁, d₁, htopology, hpolicy, hattempt, hstore⟩ records
      hrecords -
    dsimp only at hattempt
    rw [Fabric.propagate_dryRun] at hattempt
    have hends : F.attempt .scan topology policy [F.smallSignal] 5 d = (.done o₁, F₁, d₁) :=
      hattempt
    rw [htopology, hpolicy] at hfits
    simp only [Option.all_some] at hfits
    rw [hends, hstore] at hfits
    simp only [Option.all_some] at hfits
    rw [hrecords] at hfits
    exact of_decide_eq_true hfits

theorem settingUp_safe : h.SafeRun .scan { durable := true } settingUp :=
  ⟨⟨fun _ _ => trivial, fun _ _ hdies => by cases hdies⟩,
    ⟨fun _ _ => trivial, fun _ _ hdies => by cases hdies⟩,
    ⟨fun _ _ => trivial, fun _ _ hdies => by cases hdies⟩, trivial⟩

set_option maxRecDepth 1000 in
theorem restarted_once : ∃ F d₀ F₁ d₁ o F₂ d₂, firstOpen = (.ok F, d₀) ∧
    (FabricHistory.mk (some F) d₀).run .scan { durable := true } settingUp = ⟨some F₁, d₁⟩ ∧
    (PublishCall.publish F₁.smallSignal).run .scan F₁ 5 d₁ = (.ok o, F₂, d₂) ∧
    let h := (FabricHistory.mk (some F₂) d₂).run .scan { durable := true } restarting
    ∀ F', h.fabric = some F' →
      (F'.shuttingDown = false → F'.ledger.hasLineage F₁.smallSignal.lineage = true) ∧
        ∀ (p' : PublishCall) (now' : Tick),
          ¬F'.Fresh .scan p' now' (p'.run .scan F' now' h.disk).1 F₁.smallSignal.lineage := by
  have haccepted : (firstOpen.1.toOption.map fun F =>
      let h := (FabricHistory.mk (some F) firstOpen.2).run .scan { durable := true } settingUp
      h.fabric.any fun F => acceptedSmall F h.disk) = some true := by
    decide +kernel
  rcases hopen : firstOpen with ⟨r, d₀⟩
  rw [hopen] at haccepted
  cases r with
  | error st => cases haccepted
  | ok F =>
    rcases hrun : (FabricHistory.mk (some F) d₀).run .scan { durable := true } settingUp with
      ⟨fabric, d₁⟩
    have hafter := Option.some.inj haccepted
    dsimp only at hafter
    rw [hrun] at hafter
    obtain ⟨F₁, hfabric, hsmall⟩ := (Option.any_eq_true _ _).mp hafter
    obtain rfl : fabric = some F₁ := hfabric
    obtain ⟨o, F₂, d₂, hcall, hok, hmarked, hrecorded, hfits⟩ := parts_of_acceptedSmall hsmall
    refine ⟨F, d₀, F₁, d₁, o, F₂, d₂, rfl, hrun, hcall, ?_⟩
    have hthere := congrArg FabricHistory.disk hrun
    exact accepted_once .scan { durable := true } rfl (by decide) _ {} d₀ d₂ F F₁ F₂ rfl
      (Nat.le_refl 0) hopen settingUp restarting settingUp_safe (.publish F₁.smallSignal) 5 o _
      (congrArg FabricHistory.fabric hrun) (by rw [hthere]; exact hfits)
      (by rw [hthere]; exact hcall) hok hrecorded hmarked restarting_safe
      (by decide : 1 + 0 ≤ 65536)

end FabricHistory

end Backpressure
