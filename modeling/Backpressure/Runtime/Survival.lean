import Backpressure.Runtime.Courses
import Backpressure.Runtime.Recover

/-!
# What outlives a fabric

A fabric is opened, called, dies in the middle of a call or of an open, and is opened again.
Whatever it does to its disk is a course of operations of its store, so that all that is known of a
store that crashes is known of the fabric.
-/

namespace Backpressure

/-! ## Events -/

/-- What is asked of the host. -/
inductive Asked
  /-- A fabric that is still there is killed first. -/
  | openAt (incarnation : Incarnation)
  | request (request : Fabric.Request)
  | recover (source : SourceId) (origin : ResourceId) (originGeneration : Generation)
      (residual : Magnitude) (authority : AuthorityVector) (now : Tick)
  | shutdown (now : Tick)

/-- What is asked writes a footprint, in as many records as it takes. -/
def Asked.flushes : Asked → Bool
  | .request r => r.flushes
  | .shutdown _ => true
  | _ => false

/-- Something is asked, and the machine may die in the middle of it: so many changes of the file
before its end, with so many bytes left. -/
structure Event where
  asked : Asked
  dies : Option (Nat × Nat) := none

/-- How many signals an event brings. -/
def Event.signals (e : Event) : Nat :=
  match e.asked with
  | .request r => r.signals
  | _ => 0

/-- A fabric, if one is open, and its disk. -/
structure FabricHistory where
  fabric : Option Fabric
  disk : Disk

namespace FabricHistory

open Fabric (durableConfig footprint footprintChunk Goes Boots Marks Resting)
open DurableStore (Course Kept Op Reopens)
open StoreHistory (Step)

/-- The fabric and the disk when all is done that is asked. -/
def done (pq : EntryQueue) (config : FabricConfig) (h : FabricHistory) :
    Asked → Option Fabric × Disk
  | .openAt i => ((Fabric.openAt config i h.disk).1.toOption, (Fabric.openAt config i h.disk).2)
  | .request r =>
    match h.fabric with
    | none => (none, h.disk)
    | some F => (some (r.run pq F h.disk).1, (r.run pq F h.disk).2)
  | .recover source origin originGeneration residual authority now =>
    (h.fabric.map fun F => (F.recover source origin originGeneration residual authority now).2,
      h.disk)
  | .shutdown now =>
    match h.fabric with
    | none => (none, h.disk)
    | some F =>
      if F.shuttingDown then (some F, h.disk)
      else
        let after := ({ F with shuttingDown := true } : Fabric).shutdownLocked now h.disk
        (some after.2.1, after.2.2)

def step (pq : EntryQueue) (config : FabricConfig) (h : FabricHistory) (e : Event) :
    FabricHistory :=
  let after := h.done pq config e.asked
  match e.dies with
  | none => ⟨after.1, after.2⟩
  | some (back, kept) => ⟨none, (after.2.back back).crash kept⟩

def run (pq : EntryQueue) (config : FabricConfig) (h : FabricHistory) (events : List Event) :
    FabricHistory :=
  events.foldl (step pq config) h

/-- Every record that is written can be replayed, and what is compacted fits into the memory for
it. -/
def Clean (pq : EntryQueue) (h : FabricHistory) : Asked → Prop
  | .request r => ∀ F, h.fabric = some F → r.Clean pq F h.disk
  | .shutdown now => ∀ F, h.fabric = some F → (Fabric.Request.flush now).Clean pq F h.disk
  | _ => True

/-- A crash comes behind the start of what is asked. -/
def Safe (pq : EntryQueue) (config : FabricConfig) (h : FabricHistory) (e : Event) : Prop :=
  h.Clean pq e.asked ∧ ∀ back kept, e.dies = some (back, kept) →
    back + h.disk.past.length ≤ (h.done pq config e.asked).2.past.length

def SafeRun (pq : EntryQueue) (config : FabricConfig) (h : FabricHistory) : List Event → Prop
  | [] => True
  | e :: events => h.Safe pq config e ∧ (h.step pq config e).SafeRun pq config events

variable {pq : EntryQueue} {config : FabricConfig} {h : FabricHistory} {w : StoreHistory}
  {e : Event} {events : List Event} {F : Fabric} {s : DurableStore} {d : Disk}

/-- The fabric is the one of a store whose history is known. -/
structure Mirrors (config : FabricConfig) (h : FabricHistory) (w : StoreHistory) : Prop where
  disk : w.disk = h.disk
  firm : h.disk.Firm
  inv : w.Inv (durableConfig config)
  rests : ∀ F, h.fabric = some F → F.Resting config h.disk ∧ F.store = w.store

/-- The epoch of the fabric that an event opens. -/
def opened (h : FabricHistory) (config : FabricConfig) (e : Event) : Option Epoch :=
  match e.asked, e.dies with
  | .openAt i, none => (Fabric.openAt config i h.disk).1.toOption.map Fabric.epoch
  | _, _ => none

/-- The history of the store goes on with the fabric. -/
structure Follows (pq : EntryQueue) (config : FabricConfig) (h : FabricHistory) (w : StoreHistory)
    (e : Event) (steps : List Step) : Prop where
  safe : w.SafeRun (durableConfig config) steps
  mirrors : (h.step pq config e).Mirrors config (w.run (durableConfig config) steps)
  recorded : StoreHistory.recorded steps ≤ e.signals
  opened : (h.opened config e).toList.Sublist (w.epochs (durableConfig config) steps)

section Doing

variable {F' : Fabric} {d' : Disk} {b k m n : Nat} {s₀ : DurableStore} {d₀ : Disk}
  {i : Incarnation}

/-- Something is done to the fabric that is open. -/
theorem Mirrors.does (hm : h.Mirrors config w) (hmax : 0 < config.ledgerLineageCapacity)
    (hfabric : h.fabric = some F) (hgoes : F.Goes h.disk F' d' n b)
    (hrests : F'.Resting config d') :
    ∃ steps, w.SafeRun (durableConfig config) steps ∧
      Mirrors config ⟨some F', d'⟩ (w.run (durableConfig config) steps) ∧
        StoreHistory.recorded steps ≤ n := by
  obtain ⟨s, s', ops, hstore, hafter, hcourse, hcount⟩ := hgoes
  have hheld : w.store = some s := (hm.rests F hfabric).2.symm.trans hstore
  rw [← hm.disk] at hcourse
  obtain ⟨hsafe, hstored, hdisk, hinv, hfirm⟩ :=
    StoreHistory.course_done hmax hm.inv (hm.disk ▸ hm.firm) hheld hcourse
  refine ⟨ops.map .op, hsafe, ⟨hdisk, hfirm, hinv, fun F₁ hF₁ => ?_⟩, ?_⟩
  · cases hF₁
    exact ⟨hrests, hafter.trans hstored.symm⟩
  · rw [StoreHistory.recorded_course]
    exact hcount.1

/-- The machine dies while something is done to the fabric that is open. -/
theorem Mirrors.dies (hm : h.Mirrors config w) (hmax : 0 < config.ledgerLineageCapacity)
    (hfabric : h.fabric = some F) (hgoes : F.Goes h.disk F' d' n b)
    (hk : k + h.disk.past.length ≤ d'.past.length) :
    ∃ steps, w.SafeRun (durableConfig config) steps ∧
      Mirrors config ⟨none, (d'.back k).crash m⟩ (w.run (durableConfig config) steps) ∧
        StoreHistory.recorded steps ≤ n := by
  obtain ⟨s, s', ops, hstore, -, hcourse, hcount⟩ := hgoes
  have hheld : w.store = some s := (hm.rests F hfabric).2.symm.trans hstore
  rw [← hm.disk] at hcourse hk
  obtain ⟨front, o, _, _, _, j, htorn, hsafe, -, hdisk, hfirm⟩ :=
    StoreHistory.course_dies (n := m) hmax hm.inv (hm.disk ▸ hm.firm) hheld hcourse hk
  refine ⟨_, hsafe, ⟨hdisk, hfirm, hm.inv.run hmax hsafe, fun _ hF => by cases hF⟩, ?_⟩
  rw [StoreHistory.recorded_dying]
  exact htorn.recorded.trans hcount.1

/-- The machine dies while the store is opened. -/
theorem Mirrors.torn (hm : h.Mirrors config w) (hmax : 0 < config.ledgerLineageCapacity)
    (hopen : DurableStore.openAt (durableConfig config) h.disk = (.ok s₀, d₀))
    (hk : k + h.disk.past.length ≤ d₀.past.length) :
    ∃ steps, w.SafeRun (durableConfig config) steps ∧
      Mirrors config ⟨none, (d₀.back k).crash m⟩ (w.run (durableConfig config) steps) ∧
        StoreHistory.Quiet steps := by
  rw [← hm.disk] at hopen hk
  obtain ⟨hsafe, -, hdisk, hfirm⟩ :=
    StoreHistory.openAt_dies (n := m) hm.inv (hm.disk ▸ hm.firm) hopen hk
  exact ⟨[.crashOpen k m], hsafe, ⟨hdisk, hfirm, hm.inv.run hmax hsafe, fun _ hF => by cases hF⟩,
    rfl, by simp [Step.still]⟩

/-- The machine dies while nothing is done, as if an open had just been begun. -/
theorem Mirrors.gone (hm : h.Mirrors config w) (hmax : 0 < config.ledgerLineageCapacity) :
    ∃ steps, w.SafeRun (durableConfig config) steps ∧
      Mirrors config ⟨none, h.disk.crash m⟩ (w.run (durableConfig config) steps) ∧
        StoreHistory.Quiet steps := by
  obtain ⟨s₀, d₀, hopen, hfaults⟩ := hm.inv.opens
  rw [hm.disk] at hopen hfaults
  obtain ⟨k, hlength, hbefore⟩ := StoreHistory.later_openAt hm.firm hfaults hopen
  obtain ⟨steps, hsafe, hmirrors, hquiet⟩ := hm.torn (k := k) (m := m) hmax hopen (by omega)
  rw [hbefore] at hmirrors
  exact ⟨steps, hsafe, hmirrors, hquiet⟩

/-- The store is opened, and the history goes on from there. -/
theorem Mirrors.opens (hm : h.Mirrors config w) (hmax : 0 < config.ledgerLineageCapacity)
    (hopen : DurableStore.openAt (durableConfig config) h.disk = (.ok s₀, d₀)) :
    w.step (durableConfig config) .openAt = w.goOn s₀ d₀ ∧
      (w.goOn s₀ d₀).Inv (durableConfig config) ∧ d₀.Firm ∧ h.disk.Later d₀ ∧
        h.disk.faults = [] := by
  obtain ⟨-, -, -, hfaults⟩ := hm.inv.opens
  rw [hm.disk] at hfaults
  have hstep : w.step (durableConfig config) .openAt = w.goOn s₀ d₀ :=
    StoreHistory.step_openAt (hm.disk ▸ hopen)
  have hlater := StoreHistory.later_openAt hm.firm hfaults hopen
  refine ⟨hstep, ?_, ?_, hlater, hfaults⟩
  · rw [← hstep]
    exact hm.inv.step hmax trivial
  · exact StoreHistory.firm_openAt (k := 0) hm.firm hfaults hopen
      ((Nat.zero_add _).trans_le hlater.length_le)

/-- A fabric is opened, or what comes behind the open of its store fails. -/
theorem Mirrors.boots (hm : h.Mirrors config w) (hdurable : config.durable = true)
    (hmax : 0 < config.ledgerLineageCapacity) :
    ∃ steps, Follows pq config h w ⟨.openAt i, none⟩ steps ∧ StoreHistory.Quiet steps := by
  obtain ⟨s₀, d₀, hopen, -⟩ := hm.inv.opens
  rw [hm.disk] at hopen
  obtain ⟨hstep, hinv₀, hfirm₀, -, hfaults⟩ := hm.opens hmax hopen
  obtain ⟨ops, s', hcourse, hcount, hall⟩ := (Fabric.openAt_boots (i := i) hdurable hopen).course
  obtain ⟨hsafe, hstored, hdisk, hinv, hfirm⟩ :=
    StoreHistory.course_done hmax hinv₀ hfirm₀ rfl hcourse
  have hquiet : StoreHistory.Quiet (ops.map .op) :=
    StoreHistory.quiet_course (Nat.le_zero.mp hcount.1) (Nat.le_zero.mp hcount.2)
  refine ⟨.openAt :: ops.map .op, ⟨⟨trivial, by rwa [hstep]⟩, ?_, ?_, ?_⟩, hquiet.opened⟩
  · show Mirrors config ⟨(Fabric.openAt config i h.disk).1.toOption,
      (Fabric.openAt config i h.disk).2⟩ ((w.step (durableConfig config) .openAt).run
        (durableConfig config) (ops.map .op))
    rw [hstep]
    refine ⟨hdisk, hfirm, hinv, fun F hF => ?_⟩
    rcases hopened : Fabric.openAt config i h.disk with ⟨r, d'⟩
    rw [hopened] at hF hall
    cases r with
    | error st => cases hF
    | ok F₁ =>
      cases hF
      exact ⟨Fabric.openAt_resting hdurable hfaults hopened, (hall F rfl).1.trans hstored.symm⟩
  · exact hquiet.opened.1.le
  · show (((Fabric.openAt config i h.disk).1.toOption.map Fabric.epoch).toList).Sublist
      ([] ++ (w.step (durableConfig config) .openAt).epochs (durableConfig config) (ops.map .op))
    rw [hstep, List.nil_append]
    cases hr : (Fabric.openAt config i h.disk).1 with
    | error st => exact List.nil_sublist _
    | ok F =>
      rw [(hall F hr).2 (w.goOn s₀ d₀) (durableConfig config) rfl rfl]
      exact List.Sublist.refl _

/-- The machine dies while a fabric is opened. -/
theorem Mirrors.boots_dies (hm : h.Mirrors config w) (hdurable : config.durable = true)
    (hmax : 0 < config.ledgerLineageCapacity)
    (hk : k + h.disk.past.length ≤ (Fabric.openAt config i h.disk).2.past.length) :
    ∃ steps, w.SafeRun (durableConfig config) steps ∧
      Mirrors config ⟨none, ((Fabric.openAt config i h.disk).2.back k).crash m⟩
        (w.run (durableConfig config) steps) ∧ StoreHistory.Quiet steps := by
  obtain ⟨s₀, d₀, hopen, -⟩ := hm.inv.opens
  rw [hm.disk] at hopen
  obtain ⟨hstep, hinv₀, hfirm₀, -, -⟩ := hm.opens hmax hopen
  obtain ⟨ops, s', hcourse, hcount, -⟩ := (Fabric.openAt_boots (i := i) hdurable hopen).course
  generalize (Fabric.openAt config i h.disk).2 = d' at hcourse hk ⊢
  by_cases hlate : k + d₀.past.length ≤ d'.past.length
  · obtain ⟨front, o, _, _, _, j, htorn, hsafe, -, hdisk, hfirm⟩ :=
      StoreHistory.course_dies (n := m) hmax hinv₀ hfirm₀ rfl hcourse hlate
    have hquiet := StoreHistory.quiet_dying (n := m) htorn (Nat.le_zero.mp hcount.1)
      (Nat.le_zero.mp hcount.2)
    generalize StoreHistory.dying front o j m = steps at hsafe hdisk hquiet
    have hrun : w.run (durableConfig config) (.openAt :: steps) =
        (w.goOn s₀ d₀).run (durableConfig config) steps := by
      rw [← hstep]
      rfl
    refine ⟨.openAt :: steps, ⟨trivial, by rwa [hstep]⟩, ?_, hquiet.opened⟩
    rw [hrun]
    exact ⟨hdisk, hfirm, hinv₀.run hmax hsafe, fun _ hF => by cases hF⟩
  · have hlater := hcourse.later hmax (hinv₀.ahead rfl).kept
    rw [hlater.before (by omega)]
    exact hm.torn hmax hopen (by omega)

end Doing

/-! ## Runs -/

/-- What is asked and does not open: nothing, where no fabric is open, or a course of its store. -/
theorem done_cases {asked : Asked} (dies : Option (Nat × Nat))
    (hmax : 0 < config.ledgerLineageCapacity)
    (hrests : ∀ F, h.fabric = some F → F.Resting config h.disk) (hclean : h.Clean pq asked)
    (hno : ∀ i, asked ≠ .openAt i) :
    h.fabric = none ∧ h.done pq config asked = (none, h.disk) ∨
      ∃ F F' d' m, h.fabric = some F ∧ h.done pq config asked = (some F', d') ∧
        F.Goes h.disk F' d' (Event.signals ⟨asked, dies⟩) m ∧
          (asked.flushes = false → m ≤ 1) ∧ F'.Resting config d' := by
  cases hfabric : h.fabric with
  | none =>
    refine .inl ⟨rfl, ?_⟩
    unfold done
    rw [hfabric]
    cases asked with
    | openAt i => exact absurd rfl (hno i)
    | request r => rfl
    | recover => rfl
    | shutdown now => rfl
  | some F =>
    have hrest := hrests F hfabric
    obtain ⟨s, hstore, -⟩ := hrest.store
    refine .inr ?_
    unfold done
    rw [hfabric]
    cases asked with
    | openAt i => exact absurd rfl (hno i)
    | request r =>
      have hclean := hclean F hfabric
      obtain ⟨m, hgoes, hone⟩ := Fabric.request_goes hrest hclean
      exact ⟨F, _, _, m, rfl, rfl, hgoes, hone, hrest.step hmax hclean⟩
    | recover source origin originGeneration residual authority now =>
      have hrecovered : F.Recovered
        (F.recover source origin originGeneration residual authority now).2 := Fabric.recovered
      refine ⟨F, _, _, 0, rfl, rfl, .idle hstore hrecovered.store, fun _ => Nat.zero_le 1, ?_⟩
      refine ⟨hrecovered.config.trans hrest.same, ?_, ?_, fun key hkey => ?_⟩
      · rw [hrecovered.store]
        exact hrest.store
      · rw [hrecovered.topology]
        exact hrest.topology
      · exact hrest.ledger key ((hrecovered.keys key).mp hkey)
    | shutdown now =>
      dsimp only
      split
      · exact ⟨F, F, h.disk, 0, rfl, rfl, .idle hstore rfl, fun _ => Nat.zero_le 1, hrest⟩
      · have hbegun : ({ F with shuttingDown := true } : Fabric).Resting config h.disk :=
          hrest.of_same rfl rfl rfl rfl
        obtain ⟨m, hflushes⟩ := @Fabric.flushLocked_goes config _ _ now hbegun (hclean F hfabric)
        have hrested := @Resting.flushLocked config _ _ _ _ _ now hbegun hmax (hclean F hfabric) rfl
        refine ⟨F, _, _, m, rfl, rfl, hflushes.of_same rfl, (fun hno => by cases hno),
          hrested.same, hrested.store, hrested.topology, fun key hkey => ?_⟩
        exact absurd hkey (AList.notMem_empty key)

theorem Mirrors.follows (hm : h.Mirrors config w) (hdurable : config.durable = true)
    (hmax : 0 < config.ledgerLineageCapacity) (hsafe : h.Safe pq config e) :
    ∃ steps, Follows pq config h w e steps := by
  obtain ⟨asked, dies⟩ := e
  obtain ⟨hclean, hlate⟩ := hsafe
  have hquiet : ∀ steps, (∀ i, asked ≠ .openAt i) ∨ dies ≠ none →
      (h.opened config ⟨asked, dies⟩).toList.Sublist (w.epochs (durableConfig config) steps) := by
    intro steps hno
    have hnone : h.opened config ⟨asked, dies⟩ = none := by
      unfold FabricHistory.opened
      split
      case h_1 i hasked hdies => exact (hno.elim (fun h => h i hasked) fun h => h hdies).elim
      case h_2 => rfl
    rw [hnone]
    exact List.nil_sublist _
  by_cases hopens : ∃ i, asked = .openAt i
  · obtain ⟨i, rfl⟩ := hopens
    rcases dies with _ | ⟨k, m⟩
    · obtain ⟨steps, hfollows, -⟩ := hm.boots (i := i) hdurable hmax
      exact ⟨steps, hfollows⟩
    · obtain ⟨steps, hsafe, hmirrors, hcount⟩ :=
        hm.boots_dies (m := m) hdurable hmax (hlate k m rfl)
      exact ⟨steps, hsafe, hmirrors, hcount.1.le, hquiet steps (.inr (by simp))⟩
  · have hno : ∀ i, asked ≠ .openAt i := fun i hi => hopens ⟨i, hi⟩
    rcases done_cases dies hmax (fun F hF => (hm.rests F hF).1) hclean hno with
      ⟨hnone, hdone⟩ | ⟨F, F', d', b, hfabric, hdone, hgoes, -, hrests⟩
    · rcases dies with _ | ⟨k, m⟩
      · refine ⟨[], trivial, ?_, Nat.zero_le _, hquiet [] (.inl hno)⟩
        have hsame : h.step pq config ⟨asked, none⟩ = h := by
          unfold FabricHistory.step
          dsimp only
          rw [hdone]
          exact congrArg (FabricHistory.mk · h.disk) hnone.symm
        rw [hsame]
        exact hm
      · have hzero := hlate k m rfl
        rw [hdone] at hzero
        obtain rfl : k = 0 := by
          dsimp only at hzero
          omega
        obtain ⟨steps, hsafe, hmirrors, hcount⟩ := hm.gone (m := m) hmax
        refine ⟨steps, hsafe, ?_, hcount.1.trans_le (Nat.zero_le _), hquiet steps (.inl hno)⟩
        unfold FabricHistory.step
        dsimp only
        rw [hdone]
        exact hmirrors
    · rcases dies with _ | ⟨k, m⟩
      · obtain ⟨steps, hsafe, hmirrors, hcount⟩ := hm.does hmax hfabric hgoes hrests
        refine ⟨steps, hsafe, ?_, hcount, hquiet steps (.inl hno)⟩
        unfold FabricHistory.step
        dsimp only
        rw [hdone]
        exact hmirrors
      · have hback := hlate k m rfl
        rw [hdone] at hback
        obtain ⟨steps, hsafe, hmirrors, hcount⟩ := hm.dies (m := m) hmax hfabric hgoes hback
        refine ⟨steps, hsafe, ?_, hcount, hquiet steps (.inl hno)⟩
        unfold FabricHistory.step
        dsimp only
        rw [hdone]
        exact hmirrors

/-- The signals of the events. -/
def signals (events : List Event) : Nat := (events.map Event.signals).sum

/-- The epochs of the fabrics that are opened along the way. -/
def epochs (pq : EntryQueue) (config : FabricConfig) (h : FabricHistory) : List Event → List Epoch
  | [] => []
  | e :: events =>
    (h.opened config e).toList ++ (h.step pq config e).epochs pq config events

theorem Mirrors.run (hm : h.Mirrors config w) (hdurable : config.durable = true)
    (hmax : 0 < config.ledgerLineageCapacity) (hsafe : h.SafeRun pq config events) :
    ∃ steps, w.SafeRun (durableConfig config) steps ∧
      (h.run pq config events).Mirrors config (w.run (durableConfig config) steps) ∧
      StoreHistory.recorded steps ≤ signals events ∧
        (h.epochs pq config events).Sublist (w.epochs (durableConfig config) steps) := by
  induction events generalizing h w with
  | nil => exact ⟨[], trivial, hm, Nat.le_refl _, List.Sublist.refl _⟩
  | cons e events ih =>
    obtain ⟨steps, hfollows⟩ := hm.follows hdurable hmax hsafe.1
    obtain ⟨later, hlater, hend, hcount, hepochs⟩ := ih hfollows.mirrors hsafe.2
    refine ⟨steps ++ later, hfollows.safe.append hlater, ?_, ?_, ?_⟩
    · rw [StoreHistory.run_append]
      exact hend
    · rw [StoreHistory.recorded_append]
      exact Nat.add_le_add hfollows.recorded hcount
    · rw [StoreHistory.epochs_append]
      exact hfollows.opened.append hepochs

section Start

variable {F : Fabric} {d d' : Disk} {i : Incarnation}

/-- A fabric that was just opened, and the history of its store up to there. -/
theorem mirrors_start (hdurable : config.durable = true) (hmax : 0 < config.ledgerLineageCapacity)
    (hfaults : d.faults = []) (hsynced : d.bytes.length ≤ d.synced)
    (hopen : Fabric.openAt config i d = (.ok F, d')) :
    ∃ s₀ d₀ steps, DurableStore.openAt (durableConfig config) d = (.ok s₀, d₀) ∧
      (StoreHistory.start s₀ d₀).SafeRun (durableConfig config) steps ∧
      Mirrors config ⟨some F, d'⟩ ((StoreHistory.start s₀ d₀).run (durableConfig config) steps) ∧
        (StoreHistory.start s₀ d₀).epochs (durableConfig config) steps = [F.epoch] := by
  obtain ⟨s₀, d₀, s, hstore₀, -⟩ := Fabric.openAt_restores hdurable hopen
  have hboots : Boots i s₀ d₀ (Fabric.openAt config i d) := Fabric.openAt_boots hdurable hstore₀
  have hinv : (StoreHistory.start s₀ d₀).Inv (durableConfig config) :=
    StoreHistory.inv_start hfaults hsynced hstore₀
  have hkept₀ : Kept (durableConfig config) s₀ d₀ := .opened hfaults hstore₀
  have hrests : F.Resting config d' := Fabric.openAt_resting hdurable hfaults hopen
  obtain ⟨ops, s', hcourse, -, hall⟩ := hboots.course
  rw [hopen] at hboots hcourse hall
  obtain ⟨hstored, hepochs⟩ := hall F rfl
  obtain ⟨hsafe, hafter, hdisk⟩ :
      (StoreHistory.start s₀ d₀).SafeRun (durableConfig config) (ops.map .op) ∧
        ((StoreHistory.start s₀ d₀).run (durableConfig config) (ops.map .op)).store = some s' ∧
        ((StoreHistory.start s₀ d₀).run (durableConfig config) (ops.map .op)).disk = d' :=
    StoreHistory.course hcourse rfl rfl
  -- the epoch is synced, with the header in front of it
  have hfirm : d'.Firm := by
    cases hboots with
    | opened hepoch hok hboot =>
      have hkept₁ := hkept₀.call (c := .establishEpoch kNoTick) hmax trivial hepoch
      have hlong := long_of_checkHeader hkept₁.live.holds.stored.header
      rcases DurableStore.establishEpoch_rises hepoch with ⟨-, -, hwhole⟩ | ⟨hno, -⟩
      · exact (Fabric.course_call (c := .recordBoot i kNoTick) trivial hboot).firm hmax hkept₁
          ⟨hlong.trans hwhole, hlong⟩
      · rw [hno] at hok
        cases hok
  refine ⟨s₀, d₀, ops.map .op, hstore₀, hsafe, ⟨hdisk, hfirm, hinv.run hmax hsafe, ?_⟩,
    hepochs _ _ rfl rfl⟩
  intro F₁ hF₁
  cases hF₁
  exact ⟨hrests, hstored.trans hafter.symm⟩

end Start

/-- Whatever a fabric is asked, and wherever in it the machine dies: what is done to the directory
is a safe run of its store, and the store is opened again with a state that is no older than the
last one that was settled. -/
theorem runs_store (pq : EntryQueue) (config : FabricConfig) (hdurable : config.durable = true)
    (hmax : 0 < config.ledgerLineageCapacity) (i : Incarnation) (d d₀ : Disk) (F : Fabric)
    (hfaults : d.faults = []) (hsynced : d.bytes.length ≤ d.synced)
    (hopen : Fabric.openAt config i d = (.ok F, d₀)) (events : List Event)
    (hsafe : (FabricHistory.mk (some F) d₀).SafeRun pq config events) :
    let h := (FabricHistory.mk (some F) d₀).run pq config events
    ∃ s₁ d₁ steps, DurableStore.openAt (durableConfig config) d = (.ok s₁, d₁) ∧
      (StoreHistory.start s₁ d₁).SafeRun (durableConfig config) steps ∧
      let w := (StoreHistory.start s₁ d₁).run (durableConfig config) steps
      w.disk = h.disk ∧ (∀ F', h.fabric = some F' → F'.store = w.store) ∧
        ∃ s' d', DurableStore.openAt (durableConfig config) h.disk = (.ok s', d') ∧
          ∃ k, w.settled ≤ k ∧ w.states[k]? = some s'.durable := by
  obtain ⟨s₁, d₁, booted, hstore, hbooted, hm, -⟩ :=
    mirrors_start hdurable hmax hfaults hsynced hopen
  obtain ⟨steps, hsteps, hmirrors, -⟩ := hm.run hdurable hmax hsafe
  rw [← StoreHistory.run_append] at hmirrors
  refine ⟨s₁, d₁, booted ++ steps, hstore, hbooted.append hsteps, hmirrors.disk,
    fun F' hF' => (hmirrors.rests F' hF').2, ?_⟩
  have hreopens := hmirrors.inv.reopens
  rw [hmirrors.disk] at hreopens
  exact hreopens

/-- A call that the machine dies in, a record of it torn, and an open that it dies in too. -/
def tornCall : List Event :=
  [⟨.request (.markRevalidationRequired ⟨7⟩ 0), some (1, 200)⟩,
    ⟨.openAt { boot := { lo := 2 }, seq := 1 }, some (1, 0)⟩,
    ⟨.openAt { boot := { lo := 3 }, seq := 1 }, none⟩]

/-- Whether the crashes come behind the start of what is asked. -/
def late (pq : EntryQueue) (config : FabricConfig) (h : FabricHistory) (e : Event) : Bool :=
  match e.dies with
  | none => true
  | some (back, _) =>
    decide (back + h.disk.past.length ≤ (h.done pq config e.asked).2.past.length)

theorem safe_of_late (hclean : h.Clean pq e.asked) (hlate : h.late pq config e = true) :
    h.Safe pq config e := by
  refine ⟨hclean, fun back kept hdies => ?_⟩
  unfold late at hlate
  rw [hdies] at hlate
  exact of_decide_eq_true hlate

def firstOpen : Result Fabric × Disk :=
  Fabric.openAt { durable := true } { boot := { lo := 1 }, seq := 1 } {}

set_option maxRecDepth 1000 in
theorem tornCall_safe {F : Fabric} {d₀ : Disk} (hopen : firstOpen = (.ok F, d₀)) :
    (FabricHistory.mk (some F) d₀).SafeRun .scan { durable := true } tornCall := by
  have hlates : firstOpen.1.toOption.map (fun F =>
      let h : FabricHistory := ⟨some F, firstOpen.2⟩
      let run := fun n => h.run .scan { durable := true } (tornCall.take n)
      tornCall.zipIdx.all fun e => (run e.2).late .scan { durable := true } e.1) = some true := by
    decide +kernel
  rw [hopen] at hlates
  have hall := Option.some.inj hlates
  dsimp only at hall
  simp only [tornCall, List.zipIdx, List.all_cons, List.all_nil, Bool.and_eq_true] at hall
  obtain ⟨hfirst, hsecond, hthird, -⟩ := hall
  exact ⟨safe_of_late (fun _ _ => trivial) hfirst, safe_of_late trivial hsecond,
    safe_of_late trivial hthird, trivial⟩

theorem tornCall_runs : ∃ F d₀, firstOpen = (.ok F, d₀) ∧
    let h := (FabricHistory.mk (some F) d₀).run .scan { durable := true } tornCall
    ∃ s₁ d₁ steps, DurableStore.openAt (durableConfig { durable := true }) {} = (.ok s₁, d₁) ∧
      (StoreHistory.start s₁ d₁).SafeRun (durableConfig { durable := true }) steps ∧
      let w := (StoreHistory.start s₁ d₁).run (durableConfig { durable := true }) steps
      w.disk = h.disk ∧ (∀ F', h.fabric = some F' → F'.store = w.store) ∧
        ∃ s' d', DurableStore.openAt (durableConfig { durable := true }) h.disk = (.ok s', d') ∧
          ∃ k, w.settled ≤ k ∧ w.states[k]? = some s'.durable := by
  have hok : firstOpen.1.toOption.isSome = true := by decide +kernel
  rcases hopen : firstOpen with ⟨r, d₀⟩
  rw [hopen] at hok
  cases r with
  | error st => cases hok
  | ok F =>
    exact ⟨F, d₀, rfl, runs_store .scan { durable := true } rfl (by decide) _ {} d₀ F rfl
      (Nat.le_refl 0) hopen tornCall (tornCall_safe hopen)⟩

/-- The epochs of the fabrics that are opened rise, however often the machine dies in between. -/
theorem opened_rise (pq : EntryQueue) (config : FabricConfig) (hdurable : config.durable = true)
    (hmax : 0 < config.ledgerLineageCapacity) (i : Incarnation) (d d₀ : Disk) (F : Fabric)
    (hfaults : d.faults = []) (hsynced : d.bytes.length ≤ d.synced)
    (hopen : Fabric.openAt config i d = (.ok F, d₀)) (events : List Event)
    (hsafe : (FabricHistory.mk (some F) d₀).SafeRun pq config events) :
    (F.epoch :: (FabricHistory.mk (some F) d₀).epochs pq config events).Pairwise
      fun e e' => e.value < e'.value := by
  obtain ⟨s₁, d₁, booted, hstore, hbooted, hm, hfirst⟩ :=
    mirrors_start hdurable hmax hfaults hsynced hopen
  obtain ⟨steps, hsteps, -, -, hsub⟩ := hm.run hdurable hmax hsafe
  have hfrom : (StoreHistory.start s₁ d₁).Always (StoreHistory.From 0) :=
    fun _ _ _ _ => UInt64.zero_le
  have hrise := (StoreHistory.epochs_rise hmax (StoreHistory.inv_start hfaults hsynced hstore) hfrom
    (hbooted.append hsteps)).1
  rw [StoreHistory.epochs_append, hfirst] at hrise
  exact hrise.sublist (hsub.cons_cons F.epoch)

set_option maxRecDepth 1000 in
theorem tornCall_rises : ∃ F d₀, firstOpen = (.ok F, d₀) ∧
    F.epoch :: (FabricHistory.mk (some F) d₀).epochs .scan { durable := true } tornCall =
      [⟨1⟩, ⟨3⟩] ∧
    (F.epoch :: (FabricHistory.mk (some F) d₀).epochs .scan { durable := true }
      tornCall).Pairwise fun e e' => e.value < e'.value := by
  have hsome : firstOpen.1.toOption.map (fun F => F.epoch ::
      (FabricHistory.mk (some F) firstOpen.2).epochs .scan { durable := true } tornCall) =
        some [⟨1⟩, ⟨3⟩] := by
    decide +kernel
  rcases hopen : firstOpen with ⟨r, d₀⟩
  rw [hopen] at hsome
  cases r with
  | error st => cases hsome
  | ok F =>
    exact ⟨F, d₀, rfl, Option.some.inj hsome, opened_rise .scan { durable := true } rfl (by decide)
      _ {} d₀ F rfl (Nat.le_refl 0) hopen tornCall (tornCall_safe hopen)⟩

end FabricHistory

end Backpressure
