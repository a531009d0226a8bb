import Mathlib.Algebra.Order.BigOperators.Group.List
import Backpressure.Runtime.Fabric
import Backpressure.Store.Lasting
import Backpressure.Store.Refinement

/-!
# The history of the policies

Fabrics that are opened one after the other on one state directory, the policies they install, and
crashes in between. The policy in force is all that is remembered: generations rise along the
history as long as every policy that is installed has the identity of the one in force or an
identity that was never installed.
-/

namespace Backpressure

/-- The policy in force. -/
def Durable.livePolicy (v : Durable) : Option PropagationPolicy :=
  if v.hasPolicy then some v.policy else none

/-- The policies that were installed on a state directory, the oldest first. -/
structure PolicyHistory where
  fabric : Option Fabric := none
  disk : Disk
  installed : List PropagationPolicy := []

namespace PolicyHistory

inductive Call
  /-- A fabric that is still there is destroyed first. -/
  | openAt (config : FabricConfig) (incarnation : Incarnation)
  | installPolicy (policy : PropagationPolicy) (now : Tick)
  | crash (kept : Nat)

/-- One call, whatever comes of it. A policy is installed when it is accepted and is now in force,
and another one was before. -/
def step (w : PolicyHistory) : Call → PolicyHistory
  | .openAt config incarnation =>
    match Fabric.openAt { config with durable := true } incarnation w.disk with
    | (.ok F, disk) => { w with fabric := some F, disk }
    | (.error _, disk) => { w with fabric := none, disk }
  | .installPolicy policy now =>
    match w.fabric with
    | none => w
    | some F =>
      let (st, F', disk) := F.installPolicy policy now w.disk
      { fabric := some F'
        disk
        installed :=
          if st.ok ∧ F.policy ≠ some policy ∧ F'.policy = some policy then w.installed ++ [policy]
          else w.installed }
  | .crash kept => { w with fabric := none, disk := w.disk.crash kept }

def run (w : PolicyHistory) (calls : List Call) : PolicyHistory := calls.foldl step w

/-- Policies of one identity were installed in the order of their generations. -/
def Rising (installed : List PropagationPolicy) : Prop :=
  installed.Pairwise fun p q => p.id = q.id → p.generation.value < q.generation.value

/-- The limits of an open admit the records of the file. A policy has the identity of the one in
force or one that was never installed, and no failed append has left a part of a record in the
file. -/
def Clean (w : PolicyHistory) : Call → Prop
  | .openAt config _ => ∀ rs tail, Stored w.disk.bytes rs tail → Admits config.journalLimits {} rs
  | .installPolicy policy _ => ∀ F, w.fabric = some F →
      ((∃ live, F.policy = some live ∧ live.id = policy.id) ∨ ∀ p ∈ w.installed, p.id ≠ policy.id) ∧
      ∀ s, F.store = some s → w.disk.bytes.length = s.journal.fileBytes
  | .crash _ => True

/-- Every call of the run is clean where it is made. -/
def CleanRun (w : PolicyHistory) : List Call → Prop
  | [] => True
  | call :: calls => w.Clean call ∧ (w.step call).CleanRun calls

/-- No installed policy is ahead of the one in force, if it has the identity of that. -/
def Behind (installed : List PropagationPolicy) (live : Option PropagationPolicy) : Prop :=
  ∀ p ∈ installed, ∃ q, live = some q ∧ (p.id = q.id → p.generation.value ≤ q.generation.value)

/-- A policy is not refused for its generation. -/
def Advances (live : Option PropagationPolicy) (p : PropagationPolicy) : Prop :=
  ∀ q, live = some q → ¬(q.id = p.id ∧ p.generation.value ≤ q.generation.value)

/-- Whatever configuration replays the records, no installed policy is ahead of what they bring
back. -/
def Recalled (installed : List PropagationPolicy) (rs : List JournalRecord) : Prop :=
  ∀ config v, Replays config rs v → Behind installed v.livePolicy

/-- A fabric that is open on the disk. -/
structure Serves (F : Fabric) (d : Disk) (installed : List PropagationPolicy) (s : DurableStore) :
    Prop where
  store : F.store = some s
  bytes : kMaxJournalPayload ≤ s.config.journalLimits.maxRecordBytes
  holds : ∃ tail, s.journal.Holds d.bytes tail
  policy : F.policy = s.durable.livePolicy
  behind : Behind installed F.policy

/-- What holds after clean calls. -/
structure Inv (w : PolicyHistory) : Prop where
  rising : Rising w.installed
  lasts : w.installed ≠ [] → w.disk.Lasts (Recalled w.installed)
  serves : ∀ F, w.fabric = some F → ∃ s, Serves F w.disk w.installed s

variable {installed : List PropagationPolicy} {live : Option PropagationPolicy}
  {p : PropagationPolicy} {rs : List JournalRecord} {r : JournalRecord} {w : PolicyHistory}

/-- A record that says an event does it at the end of every replay. -/
theorem Recalled.snoc {ev : DurableEvent} (hsaid : ∀ config, r.Says config ev)
    (hpossible : ∀ config v, ev.Possible config v)
    (hev : ∀ config v, Replays config rs v → Behind installed (ev.apply config v).livePolicy) :
    Recalled installed (rs ++ [r]) := by
  intro config v hreplays
  obtain ⟨v', hfront⟩ := hreplays.front
  rw [hreplays.unique (hfront.snoc (hsaid config) (hpossible config v'))]
  exact hev config v' hfront

theorem Recalled.nil : Recalled [] rs := fun _ _ _ _ hp => absurd hp List.not_mem_nil

/-- What an installed policy that goes into force has before it. -/
theorem Behind.install (h : Behind installed live)
    (hnew : Advances live p)
    (hclean : (∃ q, live = some q ∧ q.id = p.id) ∨ ∀ q ∈ installed, q.id ≠ p.id) :
    ∀ q ∈ installed, q.id = p.id → q.generation.value < p.generation.value := by
  intro q hq hid
  obtain ⟨l, hlive, hle⟩ := h q hq
  rcases hclean with ⟨l', hlive', hid'⟩ | hfresh
  · rw [hlive] at hlive'
    cases hlive'
    have hahead : ¬p.generation.value ≤ l.generation.value := fun hno => hnew l hlive ⟨hid', hno⟩
    exact UInt64.lt_of_le_of_lt (hle (hid.trans hid'.symm)) (UInt64.not_le.mp hahead)
  · exact absurd hid (hfresh q hq)

/-- A record that leaves the policy alone. -/
theorem Recalled.kept {ev : DurableEvent} (h : Recalled installed rs) (hsaid : ∀ config, r.Says config ev)
    (hpossible : ∀ config v, ev.Possible config v)
    (hev : ∀ config v, (ev.apply config v).livePolicy = v.livePolicy) : Recalled installed (rs ++ [r]) := by
  refine .snoc hsaid hpossible fun config v hreplays => ?_
  rw [hev]
  exact h config v hreplays

/-! ## An open -/

theorem openAt_serves {config : FabricConfig} {i : Incarnation} {d d' : Disk} {r : Result Fabric}
    (h : Fabric.openAt config i d = (r, d')) (hdurable : config.durable = true)
    (hlasts : installed ≠ [] → d.Lasts (Recalled installed))
    (hadmits : ∀ rs tail, Stored d.bytes rs tail → Admits config.journalLimits {} rs) :
    (installed ≠ [] → d'.Lasts (Recalled installed)) ∧ ∀ F, r = .ok F → ∃ s, Serves F d' installed s := by
  unfold Fabric.openAt at h
  dsimp only at h
  rw [if_pos hdurable] at h
  split at h
  case h_1 st d₁ hopen =>
    cases h
    exact ⟨fun hne => DurableStore.lasts_openAt hopen (hlasts hne) hadmits, fun F hF => by cases hF⟩
  case h_2 s₀ d₀ hopen =>
    have hlasts₀ := fun hne => DurableStore.lasts_openAt hopen (hlasts hne) hadmits
    obtain ⟨hrefined, -, hlive, -⟩ := DurableStore.openAt_ok hopen
    have hrecalled₀ : Recalled installed s₀.journal.records := by
      by_cases hne : installed = []
      · rw [hne]
        exact .nil
      · exact (hlasts₀ hne).records hlive.holds.stored
    have hbehind := hrecalled₀ _ _ hrefined.replays
    rcases hepoch : s₀.establishEpoch kNoTick d₀ with ⟨st₁, s₁, d₁⟩
    rw [hepoch] at h
    dsimp only at h
    obtain ⟨next, bytes₁, htake₁, hlength₁, htried₁⟩ := DurableStore.establishEpoch_tried hepoch
    obtain ⟨hkeep₁, hholds₁, hwhole₁⟩ := htried₁.lasts hlive.holds (by decide) htake₁ hlength₁ fun _ => rfl
    have hlasts₁ := fun hne => hkeep₁ _ (hlasts₀ hne) fun r htype _ _ =>
      hrecalled₀.kept (fun _ => DurableStore.says_epoch htype) (fun _ _ => trivial) fun _ _ => rfl
    split at h
    · cases h
      exact ⟨hlasts₁, fun F hF => by cases hF⟩
    case isFalse hok₁ =>
      have hok₁ : st₁.ok = true := by simpa using hok₁
      obtain ⟨hheld₁, -, r₁, htype₁, -, -, hrecords₁⟩ := hwhole₁ hok₁
      have hrecalled₁ : Recalled installed s₁.journal.records := by
        rw [hrecords₁]
        exact hrecalled₀.kept (fun _ => DurableStore.says_epoch htype₁) (fun _ _ => trivial) fun _ _ => rfl
      rcases hboot : s₁.recordBoot i kNoTick d₁ with ⟨st₂, s₂, d₂⟩
      rw [hboot] at h
      dsimp only at h
      obtain ⟨bytes₂, htake₂, hlength₂, htried₂⟩ := DurableStore.recordBoot_tried hboot
      obtain ⟨hkeep₂, hholds₂, -⟩ := htried₂.lasts hheld₁ (by decide) htake₂ hlength₂ fun _ => rfl
      have hlasts₂ := fun hne => hkeep₂ _ (hlasts₁ hne) fun r htype _ hpayload =>
        hrecalled₁.kept (fun _ => DurableStore.says_boot htype (hpayload ▸ htake₂)) (fun _ _ => trivial)
          fun _ _ => rfl
      split at h
      · cases h
        exact ⟨hlasts₂, fun F hF => by cases hF⟩
      case isFalse hok₂ =>
        have hok₂ : st₂.ok = true := by simpa using hok₂
        obtain ⟨hno₁, -⟩ | ⟨-, j₁, hs₁⟩ := (htried₁.state ⟨bytes₁, htake₁⟩).symm
        · rw [hok₁] at hno₁
          cases hno₁
        obtain ⟨hno₂, -⟩ | ⟨-, j₂, hs₂⟩ := (htried₂.state ⟨bytes₂, htake₂⟩).symm
        · rw [hok₂] at hno₂
          cases hno₂
        have hlive₂ : s₂.durable.livePolicy = s₀.durable.livePolicy := by
          rw [hs₂, hs₁]
          rfl
        have hconfig₂ : s₂.config = s₀.config := by
          rw [hs₂, hs₁]
        cases h
        refine ⟨hlasts₂, fun F hF => ⟨s₂, ?_⟩⟩
        unfold Fabric.restore at hF
        split at hF
        · cases hF
        · cases hF
          refine ⟨rfl, ?_, hholds₂, ?_, ?_⟩
          · rw [hconfig₂, hrefined.same]
            exact hrefined.bytes
          · rfl
          · show Behind installed s₂.durable.livePolicy
            rw [hlive₂]
            exact hbehind

/-! ## An install -/

/-- What putting a policy into the state of a store does. -/
abbrev putPolicy (p : PropagationPolicy) (s : DurableStore) : DurableStore :=
  { s with state := { s.state with policy := p, hasPolicy := true } }

theorem persistPolicy_tried {s s' : DurableStore} {d d' : Disk} {st : Status} {now : Tick}
    (hvalid : p.validate.ok = true) (hnew : Advances s.durable.livePolicy p)
    (h : s.persistPolicy p now d = (st, s', d')) :
    DurableStore.Tried s .policy now s.state.epoch
      (serializePolicy p s.config.journalLimits.maxRecordBytes) (putPolicy p) d st s' d' := by
  unfold DurableStore.persistPolicy DurableStore.withEpoch at h
  rw [hvalid, Bool.not_true, if_neg (by decide)] at h
  split at h
  · cases h
    exact .inl ⟨rfl, rfl, rfl⟩
  · split at h
    case isTrue hsame =>
      obtain ⟨hhas, hid, hle⟩ := hsame
      have hlive : s.durable.livePolicy = some s.state.policy := if_pos hhas
      exact absurd ⟨hid, hle⟩ (hnew _ hlive)
    case isFalse => exact .inr (DurableStore.write_cases h)

/-- What an install can do: leave everything as it is, or try to write a policy that the one in
force lets through. -/
theorem installPolicy_cases {F F' : Fabric} {s : DurableStore} {d d' : Disk} {st : Status} {now : Tick}
    (hstore : F.store = some s) (hpolicy : F.policy = s.durable.livePolicy)
    (h : F.installPolicy p now d = (st, F', d')) :
    F' = F ∧ d' = d ∨
      p.validate.ok = true ∧ Advances F.policy p ∧ ∃ st₁ s₁,
        DurableStore.Tried s .policy now s.state.epoch
          (serializePolicy p s.config.journalLimits.maxRecordBytes) (putPolicy p) d st₁ s₁ d' ∧
        F'.store = some s₁ ∧
        (st₁.ok = false ∧ F'.policy = F.policy ∨ st₁.ok = true ∧ st.ok = true ∧ F'.policy = some p) := by
  unfold Fabric.installPolicy at h
  split at h
  · cases h
    exact .inl ⟨rfl, rfl⟩
  · split at h
    · cases h
      exact .inl ⟨rfl, rfl⟩
    case isFalse hvalid =>
      have hvalid : p.validate.ok = true := by simpa using hvalid
      have hinstall : Advances F.policy p → F.withStore (fun s d => s.persistPolicy p now d) d (fun F =>
          (.success, { F with policy := some p, policiesInstalled := F.policiesInstalled + 1 })) =
            (st, F', d') → ∃ st₁ s₁,
        DurableStore.Tried s .policy now s.state.epoch
          (serializePolicy p s.config.journalLimits.maxRecordBytes) (putPolicy p) d st₁ s₁ d' ∧
        F'.store = some s₁ ∧
        (st₁.ok = false ∧ F'.policy = F.policy ∨ st₁.ok = true ∧ st.ok = true ∧ F'.policy = some p) := by
        intro hnew h
        unfold Fabric.withStore at h
        rw [hstore] at h
        dsimp only at h
        rcases hpersist : s.persistPolicy p now d with ⟨st₁, s₁, d₁⟩
        rw [hpersist] at h
        dsimp only at h
        have htried := persistPolicy_tried hvalid (hpolicy ▸ hnew) hpersist
        cases hok : st₁.ok with
        | false =>
          rw [hok, Bool.not_false, if_pos rfl] at h
          cases h
          exact ⟨st, s₁, htried, rfl, .inl ⟨hok, rfl⟩⟩
        | true =>
          rw [hok, Bool.not_true, if_neg (by decide)] at h
          cases h
          exact ⟨st₁, s₁, htried, rfl, .inr ⟨hok, rfl, rfl⟩⟩
      dsimp only at h
      split at h
      case h_1 hnone =>
        have hnew : Advances F.policy p := by
          intro q hq
          rw [hnone] at hq
          cases hq
        exact .inr ⟨hvalid, hnew, hinstall hnew h⟩
      case h_2 live hlive =>
        split at h
        · split at h
          · cases h
            exact .inl ⟨rfl, rfl⟩
          · cases h
            exact .inl ⟨rfl, rfl⟩
        case isFalse hahead =>
          have hnew : Advances F.policy p := by
            intro q hq
            rw [hlive] at hq
            cases hq
            exact hahead
          exact .inr ⟨hvalid, hnew, hinstall hnew h⟩

/-! ## The run -/

theorem Behind.snoc (h : ∀ q ∈ installed, q.id = p.id → q.generation.value < p.generation.value) :
    Behind (installed ++ [p]) (some p) := by
  intro q hq
  refine ⟨p, rfl, fun hid => ?_⟩
  rcases List.mem_append.mp hq with hq | hq
  · exact UInt64.le_of_lt (h q hq hid)
  · rw [List.mem_singleton.mp hq]
    exact UInt64.le_refl _

theorem Inv.install (h : w.Inv) {F : Fabric} {now : Tick} (hfabric : w.fabric = some F)
    (hclean : w.Clean (.installPolicy p now)) : (w.step (.installPolicy p now)).Inv := by
  obtain ⟨s, hserves⟩ := h.serves F hfabric
  obtain ⟨tail, hholds⟩ := hserves.holds
  obtain ⟨hidentity, hwhole⟩ := hclean F hfabric
  have hlength := hholds.length
  rw [hwhole s hserves.store] at hlength
  have htail : tail = [] := List.length_eq_zero_iff.mp (by omega)
  rw [htail] at hholds
  rcases hinstall : F.installPolicy p now w.disk with ⟨st, F', d'⟩
  unfold step
  rw [hfabric]
  dsimp only
  rw [hinstall]
  dsimp only
  rcases installPolicy_cases hserves.store hserves.policy hinstall with
    ⟨rfl, rfl⟩ | ⟨hvalid, hnew, st₁, s₁, htried, hstore, hend⟩
  · rw [if_neg fun hin => hin.2.1 hin.2.2]
    exact ⟨h.rising, h.lasts, fun F₁ hF₁ => by
      cases hF₁
      exact ⟨s, hserves⟩⟩
  · have hless := hserves.behind.install hnew hidentity
    obtain ⟨bytes, hbytes, hwrite, -⟩ := policy_codec hvalid
    have hn : 117 ≤ s.config.journalLimits.maxRecordBytes := by
      have hmin := hserves.bytes
      unfold kMaxJournalPayload at hmin
      omega
    have htake : serializePolicy p s.config.journalLimits.maxRecordBytes = .ok bytes :=
      hwrite.take (le_min (by omega) (by rw [hbytes]; decide))
    obtain ⟨hkeep, hholds', hlast⟩ :=
      htried.lasts hholds (by decide) htake (by rw [hbytes]; decide) fun _ => rfl
    have hrecalled : ∀ installed' : List PropagationPolicy, Behind installed' (some p) →
        ∀ r : JournalRecord, r.type = .policy → r.payload = bytes →
          Recalled installed' (s.journal.records ++ [r]) := by
      intro installed' hbehind r htype hpayload
      refine .snoc (fun _ => DurableStore.says_policy hn htype (hpayload ▸ htake))
        (fun _ _ => hvalid) fun _ _ _ => ?_
      exact hbehind
    have hbehind : Behind w.installed (some p) := fun q hq =>
      ⟨p, rfl, fun hid => UInt64.le_of_lt (hless q hq hid)⟩
    have hlasts : w.installed ≠ [] → d'.Lasts (Recalled w.installed) := fun hne =>
      hkeep _ (h.lasts hne) fun r htype _ hpayload => hrecalled _ hbehind r htype hpayload
    rcases htried.state ⟨bytes, htake⟩ with ⟨hok, j, hs⟩ | ⟨hno, j, hs⟩
    · obtain ⟨hno, -⟩ | ⟨-, hst, hpolicy⟩ := hend
      · rw [hok] at hno
        cases hno
      have hother : F.policy ≠ some p := fun hsame => hnew p hsame ⟨rfl, UInt64.le_refl _⟩
      rw [if_pos ⟨hst, hother, hpolicy⟩]
      obtain ⟨hheld, hsynced, r, htype, -, hpayload, hrecords⟩ := hlast hok
      refine ⟨?_, fun _ => ?_, fun F₁ hF₁ => ⟨s₁, ?_⟩⟩
      · refine List.pairwise_append.mpr ⟨h.rising, List.pairwise_singleton _ _, fun q hq q' hq' => ?_⟩
        rw [List.mem_singleton.mp hq']
        exact hless q hq
      · have hall := hrecalled _ (Behind.snoc hless) r htype hpayload
        rw [← hrecords] at hall
        exact .settled hheld.stored hsynced hall
      · cases hF₁
        have hlive : s₁.durable.livePolicy = some p := by
          rw [hs]
          rfl
        refine ⟨hstore, ?_, ⟨[], hheld⟩, hpolicy.trans hlive.symm, ?_⟩
        · rw [hs]
          exact hserves.bytes
        · rw [hpolicy]
          exact Behind.snoc hless
    · obtain ⟨-, hpolicy⟩ | ⟨hok, -⟩ := hend
      · rw [if_neg fun hin => hin.2.1 (hpolicy ▸ hin.2.2)]
        refine ⟨h.rising, hlasts, fun F₁ hF₁ => ⟨s₁, ?_⟩⟩
        cases hF₁
        have hlive : s₁.durable.livePolicy = s.durable.livePolicy := by
          rw [hs]
          rfl
        refine ⟨hstore, ?_, hholds', ?_, ?_⟩
        · rw [hs]
          exact hserves.bytes
        · rw [hpolicy, hlive]
          exact hserves.policy
        · rw [hpolicy]
          exact hserves.behind
      · rw [hno] at hok
        cases hok

/-- One clean call keeps what holds. -/
theorem Inv.step {call : Call} (h : w.Inv) (hclean : w.Clean call) : (w.step call).Inv := by
  cases call with
  | openAt config incarnation =>
    unfold PolicyHistory.step
    dsimp only
    rcases hopen : Fabric.openAt { config with durable := true } incarnation w.disk with ⟨r, d'⟩
    obtain ⟨hlasts, hserves⟩ := openAt_serves hopen rfl h.lasts hclean
    cases r with
    | error st => exact ⟨h.rising, hlasts, fun F hF => by cases hF⟩
    | ok F =>
      refine ⟨h.rising, hlasts, fun F₁ hF₁ => ?_⟩
      cases hF₁
      exact hserves F rfl
  | installPolicy policy now =>
    cases hfabric : w.fabric with
    | none =>
      have hsame : w.step (.installPolicy policy now) = w := by
        unfold PolicyHistory.step
        rw [hfabric]
      rw [hsame]
      exact h
    | some F => exact h.install hfabric hclean
  | crash kept => exact ⟨h.rising, fun hne => (h.lasts hne).crash kept, fun F hF => by cases hF⟩

/-- Clean runs keep what holds. -/
theorem Inv.run {calls : List Call} (h : w.Inv) (hclean : w.CleanRun calls) : (w.run calls).Inv := by
  induction calls generalizing w with
  | nil => exact h
  | cons call calls ih => exact ih (h.step hclean.1) hclean.2

/-- In every clean run on a state directory, policies of one identity are installed in the order of
their generations. -/
theorem clean_run_rises (d : Disk) (calls : List Call)
    (hclean : ({ disk := d } : PolicyHistory).CleanRun calls) :
    Rising (({ disk := d } : PolicyHistory).run calls).installed := by
  have hstart : ({ disk := d } : PolicyHistory).Inv :=
    ⟨List.Pairwise.nil, fun hne => absurd rfl hne, fun F hF => by cases hF⟩
  exact (hstart.run hclean).rising

/-! ## Two policies -/

def firstBoot : Incarnation := { boot := ⟨1, 1⟩, pid := 1, index := 0, seq := 1 }

def policyAt (id generation : UInt64) : PropagationPolicy :=
  { id := ⟨id⟩, generation := ⟨generation⟩ }

/-- The identity in force, and the size of the file that the journal knows. -/
def standing (F : Fabric) : Option (PolicyId) × Option Nat :=
  (F.policy.map PropagationPolicy.id, F.store.map fun s => s.journal.fileBytes)

/-- An install whose identity is in force. -/
theorem clean_of_standing {now : Tick} {n : Nat} (h : w.fabric.map standing = some (some p.id, some n))
    (hn : w.disk.bytes.length = n) : w.Clean (.installPolicy p now) := by
  intro F hF
  rw [hF, Option.map_some, Option.some.injEq, standing, Prod.mk.injEq, Option.map_eq_some_iff,
    Option.map_eq_some_iff] at h
  obtain ⟨⟨live, hlive, hid⟩, s, hs, hbytes⟩ := h
  refine ⟨.inl ⟨live, hlive, hid⟩, fun s' hs' => ?_⟩
  rw [hs] at hs'
  cases hs'
  rw [hn, hbytes]

/-- A small file under limits that are not. -/
theorem clean_of_small {config : FabricConfig} {incarnation : Incarnation}
    (hbytes : w.disk.bytes.length ≤ config.journalLimits.maxRecordBytes)
    (hrecords : w.disk.bytes.length ≤ config.journalLimits.maxRecords) :
    w.Clean (.openAt config incarnation) := by
  intro rs tail hstored
  have hlength := hstored.length
  unfold imageBytes kRecordHeaderBytes at hlength
  refine ⟨fun r hr => ?_, ?_⟩
  · have hpart : r.payload.length ≤ payloadBytes rs := List.le_sum_of_mem (List.mem_map_of_mem hr)
    omega
  · show 0 + rs.length ≤ _
    omega

/-- A policy that is followed by its next generation. -/
theorem next_generation_rises : Rising (({ disk := {} } : PolicyHistory).run
    [.openAt {} firstBoot, .installPolicy (policyAt 1 5) 0, .installPolicy (policyAt 1 6) 0]).installed ∧
    (({ disk := {} } : PolicyHistory).run [.openAt {} firstBoot, .installPolicy (policyAt 1 5) 0,
      .installPolicy (policyAt 1 6) 0]).installed = [policyAt 1 5, policyAt 1 6] := by
  refine ⟨clean_run_rises {} _ ⟨?_, ?_, ?_, trivial⟩, by decide +kernel⟩
  · exact clean_of_small (by decide +kernel) (by decide +kernel)
  · intro F hF
    have hnone : (({ disk := {} } : PolicyHistory).step (.openAt {} firstBoot)).installed = [] := by
      decide +kernel
    rw [hnone]
    refine ⟨.inr fun q hq => absurd hq List.not_mem_nil, fun s hs => ?_⟩
    have hsizes : (({ disk := {} } : PolicyHistory).step (.openAt {} firstBoot)).fabric.map
        (fun F => (standing F).2) = some (some
          (({ disk := {} } : PolicyHistory).step (.openAt {} firstBoot)).disk.bytes.length) := by
      decide +kernel
    rw [hF, Option.map_some, Option.some.injEq, standing, hs] at hsizes
    exact (Option.some.inj hsizes).symm
  · exact clean_of_standing (n := _) (by decide +kernel) rfl

/-- A policy comes back with an older generation once another one was in force. -/
theorem regressed : ¬∀ (d : Disk) (calls : List Call),
    Rising (({ disk := d } : PolicyHistory).run calls).installed := by
  intro h
  have hrun := h {} [.openAt {} firstBoot, .installPolicy (policyAt 1 5) 0,
    .installPolicy (policyAt 2 1) 0, .installPolicy (policyAt 1 3) 0]
  have hinstalled : (({ disk := {} } : PolicyHistory).run [.openAt {} firstBoot,
      .installPolicy (policyAt 1 5) 0, .installPolicy (policyAt 2 1) 0,
      .installPolicy (policyAt 1 3) 0]).installed =
    [policyAt 1 5, policyAt 2 1, policyAt 1 3] := by
    decide +kernel
  rw [hinstalled] at hrun
  exact absurd hrun (by unfold Rising; decide)

end PolicyHistory

end Backpressure
