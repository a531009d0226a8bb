import Backpressure.Runtime.Survival

/-!
# Calls that the machine dies in

What a host sets with a call is in one record of the store, and a footprint is in several. A call
that the machine dies in has been made as a whole or not at all, and of a flush a part is there. The
next fabric has what was left.
-/

namespace Backpressure

open DurableStore (found)

namespace Fabric

variable {config : FabricConfig} {F : Fabric} {d d' : Disk} {i : Incarnation}

/-- The fabric has what is set in its store. -/
structure Shows (F : Fabric) (u : Settings) : Prop where
  store : ∃ s, F.store = some s ∧ s.durable.settings = u
  policy : F.policy = u.policy
  fences : F.fences.fences = u.fences.map (Fence.rebind F.epoch)
  revalidation : F.revalidation = u.revalidation

/-- A new fabric has what an open of its directory finds. -/
theorem openAt_shows (hdurable : config.durable = true) (hopen : openAt config i d = (.ok F, d')) :
    ∃ u, found (durableConfig config) d = some u ∧ F.Shows u := by
  obtain ⟨s₀, d₀, s, hstore₀, hfenced, -⟩ := openAt_restores hdurable hopen
  have hboots : Boots i s₀ d₀ (openAt config i d) := openAt_boots hdurable hstore₀
  rw [hopen] at hboots
  cases hboots with
  | @opened _ _ s₁ _ d₁ _ _ hepoch _ hboot hstore _ _ _ hpolicy hrevalidation =>
    cases hfenced.store.symm.trans hstore
    have hfirst : s₁.state.settings = s₀.state.settings := by
      have hkeeps : s₀.Keeps RecoveredState.settings (s₀.establishEpoch kNoTick d₀) :=
        DurableStore.Call.keepsSettings (c := .establishEpoch kNoTick) rfl
      rw [hepoch] at hkeeps
      exact hkeeps
    have hsecond : s.state.settings = s₁.state.settings := by
      have hkeeps : s₁.Keeps RecoveredState.settings (s₁.recordBoot i kNoTick d₁) :=
        DurableStore.Call.keepsSettings (c := .recordBoot i kNoTick) rfl
      rw [hboot] at hkeeps
      exact hkeeps
    refine ⟨s.state.settings, ?_, ⟨s, hstore, rfl⟩, hpolicy, hfenced.fences, hrevalidation⟩
    unfold found
    rw [hstore₀, hsecond, hfirst]
    rfl

end Fabric

namespace FabricHistory

open Fabric (durableConfig)
open DurableStore (Course)

variable {pq : EntryQueue} {config : FabricConfig} {h : FabricHistory} {w : StoreHistory}
  {asked : Asked} {F : Fabric} {u : Settings} {k n : Nat}

/-! ## What leaves alone what is set -/

/-- What is found is known of every state that can still come back. -/
theorem Mirrors.known (hm : h.Mirrors config w) (hfresh : w.Fresh (durableConfig config)) :
    ∃ u w', found (durableConfig config) h.disk = some u ∧ h.Mirrors config w' ∧
      w'.Always fun v => v.settings = u := by
  have hinv := hm.inv
  cases hstore : w.store with
  | some s =>
    have hall := hfresh.settings hstore
    exact ⟨_, w, hm.disk ▸ hinv.found hall, hm, hall⟩
  | none =>
    rcases hinv with ⟨s, hsome, -⟩ | ⟨-, hfaults, hheader, hsynced, s₀, d₀, hopen, -⟩
    · cases hstore.symm.trans hsome
    -- the history begins anew with the one state that the directory has
    have hall : (StoreHistory.mk none w.disk [s₀.durable] 0).Always
        fun v => v.settings = s₀.durable.settings := by
      intro i v _ hv
      exact @StoreHistory.states_snoc (fun v => v.settings = s₀.durable.settings) [] s₀.durable rfl
        i v (fun hold => absurd hold (Nat.not_lt_zero i)) hv
    have hanew : (StoreHistory.mk none w.disk [s₀.durable] 0).Inv (durableConfig config) :=
      .inr ⟨rfl, hfaults, hheader, hsynced, s₀, d₀, hopen, 0, Nat.le_refl 0, rfl⟩
    refine ⟨_, StoreHistory.mk none w.disk [s₀.durable] 0, hm.disk ▸ hanew.found hall,
      ⟨hm.disk, hm.firm, hanew, fun F hF => ?_⟩, hall⟩
    exact ⟨(hm.rests F hF).1, (hm.rests F hF).2.trans hstore⟩

/-- Behind steps that leave it alone, the same is found. -/
theorem found_quiet {h' : FabricHistory} {steps : List StoreHistory.Step}
    (hm : h.Mirrors config w) (hmax : 0 < config.ledgerLineageCapacity)
    (hall : w.Always fun v => v.settings = u) (hsafe : w.SafeRun (durableConfig config) steps)
    (hm' : h'.Mirrors config (w.run (durableConfig config) steps))
    (hquiet : StoreHistory.Quiet steps) : found (durableConfig config) h'.disk = some u := by
  rw [← hm'.disk]
  exact hm'.inv.found (hall.quiet hmax hm.inv hsafe hquiet)

/-! ## Courses -/

/-- What takes the store of the fabric that is open through a course. -/
theorem done_course (hmax : 0 < config.ledgerLineageCapacity)
    (hrests : ∀ F, h.fabric = some F → F.Resting config h.disk) (hclean : h.Clean pq asked)
    (hno : ∀ i, asked ≠ .openAt i) (hfabric : h.fabric = some F) :
    ∃ s s' ops, F.store = some s ∧ Course ops s h.disk s' (h.done pq config asked).2 ∧
      (asked.flushes = false → DurableStore.changes ops ≤ 1) ∧
        (asked.flushes = true → ∀ o ∈ ops, o.grows = true) := by
  have hrest := hrests F hfabric
  cases hflushes : asked.flushes with
  | false =>
    rcases done_cases none hmax hrests hclean hno with
      ⟨hnone, -⟩ | ⟨F₁, F', d', m, hfabric₁, hdone, hgoes, hone, -⟩
    · cases hnone.symm.trans hfabric
    cases hfabric.symm.trans hfabric₁
    obtain ⟨s, s', ops, hstore, -, hcourse, hwithin⟩ := hgoes
    rw [hdone]
    exact ⟨s, s', ops, hstore, hcourse, fun _ => hwithin.2.trans (hone hflushes), by simp⟩
  | true =>
    unfold done
    rw [hfabric]
    cases asked with
    | openAt i => exact absurd rfl (hno i)
    | recover => cases hflushes
    | request r =>
      cases r with
      | flush now =>
        obtain ⟨s, s', ops, hstore, -, hcourse, -, hgrows⟩ :=
          @Fabric.course_flushLocked config _ _ now hrest (hclean F hfabric)
        exact ⟨s, s', ops, hstore, hcourse, by simp, fun _ => hgrows⟩
      | _ => cases hflushes
    | shutdown now =>
      dsimp only
      split
      · obtain ⟨s, hstore, -⟩ := hrest.store
        exact ⟨s, s, [], hstore, .nil, by simp, by simp⟩
      · have hbegun : ({ F with shuttingDown := true } : Fabric).Resting config h.disk :=
          hrest.of_same rfl rfl rfl rfl
        obtain ⟨s, s', ops, hstore, -, hcourse, -, hgrows⟩ :=
          @Fabric.course_flushLocked config _ _ now hbegun (hclean F hfabric)
        exact ⟨s, s', ops, hstore, hcourse, by simp, fun _ => hgrows⟩

/-- What was set before, what is set when all is done, and what the machine that dies leaves. -/
structure Leaves (asked : Asked) (before after left : Settings) : Prop where
  whole : asked.flushes = false → left = before ∨ left = after
  part : asked.flushes = true → before.Grows left ∧ left.Grows after

theorem Mirrors.leaves (hm : h.Mirrors config w) (hfresh : w.Fresh (durableConfig config))
    (hdurable : config.durable = true) (hmax : 0 < config.ledgerLineageCapacity)
    (hsafe : h.Safe pq config ⟨asked, some (k, n)⟩) :
    ∃ before after left, found (durableConfig config) h.disk = some before ∧
      found (durableConfig config) (h.done pq config asked).2 = some after ∧
      found (durableConfig config) (((h.done pq config asked).2.back k).crash n) = some left ∧
        Leaves asked before after left := by
  obtain ⟨hclean, hlate⟩ := hsafe
  have hk := hlate k n rfl
  obtain ⟨u, w', hbefore, hm', hall⟩ := hm.known hfresh
  by_cases hopens : ∃ i, asked = .openAt i
  · obtain ⟨i, rfl⟩ := hopens
    obtain ⟨steps, hfollows, hquiet⟩ := @Mirrors.boots pq config h w' i hm' hdurable hmax
    obtain ⟨torn, hsafe, hdies, hquiet'⟩ := hm'.boots_dies (i := i) (m := n) hdurable hmax hk
    have hafter := found_quiet hm' hmax hall hfollows.safe hfollows.mirrors hquiet
    exact ⟨u, u, u, hbefore, hafter, found_quiet hm' hmax hall hsafe hdies hquiet',
      fun _ => .inl rfl, fun hno => by cases hno⟩
  have hno : ∀ i, asked ≠ .openAt i := fun i hi => hopens ⟨i, hi⟩
  have hrests : ∀ F, h.fabric = some F → F.Resting config h.disk := fun F hF => (hm.rests F hF).1
  cases hfabric : h.fabric with
  | none =>
    rcases done_cases none hmax hrests hclean hno with ⟨-, hdone⟩ | ⟨F, -, -, -, hsome, -⟩
    · obtain ⟨steps, hsafe, hdies, hquiet⟩ := hm'.gone (m := n) hmax
      rw [hdone] at hk ⊢
      obtain rfl : k = 0 := by
        dsimp only at hk
        omega
      exact ⟨u, u, u, hbefore, hbefore, found_quiet hm' hmax hall hsafe hdies hquiet,
        fun _ => .inl rfl, fun _ => ⟨.refl, .refl⟩⟩
    · cases hfabric.symm.trans hsome
  | some F =>
    obtain ⟨s, s', ops, hstore, hcourse, hone, hgrows⟩ :=
      done_course hmax hrests hclean hno hfabric
    generalize (h.done pq config asked).2 = d' at hcourse hk ⊢
    have hheld : w.store = some s := (hm.rests F hfabric).2.symm.trans hstore
    have hfirm := hm.firm
    rw [← hm.disk] at hcourse hk hfirm ⊢
    obtain ⟨hdone, hafter, hdisk, hinv, -⟩ :=
      StoreHistory.course_done hmax hm.inv hfirm hheld hcourse
    obtain ⟨front, o, rest, s₁, d₁, j, htorn, left, hleft, hwhich⟩ :=
      StoreHistory.course_torn (n := n) hmax hm.inv hfirm hfresh hheld hcourse hk
    have hend := hinv.found ((hfresh.run hmax hm.inv hdone).settings hafter)
    rw [hdisk] at hend
    exact ⟨_, _, left, hm.inv.found (hfresh.settings hheld), hend, hleft,
      fun hflushes => htorn.whole (hone hflushes) hwhich,
      fun hflushes => htorn.between (hgrows hflushes) hwhich⟩

/-- Whatever was done before: a call that the machine dies in has been made as a whole or not at
all, and of a flush a part is there. The next fabric has what was left. -/
theorem torn_whole (pq : EntryQueue) (config : FabricConfig) (hdurable : config.durable = true)
    (hmax : 0 < config.ledgerLineageCapacity) (i : Incarnation) (d d₀ : Disk) (F : Fabric)
    (hfaults : d.faults = []) (hsynced : d.bytes.length ≤ d.synced)
    (hopen : Fabric.openAt config i d = (.ok F, d₀)) (events : List Event)
    (hsafe : (FabricHistory.mk (some F) d₀).SafeRun pq config events) (asked : Asked)
    (back kept : Nat)
    (hlast : ((FabricHistory.mk (some F) d₀).run pq config events).Safe pq config
      ⟨asked, some (back, kept)⟩) :
    let h := (FabricHistory.mk (some F) d₀).run pq config events
    let torn := (h.step pq config ⟨asked, some (back, kept)⟩).disk
    ∃ before after left, found (durableConfig config) h.disk = some before ∧
      found (durableConfig config) (h.done pq config asked).2 = some after ∧
      found (durableConfig config) torn = some left ∧ Leaves asked before after left ∧
        ∀ i' F' d', Fabric.openAt config i' torn = (.ok F', d') → F'.Shows left := by
  obtain ⟨s₁, d₁, booted, hstore, hbooted, hm, -⟩ :=
    mirrors_start hdurable hmax hfaults hsynced hopen
  obtain ⟨steps, hsteps, hmirrors, -⟩ := hm.run hdurable hmax hsafe
  have hstart : (StoreHistory.start s₁ d₁).Inv (durableConfig config) :=
    StoreHistory.inv_start hfaults hsynced hstore
  have hfresh := StoreHistory.fresh_start.run hmax hstart (hbooted.append hsteps)
  rw [StoreHistory.run_append] at hfresh
  obtain ⟨before, after, left, hbefore, hafter, hleft, hleaves⟩ :=
    hmirrors.leaves hfresh hdurable hmax hlast
  refine ⟨before, after, left, hbefore, hafter, hleft, hleaves, fun i' F' d' hagain => ?_⟩
  obtain ⟨u, hfound, hshows⟩ := Fabric.openAt_shows hdurable hagain
  obtain rfl : left = u := Option.some.inj (hleft.symm.trans hfound)
  exact hshows

def marked : List Event := [⟨.request (.markRevalidationRequired ⟨7⟩ 0), none⟩]

/-- A mark that the machine dies in, its record torn. -/
def tornMark : Event := ⟨.request (.markRevalidationRequired ⟨8⟩ 0), some (1, 280)⟩

def waiting (config : FabricConfig) (d : Disk) : Option (List ResourceId) :=
  (found (durableConfig config) d).map Settings.revalidation

set_option maxRecDepth 1000 in
theorem tornMark_whole : ∃ F d₀, firstOpen = (.ok F, d₀) ∧
    let h := (FabricHistory.mk (some F) d₀).run .scan { durable := true } marked
    let torn := (h.step .scan { durable := true } tornMark).disk
    waiting { durable := true } (h.done .scan { durable := true } tornMark.asked).2 =
        some [⟨7⟩, ⟨8⟩] ∧ waiting { durable := true } torn = some [⟨7⟩] ∧
      ∃ before after left, found (durableConfig { durable := true }) h.disk = some before ∧
        found (durableConfig { durable := true })
          (h.done .scan { durable := true } tornMark.asked).2 = some after ∧
        found (durableConfig { durable := true }) torn = some left ∧
        Leaves tornMark.asked before after left ∧ ∀ i' F' d',
          Fabric.openAt { durable := true } i' torn = (.ok F', d') → F'.Shows left := by
  have hruns : firstOpen.1.toOption.map (fun F =>
      let h := (FabricHistory.mk (some F) firstOpen.2).run .scan { durable := true } marked
      (waiting { durable := true } (h.done .scan { durable := true } tornMark.asked).2,
        waiting { durable := true } (h.step .scan { durable := true } tornMark).disk,
        h.late .scan { durable := true } tornMark)) =
      some (some [⟨7⟩, ⟨8⟩], some [⟨7⟩], true) := by
    decide +kernel
  rcases hopen : firstOpen with ⟨r, d₀⟩
  rw [hopen] at hruns
  cases r with
  | error st => cases hruns
  | ok F =>
    obtain ⟨hafter, hrest⟩ := Prod.mk.inj (Option.some.inj hruns)
    obtain ⟨hleft, hlate⟩ := Prod.mk.inj hrest
    have hmarked : (FabricHistory.mk (some F) d₀).SafeRun .scan { durable := true } marked :=
      ⟨⟨fun _ _ => trivial, fun _ _ hdies => by cases hdies⟩, trivial⟩
    exact ⟨F, d₀, rfl, hafter, hleft, torn_whole .scan { durable := true } rfl (by decide) _ {} d₀ F
      rfl (Nat.le_refl 0) hopen marked hmarked tornMark.asked 1 280
      (safe_of_late (e := tornMark) (fun _ _ => trivial) hlate)⟩

end FabricHistory

end Backpressure
