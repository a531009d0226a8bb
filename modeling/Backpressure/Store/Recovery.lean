import Backpressure.Store.Durable

/-!
# What a replay depends on

A replay reads only what a journal keeps of the state, so two stores that agree on that part are
taken through the same records alike. What a replay gives is sane: identities are distinct and
valid, and every list is within its capacity.
-/

namespace Backpressure

/-- Two decoders fail alike, or read alike and give related values. -/
def Alike {α β : Type} (R : α → β → Prop) (d : Decoder α) (e : Decoder β) : Prop :=
  ∀ r, (∃ st, d.run r = .error st ∧ e.run r = .error st) ∨
    ∃ a b r', d.run r = .ok (a, r') ∧ e.run r = .ok (b, r') ∧ R a b

namespace Alike

variable {α β γ δ : Type} {R : α → β → Prop} {S : γ → δ → Prop} {d : Decoder γ} {e : Decoder δ}
  {f : γ → Decoder α} {g : δ → Decoder β} {a : α} {b : β}

theorem pure (h : R a b) : Alike R (Pure.pure a) (Pure.pure b) := fun r => .inr ⟨a, b, r, rfl, rfl, h⟩

theorem bind (h : Alike S d e) (h' : ∀ x y, S x y → Alike R (f x) (g y)) :
    Alike R (d >>= f) (e >>= g) := by
  intro r
  rcases h r with ⟨st, hd, he⟩ | ⟨x, y, r', hd, he, hxy⟩
  · refine .inl ⟨st, ?_, ?_⟩
    · rw [StateT.run_bind, hd]
      rfl
    · rw [StateT.run_bind, he]
      rfl
  · rw [StateT.run_bind, StateT.run_bind, hd, he]
    exact h' x y hxy r'

theorem refl (d : Decoder γ) : Alike Eq d d := by
  intro r
  cases hd : d.run r with
  | error st => exact .inl ⟨st, rfl, rfl⟩
  | ok done => exact .inr ⟨done.1, done.1, done.2, rfl, rfl, rfl⟩

/-- The same step first. -/
theorem same {d : Decoder γ} {g : γ → Decoder β} (h : ∀ x, Alike R (f x) (g x)) :
    Alike R (d >>= f) (d >>= g) :=
  bind (refl d) fun x _ hxy => hxy ▸ h x

/-- A value that does not come from the reader. -/
theorem accept {x : Result γ} {g : γ → Decoder β} (h : ∀ c, x = .ok c → Alike R (f c) (g c)) :
    Alike R (ByteReader.accept x >>= f) (ByteReader.accept x >>= g) := by
  intro r
  cases x with
  | error st => exact .inl ⟨st, rfl, rfl⟩
  | ok c => exact h c rfl r

/-- A check between two reads. -/
theorem refuse {c : Prop} [Decidable c] {code : ErrorCode} {context : String} {detail : Nat}
    {d : Decoder α} {e : Decoder β} (h : ¬c → Alike R d e) :
    Alike R (ByteReader.refuse c code context detail >>= fun _ => d)
      (ByteReader.refuse c code context detail >>= fun _ => e) := by
  intro r
  by_cases hc : c
  · refine .inl ⟨.error code context detail, ?_, ?_⟩
    · rw [StateT.run_bind]
      show (if c then _ else _) >>= _ = _
      rw [if_pos hc]
      rfl
    · rw [StateT.run_bind]
      show (if c then _ else _) >>= _ = _
      rw [if_pos hc]
      rfl
  · have hrun : (ByteReader.refuse c code context detail).run r = .ok ((), r) := if_neg hc
    rw [StateT.run_bind, StateT.run_bind, hrun]
    exact h hc r

end Alike

/-! ## Sane states -/

/-- What every replay gives. -/
structure Durable.Sane (config : DurableConfig) (v : Durable) : Prop where
  booted : v.bootRecorded = true → v.boot = v.incarnation.boot
  unbooted : v.bootRecorded = false → v.boot = {} ∧ v.incarnation = {}
  policy : v.hasPolicy = true → v.policy.validate.ok = true
  noPolicy : v.hasPolicy = false → v.policy = {}
  unbound : v.hasTopologyBinding = false → v.topologyDigest = {} ∧ v.topologyGeneration = {}
  fenceIds : (v.fences.map Fence.id).Nodup
  fences : ∀ f ∈ v.fences, f.validate.ok = true
  fenceCount : v.fences.length ≤ kMaxFences
  lineages : v.lineages.Nodup
  lineageCount : 0 < config.maxLineages → v.lineages.length ≤ config.maxLineages
  required : v.revalidationRequired.Nodup
  requiredIds : ∀ resource ∈ v.revalidationRequired, resource.valid = true
  requiredCount : v.revalidationRequired.length ≤ config.maxFootprintEntries
  attempts : v.openAttempts.Nodup
  attemptIds : ∀ id ∈ v.openAttempts, id.valid = true

theorem nodup_snoc {α : Type} {l : List α} {a : α} (h : l.Nodup) (ha : a ∉ l) :
    (l ++ [a]).Nodup := by
  refine List.nodup_append.mpr ⟨h, List.pairwise_singleton _ a, fun x hx y hy => ?_⟩
  rw [List.mem_singleton.mp hy]
  rintro rfl
  exact ha hx

section Lists

variable {maxLineages maxEntries : Nat} {lineages : List Digest128} {lineage : Digest128}
  {resources : List ResourceId} {resource : ResourceId} {fences : List Fence} {f : Fence}

theorem nodup_remember (h : lineages.Nodup) : (remember maxLineages lineages lineage).Nodup := by
  unfold remember
  by_cases hmem : lineage ∈ lineages
  · rw [if_pos hmem]
    exact h
  · rw [if_neg hmem]
    split
    · exact nodup_snoc h.tail fun hin => hmem (List.mem_of_mem_tail hin)
    · exact nodup_snoc h hmem

theorem length_remember (hmax : 0 < maxLineages) (h : lineages.length ≤ maxLineages) :
    (remember maxLineages lineages lineage).length ≤ maxLineages := by
  unfold remember
  split
  · exact h
  · split
    · rw [List.length_append, List.length_tail, List.length_singleton]
      omega
    · rw [List.length_append, List.length_singleton]
      omega

theorem nodup_enlist (h : resources.Nodup) : (enlist maxEntries resources resource).Nodup := by
  unfold enlist
  by_cases hmem : resource ∈ resources
  · rw [if_pos hmem]
    exact h
  · rw [if_neg hmem]
    split
    · exact h
    · exact nodup_snoc h hmem

theorem length_enlist (h : resources.length ≤ maxEntries) :
    (enlist maxEntries resources resource).length ≤ maxEntries := by
  unfold enlist
  split
  · exact h
  · split
    · exact h
    · rw [List.length_append, List.length_singleton]
      omega

theorem mem_enlist {other : ResourceId} (h : other ∈ enlist maxEntries resources resource) :
    other ∈ resources ∨ other = resource := by
  unfold enlist at h
  split at h
  · exact .inl h
  · split at h
    · exact .inl h
    · exact (List.mem_append.mp h).imp_right List.mem_singleton.mp

theorem any_id {id : FenceId} :
    (fences.any fun existing => existing.id == id) = true ↔ id ∈ fences.map Fence.id := by
  rw [List.any_eq_true, List.mem_map]
  exact exists_congr fun g => and_congr_right fun _ => beq_iff_eq

/-- A fence takes the place of the one with its identity, or comes last. -/
theorem map_putFences : (putFences fences f).map Fence.id =
    if f.id ∈ fences.map Fence.id then fences.map Fence.id else fences.map Fence.id ++ [f.id] := by
  have hany := @any_id fences f.id
  unfold putFences
  by_cases hmem : f.id ∈ fences.map Fence.id
  · rw [if_pos (hany.mpr hmem), if_pos hmem]
    clear hany hmem
    induction fences with
    | nil => rfl
    | cons existing rest ih =>
      rw [List.replaceF]
      by_cases heq : existing.id = f.id
      · rw [if_pos heq]
        simp [heq]
      · rw [if_neg heq]
        dsimp only
        rw [List.map_cons, ih, List.map_cons]
  · rw [if_neg fun h => hmem (hany.mp h), if_neg hmem, List.map_append, List.map_singleton]

theorem mem_putFences {g : Fence} (h : g ∈ putFences fences f) : g ∈ fences ∨ g = f := by
  unfold putFences at h
  split at h
  · clear * - h
    induction fences with
    | nil => cases h
    | cons existing rest ih =>
      rw [List.replaceF] at h
      by_cases heq : existing.id = f.id
      · rw [if_pos heq] at h
        rcases List.mem_cons.mp h with hg | hg
        · exact .inr hg
        · exact .inl (List.mem_cons_of_mem _ hg)
      · rw [if_neg heq] at h
        rcases List.mem_cons.mp h with hg | hg
        · exact .inl (hg ▸ List.mem_cons_self)
        · exact (ih hg).imp_left (List.mem_cons_of_mem _)
  · exact (List.mem_append.mp h).imp_right List.mem_singleton.mp

end Lists

namespace Durable.Sane

variable {config : DurableConfig} {v : Durable}

theorem empty : Sane config {} := by
  constructor <;> simp

theorem putFence (h : Sane config v) {f : Fence} (hvalid : f.validate.ok = true)
    (hroom : (v.fences.any fun existing => existing.id == f.id) = true ∨
      v.fences.length < kMaxFences) : Sane config { v with fences := putFences v.fences f } :=
  { h with
    fenceIds := by
      rw [map_putFences]
      split
      · exact h.fenceIds
      case isFalse hnew => exact nodup_snoc h.fenceIds hnew
    fences := fun g hg => (mem_putFences hg).elim (h.fences g) fun heq => heq ▸ hvalid
    fenceCount := by
      have hlength : (putFences v.fences f).length = _ := (List.length_map Fence.id).symm
      have hcount := h.fenceCount
      show (putFences v.fences f).length ≤ kMaxFences
      rw [hlength, map_putFences]
      split
      · rw [List.length_map]
        exact hcount
      case isFalse hnew =>
        have hfew := hroom.resolve_left fun hany => hnew (any_id.mp hany)
        rw [List.length_append, List.length_map, List.length_singleton]
        exact hfew }

theorem removeFence (h : Sane config v) (id : FenceId) :
    Sane config { v with fences := v.fences.eraseP fun f => f.id == id } :=
  { h with
    fenceIds := h.fenceIds.sublist ((List.eraseP_sublist).map Fence.id)
    fences := fun g hg => h.fences g (List.mem_of_mem_eraseP hg)
    fenceCount := (List.eraseP_sublist.length_le).trans h.fenceCount }

theorem lineage (h : Sane config v) (lineage : Digest128) :
    Sane config { v with lineages := remember config.maxLineages v.lineages lineage } :=
  { h with
    lineages := nodup_remember h.lineages
    lineageCount := fun hmax => length_remember hmax (h.lineageCount hmax) }

theorem require (h : Sane config v) {resource : ResourceId} (hvalid : resource.valid = true) :
    Sane config { v with
      revalidationRequired :=
        enlist config.maxFootprintEntries v.revalidationRequired resource } :=
  { h with
    required := nodup_enlist h.required
    requiredIds := fun other hother =>
      (mem_enlist hother).elim (h.requiredIds other) fun heq => heq ▸ hvalid
    requiredCount := length_enlist h.requiredCount }

theorem release (h : Sane config v) (resource : ResourceId) :
    Sane config { v with revalidationRequired := v.revalidationRequired.erase resource } :=
  { h with
    required := h.required.erase resource
    requiredIds := fun other hother => h.requiredIds other (List.mem_of_mem_erase hother)
    requiredCount := (List.length_erase_le).trans h.requiredCount }

theorem beginAttempt (h : Sane config v) {id : AttemptId} (hvalid : id.valid = true)
    (hnew : id ∉ v.openAttempts) :
    Sane config { v with openAttempts := v.openAttempts ++ [id] } :=
  { h with
    attempts := nodup_snoc h.attempts hnew
    attemptIds := fun other hother => (List.mem_append.mp hother).elim (h.attemptIds other)
      fun heq => List.mem_singleton.mp heq ▸ hvalid }

theorem closeAttempt (h : Sane config v) (id : AttemptId) :
    Sane config { v with openAttempts := v.openAttempts.erase id } :=
  { h with
    attempts := h.attempts.erase id
    attemptIds := fun other hother => h.attemptIds other (List.mem_of_mem_erase hother) }

end Durable.Sane

/-! ## Replays in step -/

namespace DurableStore

/-- Two stores that keep the same, each with a journal of its own. -/
structure Twins (config : DurableConfig) (j₁ j₂ : Journal) (s₁ s₂ : DurableStore) : Prop where
  config₁ : s₁.config = config
  config₂ : s₂.config = config
  journal₁ : s₁.journal = j₁
  journal₂ : s₂.journal = j₂
  durable : s₁.durable = s₂.durable
  sane : s₁.durable.Sane config

variable {config : DurableConfig} {j₁ j₂ : Journal} {s₁ s₂ : DurableStore} {t₁ t₂ : RecoveredState}
  {r : JournalRecord}

/-- A change of both that keeps them alike. -/
theorem Twins.change (h : Twins config j₁ j₂ s₁ s₂) (f : Durable → Durable) {t₁ t₂ : DurableStore}
    (hconfig₁ : t₁.config = s₁.config) (hconfig₂ : t₂.config = s₂.config)
    (hjournal₁ : t₁.journal = s₁.journal) (hjournal₂ : t₂.journal = s₂.journal)
    (h₁ : t₁.durable = f s₁.durable) (h₂ : t₂.durable = f s₂.durable)
    (hsane : (f s₁.durable).Sane config) : Twins config j₁ j₂ t₁ t₂ where
  config₁ := hconfig₁.trans h.config₁
  config₂ := hconfig₂.trans h.config₂
  journal₁ := hjournal₁.trans h.journal₁
  journal₂ := hjournal₂.trans h.journal₂
  durable := by rw [h₁, h₂, h.durable]
  sane := h₁ ▸ hsane

/-- An identity that is read is valid. -/
theorem alike_readId {tag : IdTag} :
    Alike (fun a b : StrongId tag => a = b ∧ a.valid = true) readId readId := by
  refine Alike.same fun raw => ?_
  unfold StrongId.fromU64
  intro r
  by_cases hraw : raw = StrongId.kInvalid
  · rw [if_pos hraw]
    exact .inl ⟨_, rfl, rfl⟩
  · rw [if_neg hraw]
    refine .inr ⟨⟨raw⟩, ⟨raw⟩, r, rfl, rfl, rfl, ?_⟩
    simpa [StrongId.valid] using hraw

/-- A value that is checked before it is returned. -/
theorem alike_checked {α : Type} {a : α} {st : Status} {P : α → Prop} [Decidable (P a)] :
    Alike (fun x y => x = y ∧ P x) (ByteReader.accept (if P a then .ok a else .error st))
      (ByteReader.accept (if P a then .ok a else .error st)) := by
  intro r
  by_cases ha : P a
  · rw [if_pos ha]
    exact .inr ⟨a, a, r, rfl, rfl, rfl, ha⟩
  · rw [if_neg ha]
    exact .inl ⟨st, rfl, rfl⟩

theorem alike_decodePolicy :
    Alike (fun a b : PropagationPolicy => a = b ∧ a.validate.ok = true) decodePolicy decodePolicy := by
  unfold decodePolicy
  repeat refine Alike.same fun _ => ?_
  exact alike_checked

theorem alike_decodeFence :
    Alike (fun a b : Fence => a = b ∧ a.validate.ok = true) decodeFence decodeFence := by
  unfold decodeFence
  repeat refine Alike.same fun _ => ?_
  exact alike_checked

/-- Twins whose states are put in their places. -/
abbrev StateTwins (config : DurableConfig) (s₁ s₂ : DurableStore) (t₁ t₂ : RecoveredState) : Prop :=
  Twins config s₁.journal s₂.journal { s₁ with state := t₁ } { s₂ with state := t₂ }

theorem alike_putFence (h : Twins config s₁.journal s₂.journal s₁ s₂) {f : Fence}
    (hvalid : f.validate.ok = true) {context : String} :
    Alike (StateTwins config s₁ s₂) (ByteReader.accept (s₁.state.putFence f context))
      (ByteReader.accept (s₂.state.putFence f context)) := by
  have hfences : s₁.state.fences = s₂.state.fences := congrArg Durable.fences h.durable
  by_cases hroom : (s₁.state.fences.any fun existing => existing.id == f.id) = true ∨
      s₁.state.fences.length < kMaxFences
  · rw [putFence_ok hroom, putFence_ok (hfences ▸ hroom)]
    intro rest
    refine .inr ⟨_, _, rest, rfl, rfl, ?_⟩
    exact h.change (fun v => { v with fences := putFences v.fences f }) rfl rfl rfl rfl rfl rfl
      (h.sane.putFence hvalid hroom)
  · obtain ⟨hany, hfull⟩ := not_or.mp hroom
    unfold RecoveredState.putFence
    rw [if_neg hany, if_pos (not_lt.mp hfull), if_neg (hfences ▸ hany),
      if_pos (hfences ▸ not_lt.mp hfull), ← hfences]
    exact fun rest => .inl ⟨_, rfl, rfl⟩

theorem alike_readFootprint (h : StateTwins config s₁ s₂ t₁ t₂) (count : Nat) :
    Alike (StateTwins config s₁ s₂) (readFootprint config.maxFootprintEntries count t₁)
      (readFootprint config.maxFootprintEntries count t₂) := by
  induction count generalizing t₁ t₂ with
  | zero => exact Alike.pure h
  | succ count ih =>
    refine Alike.same fun rawSource => Alike.same fun rawResource => Alike.same fun source =>
      Alike.accept fun resource hresource => ih ?_
    have hvalid : resource.valid = true := by
      unfold StrongId.fromU64 at hresource
      split at hresource
      · cases hresource
      case isFalse hraw =>
        cases hresource
        simpa [StrongId.valid] using hraw
    have hlist : ∀ t : RecoveredState,
        (t.requireFootprint config.maxFootprintEntries resource).revalidationRequired =
          enlist config.maxFootprintEntries t.revalidationRequired resource := by
      intro t
      unfold RecoveredState.requireFootprint enlist
      split_ifs <;> rfl
    have hdurable : ∀ (s : DurableStore) (t : RecoveredState),
        { s with state := t.requireFootprint config.maxFootprintEntries resource }.durable =
          { { s with state := t }.durable with
            revalidationRequired :=
              enlist config.maxFootprintEntries t.revalidationRequired resource } := by
      intro s t
      rw [← hlist]
      unfold RecoveredState.requireFootprint durable
      split_ifs <;> rfl
    exact h.change (fun v => { v with
        revalidationRequired :=
          enlist config.maxFootprintEntries v.revalidationRequired resource })
      rfl rfl rfl rfl (hdurable s₁ t₁) (hdurable s₂ t₂) (h.sane.require hvalid)

theorem alike_readRevalidation (h : Twins config s₁.journal s₂.journal s₁ s₂) :
    Alike (StateTwins config s₁ s₂) (readRevalidation s₁.config.maxFootprintEntries s₁.state)
      (readRevalidation s₂.config.maxFootprintEntries s₂.state) := by
  have hmax₁ : s₁.config.maxFootprintEntries = config.maxFootprintEntries := by rw [h.config₁]
  have hmax₂ : s₂.config.maxFootprintEntries = config.maxFootprintEntries := by rw [h.config₂]
  have hrequired : s₁.state.revalidationRequired = s₂.state.revalidationRequired :=
    congrArg Durable.revalidationRequired h.durable
  rw [hmax₁, hmax₂]
  refine Alike.same fun op => ?_
  by_cases hop : op = kRevalidationRequest ∨ op = kRevalidationClear
  · rw [if_pos hop, if_pos hop]
    refine Alike.bind alike_readId fun resource resource' hresource => ?_
    obtain ⟨rfl, hvalid⟩ := hresource
    by_cases hclear : op = kRevalidationClear
    · rw [if_pos hclear, if_pos hclear]
      refine Alike.same fun _ => Alike.pure ?_
      exact h.change (fun v => { v with
          revalidationRequired := v.revalidationRequired.erase resource })
        rfl rfl rfl rfl rfl rfl (h.sane.release resource)
    · rw [if_neg hclear, if_neg hclear, ← hrequired]
      by_cases hmem : resource ∈ s₁.state.revalidationRequired
      · rw [if_pos hmem, if_pos hmem]
        exact Alike.same fun _ => Alike.pure h
      · rw [if_neg hmem, if_neg hmem]
        by_cases hfull : config.maxFootprintEntries ≤ s₁.state.revalidationRequired.length
        · rw [if_pos hfull, if_pos hfull]
          refine Alike.pure (h.change id rfl rfl rfl rfl rfl ?_ h.sane)
          rw [hrequired]
          rfl
        · rw [if_neg hfull, if_neg hfull]
          refine Alike.same fun _ => Alike.pure ?_
          have hsane := h.sane.require hvalid
          have hnew : enlist config.maxFootprintEntries s₁.state.revalidationRequired resource =
              s₁.state.revalidationRequired ++ [resource] := by
            rw [enlist, if_neg hmem, if_neg hfull]
          refine h.change (fun v => { v with
              revalidationRequired := v.revalidationRequired ++ [resource] })
            rfl rfl rfl rfl rfl ?_ ?_
          · rw [hrequired]
            rfl
          · have hsame : s₁.durable.revalidationRequired = s₁.state.revalidationRequired := rfl
            rw [hsame, hnew] at hsane
            exact hsane
  · rw [if_neg hop, if_neg hop]
    by_cases hfootprint : op = kRevalidationFootprint
    · rw [if_pos hfootprint, if_pos hfootprint]
      refine Alike.same fun count => Alike.same fun _ => ?_
      refine Alike.bind (alike_readFootprint h count.toNat) fun t₁ t₂ ht => ?_
      exact Alike.same fun _ => Alike.pure (ht.change id rfl rfl rfl rfl rfl rfl ht.sane)
    · rw [if_neg hfootprint, if_neg hfootprint]
      exact fun rest => .inl ⟨_, rfl, rfl⟩

/-- Twins read a record alike. -/
theorem alike_readEffect (h : Twins config s₁.journal s₂.journal s₁ s₂) (r : JournalRecord) :
    Alike (Twins config s₁.journal s₂.journal) (readEffect s₁ r) (readEffect s₂ r) := by
  have hattempts : s₁.openAttempts = s₂.openAttempts := congrArg Durable.openAttempts h.durable
  have hfences : s₁.state.fences = s₂.state.fences := congrArg Durable.fences h.durable
  unfold readEffect
  cases r.type with
  | epoch =>
    refine Alike.pure (h.change (fun v => { v with epoch := r.epoch }) rfl rfl rfl rfl rfl rfl ?_)
    exact { h.sane with }
  | boot =>
    refine Alike.same fun i => Alike.pure ?_
    refine h.change (fun v => { v with boot := i.boot, incarnation := i, bootRecorded := true })
      rfl rfl rfl rfl rfl rfl ?_
    exact { h.sane with booted := fun _ => rfl, unbooted := nofun }
  | policy =>
    refine Alike.bind alike_decodePolicy fun p p' hp => Alike.pure ?_
    obtain ⟨rfl, hvalid⟩ := hp
    refine h.change (fun v => { v with policy := p, hasPolicy := true }) rfl rfl rfl rfl rfl rfl ?_
    exact { h.sane with policy := fun _ => hvalid, noPolicy := nofun }
  | topologyBinding =>
    refine Alike.same fun digest => Alike.same fun generation => Alike.same fun _ => Alike.pure ?_
    refine h.change (fun v => { v with
        topologyDigest := digest, topologyGeneration := ⟨generation⟩, hasTopologyBinding := true })
      rfl rfl rfl rfl rfl rfl ?_
    exact { h.sane with unbound := nofun }
  | fencePut =>
    refine Alike.bind alike_decodeFence fun f f' hf => ?_
    obtain ⟨rfl, hvalid⟩ := hf
    exact Alike.bind (alike_putFence h hvalid) fun t₁ t₂ ht => Alike.pure ht
  | fenceRemove =>
    refine Alike.same fun id => ?_
    rw [← hfences]
    refine Alike.refuse fun _ => Alike.same fun _ => Alike.pure ?_
    exact h.change (fun v => { v with fences := v.fences.eraseP fun f => f.id == id })
      rfl rfl rfl rfl rfl rfl (h.sane.removeFence id)
  | lineage =>
    refine Alike.same fun lineage => Alike.pure ?_
    refine h.change (fun v => { v with
        lineages := remember config.maxLineages v.lineages lineage })
      rfl rfl rfl rfl ?_ ?_ (h.sane.lineage lineage)
    · have hkept := @durable_rememberLineage s₁ s₁.config.maxLineages lineage
      rw [h.config₁] at hkept ⊢
      exact hkept
    · have hkept := @durable_rememberLineage s₂ s₂.config.maxLineages lineage
      rw [h.config₂] at hkept ⊢
      exact hkept
  | revalidation =>
    exact Alike.bind (alike_readRevalidation h) fun t₁ t₂ ht => Alike.pure ht
  | attemptBegin =>
    refine Alike.bind alike_readId fun id id' hid => ?_
    obtain ⟨rfl, hvalid⟩ := hid
    rw [← hattempts]
    refine Alike.refuse fun hnew => Alike.same fun _ => Alike.pure ?_
    refine h.change (fun v => { v with openAttempts := v.openAttempts ++ [id] })
      rfl rfl rfl rfl rfl ?_ (h.sane.beginAttempt hvalid hnew)
    rw [hattempts]
    rfl
  | attemptCommit =>
    refine Alike.same fun id => ?_
    rw [← hattempts]
    refine Alike.refuse fun _ => Alike.same fun _ => Alike.pure ?_
    refine h.change (fun v => { v with openAttempts := v.openAttempts.erase id })
      rfl rfl rfl rfl rfl ?_ (h.sane.closeAttempt id)
    rw [hattempts]
    rfl
  | attemptAbort =>
    refine Alike.same fun id => ?_
    rw [← hattempts]
    refine Alike.refuse fun _ => Alike.same fun _ => Alike.pure ?_
    refine h.change (fun v => { v with openAttempts := v.openAttempts.erase id })
      rfl rfl rfl rfl rfl ?_ (h.sane.closeAttempt id)
    rw [hattempts]
    rfl
  | compaction =>
    refine Alike.same fun previousEpoch => Alike.same fun _ => Alike.pure ?_
    exact h.change id rfl rfl rfl rfl rfl rfl h.sane
  | count => exact fun rest => .inl ⟨_, rfl, rfl⟩

theorem Twins.applyRecord (h : Twins config j₁ j₂ s₁ s₂) (r : JournalRecord) :
    (∃ st, s₁.applyRecord r = .error st ∧ s₂.applyRecord r = .error st) ∨
      ∃ t₁ t₂, s₁.applyRecord r = .ok t₁ ∧ s₂.applyRecord r = .ok t₂ ∧ Twins config j₁ j₂ t₁ t₂ := by
  obtain rfl := h.journal₁
  obtain rfl := h.journal₂
  unfold DurableStore.applyRecord ByteReader.decode
  rcases alike_readEffect h r { data := r.payload } with ⟨st, h₁, h₂⟩ | ⟨t₁, t₂, rest, h₁, h₂, ht⟩
  · exact .inl ⟨st, by rw [h₁]; rfl, by rw [h₂]; rfl⟩
  · exact .inr ⟨t₁, t₂, by rw [h₁]; rfl, by rw [h₂]; rfl, ht⟩

/-- Twins are taken through the same records alike. -/
theorem Twins.applyAll (h : Twins config j₁ j₂ s₁ s₂) (rs : List JournalRecord) :
    (∃ st, DurableStore.applyAll rs s₁ = .error st ∧ DurableStore.applyAll rs s₂ = .error st) ∨
      ∃ t₁ t₂, DurableStore.applyAll rs s₁ = .ok t₁ ∧ DurableStore.applyAll rs s₂ = .ok t₂ ∧
        Twins config j₁ j₂ t₁ t₂ := by
  induction rs generalizing s₁ s₂ with
  | nil => exact .inr ⟨s₁, s₂, rfl, rfl, h⟩
  | cons r rest ih =>
    rw [DurableStore.applyAll, DurableStore.applyAll]
    rcases h.applyRecord r with ⟨st, h₁, h₂⟩ | ⟨t₁, t₂, h₁, h₂, ht⟩
    · rw [h₁, h₂]
      exact .inl ⟨st, rfl, rfl⟩
    · rw [h₁, h₂]
      exact ih (ht.change id rfl rfl rfl rfl rfl rfl ht.sane)

theorem applyAll_append (rs rs' : List JournalRecord) (s : DurableStore) :
    applyAll (rs ++ rs') s =
      match applyAll rs s with
      | .error st => .error st
      | .ok s => applyAll rs' s := by
  induction rs generalizing s with
  | nil => rfl
  | cons r rest ih =>
    rw [List.cons_append, applyAll, applyAll]
    cases s.applyRecord r with
    | error st => rfl
    | ok s' => exact ih s'.countReplayed

end DurableStore

/-- The records take an empty store to what is kept. -/
def Replays (config : DurableConfig) (rs : List JournalRecord) (v : Durable) : Prop :=
  ∃ s : DurableStore, DurableStore.applyAll rs { config } = .ok s ∧ s.config = config ∧ s.durable = v

namespace Replays

variable {config : DurableConfig} {rs rs' : List JournalRecord} {r : JournalRecord} {v v' : Durable}
  {j : Journal} {s : DurableStore}

theorem twins (config : DurableConfig) (j₁ j₂ : Journal) :
    DurableStore.Twins config j₁ j₂ { config, journal := j₁ } { config, journal := j₂ } :=
  ⟨rfl, rfl, rfl, rfl, rfl, .empty⟩

/-- A replay over any journal. -/
theorem of_applyAll (h : DurableStore.applyAll rs { config, journal := j } = .ok s) :
    Replays config rs s.durable ∧ s.config = config ∧ s.journal = j ∧ s.durable.Sane config := by
  rcases (twins config j {}).applyAll rs with ⟨st, herror, -⟩ | ⟨t₁, t₂, h₁, h₂, ht⟩
  · rw [h] at herror
    cases herror
  · rw [h] at h₁
    cases h₁
    exact ⟨⟨t₂, h₂, ht.config₂, ht.durable.symm⟩, ht.config₁, ht.journal₁, ht.sane⟩

theorem applyAll (h : Replays config rs v) (j : Journal) : ∃ s : DurableStore,
    DurableStore.applyAll rs { config, journal := j } = .ok s ∧ s.config = config ∧ s.journal = j ∧
      s.durable = v := by
  obtain ⟨s, hall, -, hdurable⟩ := h
  rcases (twins config {} j).applyAll rs with ⟨st, herror, -⟩ | ⟨t₁, t₂, h₁, h₂, ht⟩
  · have hfail := hall.symm.trans herror
    cases hfail
  · have hsame := hall.symm.trans h₁
    cases hsame
    exact ⟨t₂, h₂, ht.config₂, ht.journal₂, ht.durable.symm.trans hdurable⟩

theorem sane (h : Replays config rs v) : v.Sane config := by
  obtain ⟨s, hall, -, hdurable⟩ := h
  have hsane := (of_applyAll (j := {}) hall).2.2.2
  rwa [hdurable] at hsane

theorem nil : Replays config [] {} := ⟨{ config }, rfl, rfl, rfl⟩

theorem unique (h : Replays config rs v) (h' : Replays config rs v') : v = v' := by
  obtain ⟨s, hall, -, hdurable⟩ := h
  obtain ⟨s', hall', -, hdurable'⟩ := h'
  have hsame := hall.symm.trans hall'
  cases hsame
  exact hdurable.symm.trans hdurable'

/-- One more record, which says an event that is possible. -/
theorem snoc (h : Replays config rs v) {ev : DurableEvent} (hsaid : r.Says config ev)
    (hpossible : ev.Possible config v) : Replays config (rs ++ [r]) (ev.apply config v) := by
  obtain ⟨s, hall, hconfig, rfl⟩ := h
  obtain ⟨s', hrecord, hconfig', -, hdurable⟩ := hsaid s hconfig hpossible
  refine ⟨s'.countReplayed, ?_, hconfig', hdurable⟩
  rw [DurableStore.applyAll_append, hall]
  show DurableStore.applyAll [r] s = _
  rw [DurableStore.applyAll, hrecord]
  rfl

/-- The first records alone. -/
theorem front (h : Replays config (rs ++ rs') v) : ∃ v', Replays config rs v' := by
  obtain ⟨s, hall, -, -⟩ := h
  rw [DurableStore.applyAll_append] at hall
  cases hfront : DurableStore.applyAll rs ({ config } : DurableStore) with
  | error st =>
    rw [hfront] at hall
    cases hall
  | ok s' =>
    obtain ⟨hreplays, -⟩ := of_applyAll hfront
    exact ⟨s'.durable, hreplays⟩

end Replays

end Backpressure
