import Backpressure.Store.DurableState

/-!
# Codec round trips

What the store writes into a payload is what the replay reads from it, for every payload of the
format.
-/

namespace Backpressure

open Lib (LittleEndian.encode LittleEndian.decode)

/-- The decoder reads the value from the bytes, and they are all. -/
def Ends {α : Type} (d : Decoder α) (bytes : Bytes) (a : α) : Prop :=
  ∀ offset, ∃ r, d.run { data := bytes, offset } = .ok (a, r)

namespace Ends

variable {α β : Type} {d : Decoder α} {f : α → Decoder β} {a b : Bytes} {x : α} {y : β}

theorem bind (h : Reads d a x) (h' : Ends (f x) b y) : Ends (d >>= f) (a ++ b) y := by
  intro offset
  obtain ⟨r, hr⟩ := h' (offset + a.length)
  refine ⟨r, ?_⟩
  rw [StateT.run_bind, h b offset]
  exact hr

/-- A step that reads nothing. -/
theorem step (h : Reads d [] x) (h' : Ends (f x) b y) : Ends (d >>= f) b y := by
  have hseq := bind h h'
  rwa [List.nil_append] at hseq

/-- The last step that reads something. -/
theorem last (h : Reads d a x) (h' : Ends (f x) [] y) : Ends (d >>= f) a y := by
  have hseq := bind h h'
  rwa [List.append_nil] at hseq

theorem of_reads (h : Reads d a x) : Ends d a x := by
  intro offset
  have hrun := h [] offset
  rw [List.append_nil] at hrun
  exact ⟨_, hrun⟩

theorem pure (x : α) : Ends (Pure.pure x) [] x := of_reads (.pure x)

theorem expectEnd {next : Decoder β} (h : Ends next [] y) :
    Ends (ByteReader.expectEnd >>= fun _ => next) [] y := by
  intro offset
  obtain ⟨r, hr⟩ := h offset
  exact ⟨r, hr⟩

/-- The value of a decoder, in what follows it. -/
theorem andThen {z : β} (h : Ends d a x) (h' : ∀ r : ByteReader, ∃ r', (f x).run r = .ok (z, r')) :
    Ends (d >>= f) a z := by
  intro offset
  obtain ⟨r, hr⟩ := h offset
  obtain ⟨r', hr'⟩ := h' r
  refine ⟨r', ?_⟩
  rw [StateT.run_bind, hr]
  exact hr'

theorem decode (h : Ends d a x) : ByteReader.decode d a = .ok x := by
  obtain ⟨r, hr⟩ := h 0
  unfold ByteReader.decode
  rw [hr]
  rfl

end Ends

/-- The decoder refuses the bytes. -/
def Stops {α : Type} (d : Decoder α) (bytes : Bytes) (st : Status) : Prop :=
  ∀ offset, d.run { data := bytes, offset } = .error st

namespace Stops

variable {α β : Type} {d : Decoder α} {f : α → Decoder β} {a b : Bytes} {x : α} {st : Status}

theorem bind (h : Reads d a x) (h' : Stops (f x) b st) : Stops (d >>= f) (a ++ b) st := by
  intro offset
  rw [StateT.run_bind, h b offset]
  exact h' (offset + a.length)

theorem step (h : Reads d [] x) (h' : Stops (f x) b st) : Stops (d >>= f) b st := by
  have hseq := bind h h'
  rwa [List.nil_append] at hseq

theorem first (h : Stops d a st) : Stops (d >>= f) a st := by
  intro offset
  rw [StateT.run_bind, h offset]
  rfl

/-- The value of a decoder is refused by what follows it. -/
theorem after (h : Ends d a x) (h' : ∀ r : ByteReader, (f x).run r = .error st) :
    Stops (d >>= f) a st := by
  intro offset
  obtain ⟨r, hr⟩ := h offset
  rw [StateT.run_bind, hr]
  exact h' r

/-- Bytes that remain unread. -/
theorem trailing (h : a ≠ []) :
    Stops ByteReader.expectEnd a (.error .malformedInput "trailing bytes" a.length) :=
  fun _ => if_pos h

theorem decode (h : Stops d a st) : ByteReader.decode d a = .error st := by
  unfold ByteReader.decode
  rw [h 0]
  rfl

end Stops

/-- What an encoder of at least the length of its bytes leaves. -/
theorem Appends.eq_of_take {e : Encoder} {a bytes : Bytes} {maxBytes : Nat} (h : Appends e a)
    (hmax : a.length ≤ maxBytes) (htake : ByteWriter.take maxBytes e = .ok bytes) : bytes = a := by
  rw [h.take hmax] at htake
  cases htake
  rfl

/-! ## Fields -/

theorem Appends.raw (raw : Nat) :
    Appends (encodeRaw raw) (LittleEndian.encode 4 (UInt32.ofNat raw).toNat) := .u32 _

theorem Reads.q16 (context : String) (q : Q16) :
    Reads (readQ16 context) (LittleEndian.encode 4 (UInt32.ofNat q.raw).toNat) q := by
  have hraw : (UInt32.ofNat q.raw).toNat = q.raw := by
    have hle := q.le_one
    simp only [UInt32.toNat_ofNat']
    omega
  have hread : Reads (readQ16 context) (LittleEndian.encode 4 (UInt32.ofNat q.raw).toNat ++ [])
      (Q16.fromRawSaturating (UInt32.ofNat q.raw).toNat) :=
    (Reads.u32 _).bind ((Reads.refuse (by
      rw [hraw]
      exact not_lt.mpr q.le_one)).step (.pure _))
  rw [List.append_nil] at hread
  have hsame : Q16.fromRawSaturating (UInt32.ofNat q.raw).toNat = q := by
    rw [hraw]
    obtain ⟨raw, hle⟩ := q
    unfold Q16.fromRawSaturating
    congr 1
    exact min_eq_left hle
  rwa [hsame] at hread

theorem Reads.id {tag : IdTag} {id : StrongId tag} (h : id.valid = true) :
    Reads DurableStore.readId (LittleEndian.encode 8 id.value.toNat) id := by
  have hread : Reads DurableStore.readId (LittleEndian.encode 8 id.value.toNat ++ []) id :=
    (Reads.u64 id.value).bind (.accept (StrongId.fromU64_value h))
  rwa [List.append_nil] at hread

/-- The gain of a policy. -/
theorem Gain.fromRaw_raw (g : Gain) : Gain.fromRaw (UInt32.ofNat g.raw).toNat = .ok g := by
  have hraw : (UInt32.ofNat g.raw).toNat = g.raw := by
    have hle := g.le_max
    simp only [UInt32.toNat_ofNat']
    omega
  rw [hraw, Gain.fromRaw, dif_pos g.ge_unity, dif_pos g.le_max]

/-! ## Composite payloads -/

/-- The fields of an incarnation in a row. -/
theorem incarnation_codec (i : Incarnation) : ∃ bytes, bytes.length = 32 ∧
    Appends (DurableStore.encodeIncarnation i) bytes ∧
    Ends DurableStore.readIncarnation bytes i := by
  have hwrite : Appends (DurableStore.encodeIncarnation i) _ :=
    (Appends.u64 i.boot.hi).seq <| (Appends.u64 i.boot.lo).seq <| (Appends.u32 i.pid).seq <|
      (Appends.u32 i.index).seq <| Appends.u64 i.seq
  refine ⟨_, by simp, hwrite, ?_⟩
  exact Ends.bind (.u64 _) <| Ends.bind (.u64 _) <| Ends.bind (.u32 _) <| Ends.bind (.u32 _) <|
    Ends.last (.u64 _) <| Ends.expectEnd (.pure _)

/-- The fields of a valid fence in a row. -/
theorem fence_codec {f : Fence} (h : f.validate.ok = true) : ∃ bytes, bytes.length = 60 ∧
    Appends (encodeFence f) bytes ∧ Ends decodeFence bytes f := by
  have hvalid := h
  unfold Fence.validate at hvalid
  rw [Status.ok_guard (by decide), Status.ok_guard (by decide), Status.ok_guard (by decide)] at hvalid
  obtain ⟨hid, hresource, hkind, -⟩ := hvalid
  have hkindRaw : FenceKind.ofRaw (UInt8.ofNat f.kind.toNat).toNat = f.kind := by
    cases f.kind <;> rfl
  have hkindLt : ¬FenceKind.count.toNat ≤ (UInt8.ofNat f.kind.toNat).toNat := by
    revert hkind
    cases f.kind <;> decide
  have hwrite : Appends (encodeFence f) _ :=
    (Appends.u16 kFenceFormat).seq <| (Appends.u64 f.id.value).seq <|
      (Appends.u64 f.resource.value).seq <| (Appends.u8 (.ofNat f.kind.toNat)).seq <|
      (Appends.u64 f.epoch.value).seq <| (Appends.u64 f.dependencyGeneration.value).seq <|
      (Appends.u64 f.expiresAt).seq <| (Appends.boolean f.durable).seq <|
      Appends.digest f.provenance
  refine ⟨_, by simp, hwrite, ?_⟩
  refine Ends.bind (.u16 _) <| Ends.step (.refuse (not_not.mpr rfl)) <|
    Ends.bind (.u64 _) <| Ends.step (.accept (StrongId.fromU64_value (by simpa using hid))) <|
    Ends.bind (.u64 _) <| Ends.step (.accept (StrongId.fromU64_value (by simpa using hresource))) <|
    Ends.bind (.u8 _) <| Ends.step (.refuse hkindLt) <| Ends.bind (.u64 _) <|
    Ends.bind (.u64 _) <| Ends.bind (.u64 _) <| Ends.bind (.boolean _) <|
    Ends.last (.digest _) <| Ends.expectEnd ?_
  rw [hkindRaw]
  exact .of_reads (.accept (if_pos h))

/-- The fields of a valid policy in a row. -/
theorem policy_codec {p : PropagationPolicy} (h : p.validate.ok = true) :
    ∃ bytes, bytes.length = 117 ∧ Appends (encodePolicy p) bytes ∧ Ends decodePolicy bytes p := by
  have hid := (PropagationPolicy.valid_of_validate h).id
  have hrule : p.aggregation ≠ .count := by
    intro heq
    simp [PropagationPolicy.validate, Status.ok_guard, heq] at h
  have hruleRaw : AggregationRule.ofRaw (UInt8.ofNat p.aggregation.toNat).toNat = p.aggregation := by
    cases p.aggregation <;> rfl
  have hruleLt : ¬AggregationRule.count.toNat ≤ (UInt8.ofNat p.aggregation.toNat).toNat := by
    revert hrule
    cases p.aggregation <;> decide
  have hwrite : Appends (encodePolicy p) _ :=
    (Appends.u16 kPolicyFormat).seq <| (Appends.u64 p.id.value).seq <|
      (Appends.u64 p.generation.value).seq <| (Appends.u32 p.maxHops).seq <|
      (Appends.u32 p.maxFanout).seq <| (Appends.u32 p.maxExpansions).seq <|
      (Appends.u32 p.maxVisited).seq <| (Appends.u32 p.maxSources).seq <|
      (Appends.u32 p.maxRecords).seq <| (Appends.u32 p.maxPathRecords).seq <|
      (Appends.raw p.minPropagatable.raw).seq <| (Appends.u64 p.lifetimeTicks).seq <|
      (Appends.u8 (.ofNat p.aggregation.toNat)).seq <|
      (Appends.raw p.aggregationCeiling.raw).seq <| (Appends.boolean p.allowAmplification).seq <|
      (Appends.raw p.maxCumulativeGain.raw).seq <| (Appends.u64 p.defaultCooldownTicks).seq <|
      (Appends.raw p.hysteresisDelta.raw).seq <| (Appends.raw p.recoveryDecay.perStep.raw).seq <|
      (Appends.u64 p.recoveryDecay.stepTicks).seq <| (Appends.raw p.recoveryDecay.floor.raw).seq <|
      (Appends.u32 p.recoveryDecay.maxSteps).seq <| (Appends.u32 p.thresholds.elevatedMilli).seq <|
      (Appends.u32 p.thresholds.highMilli).seq <| (Appends.u32 p.thresholds.criticalMilli).seq <|
      (Appends.u32 p.thresholds.exhaustedMilli).seq <| Appends.boolean p.requireKnownPressure
  refine ⟨_, by simp, hwrite, ?_⟩
  refine Ends.bind (.u16 _) <| Ends.step (.refuse (not_not.mpr rfl)) <|
    Ends.bind (.u64 _) <| Ends.step (.accept (StrongId.fromU64_value hid)) <|
    Ends.bind (.u64 _) <| Ends.bind (.u32 _) <| Ends.bind (.u32 _) <| Ends.bind (.u32 _) <|
    Ends.bind (.u32 _) <| Ends.bind (.u32 _) <| Ends.bind (.u32 _) <| Ends.bind (.u32 _) <|
    Ends.bind (.q16 _ p.minPropagatable) <| Ends.bind (.u64 _) <| Ends.bind (.u8 _) <|
    Ends.step (.refuse hruleLt) <| Ends.bind (.q16 _ p.aggregationCeiling) <|
    Ends.bind (.boolean _) <| Ends.bind (.u32 _) <| Ends.step (.accept p.maxCumulativeGain.fromRaw_raw) <|
    Ends.bind (.u64 _) <| Ends.bind (.q16 _ p.hysteresisDelta) <|
    Ends.bind (.q16 _ p.recoveryDecay.perStep) <| Ends.bind (.u64 _) <|
    Ends.bind (.q16 _ p.recoveryDecay.floor) <| Ends.bind (.u32 _) <| Ends.bind (.u32 _) <|
    Ends.bind (.u32 _) <| Ends.bind (.u32 _) <| Ends.bind (.u32 _) <| Ends.last (.boolean _) <|
    Ends.expectEnd ?_
  rw [hruleRaw]
  exact .of_reads (.accept (if_pos h))

end Backpressure
