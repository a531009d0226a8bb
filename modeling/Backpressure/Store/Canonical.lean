import Backpressure.Store.Codecs

/-!
# Canonical payloads

A policy and a fence have one encoding each. A decoder is read backwards: every field that it has
taken from the bytes is spelt in them as the encoder writes it, and it takes nothing else.
-/

namespace Backpressure

open Lib (LittleEndian.encode LittleEndian.decode)

section Decoders

variable {α β : Type}

/-- The bytes that the decoder takes are those of the value that it reads. -/
def Spells (d : Decoder α) (spelling : α → Bytes) : Prop :=
  ∀ r a r', d.run r = .ok (a, r') → r.data = spelling a ++ r'.data

/-- Whatever the decoder accepts has the property, with the value that it reads. -/
def Accepts (d : Decoder α) (P : Bytes → α → Prop) : Prop :=
  ∀ r a r', d.run r = .ok (a, r') → P r.data a

variable {d : Decoder α} {f : α → Decoder β} {spelling : α → Bytes} {P : Bytes → β → Prop}

theorem run_bind_ok {r r' : ByteReader} {b : β} (h : (d >>= f).run r = .ok (b, r')) :
    ∃ a r₁, d.run r = .ok (a, r₁) ∧ (f a).run r₁ = .ok (b, r') := by
  rw [StateT.run_bind] at h
  cases hd : d.run r with
  | error st =>
    rw [hd] at h
    cases h
  | ok done =>
    rw [hd] at h
    exact ⟨done.1, done.2, rfl, h⟩

theorem refuse_ok {c : Prop} [Decidable c] {code : ErrorCode} {context : String} {detail : Nat}
    {u : Unit} {r r' : ByteReader}
    (h : (ByteReader.refuse c code context detail).run r = .ok (u, r')) : ¬c ∧ r' = r := by
  unfold ByteReader.refuse at h
  rw [StateT.run] at h
  split at h
  · cases h
  case isFalse hc =>
    cases h
    exact ⟨hc, rfl⟩

theorem accept_ok {x : Result α} {a : α} {r r' : ByteReader}
    (h : (ByteReader.accept x).run r = .ok (a, r')) : x = .ok a ∧ r' = r := by
  cases x with
  | error st => cases h
  | ok a' =>
    cases h
    exact ⟨rfl, rfl⟩

/-! ## Fields -/

theorem encode_mod (width n : Nat) :
    LittleEndian.encode width (n % 256 ^ width) = LittleEndian.encode width n := by
  have hback := Lib.LittleEndian.encode_decode (LittleEndian.encode width n)
  rwa [Lib.LittleEndian.length_encode, Lib.LittleEndian.decode_encode] at hback

namespace Spells

theorem map {g : α → β} {whole : β → Bytes} (h : Spells d spelling)
    (hwhole : ∀ a, spelling a = whole (g a)) : Spells (do let a ← d; return g a) whole := by
  intro r b r' hrun
  obtain ⟨a, r₁, ha, hb⟩ := run_bind_ok hrun
  cases hb
  rw [h r a r' ha, hwhole]

theorem word (width : Nat) (what : String) :
    Spells (ByteReader.word width what) (LittleEndian.encode width) := by
  intro r n r' hrun
  unfold ByteReader.word at hrun
  rw [StateT.run] at hrun
  split at hrun
  · cases hrun
  case isFalse hlong =>
    cases hrun
    have htaken : (r.data.take width).length = width :=
      List.length_take_of_le (Nat.not_lt.mp hlong)
    have hspelt := Lib.LittleEndian.encode_decode (r.data.take width)
    rw [htaken] at hspelt
    rw [hspelt, List.take_append_drop]

theorem u8 : Spells ByteReader.u8 fun v => LittleEndian.encode 1 v.toNat :=
  (word 1 "u8").map fun n => (encode_mod 1 n).symm.trans (by rw [UInt8.toNat_ofNat']; rfl)

theorem u16 : Spells ByteReader.u16 fun v => LittleEndian.encode 2 v.toNat :=
  (word 2 "u16").map fun n => (encode_mod 2 n).symm.trans (by rw [UInt16.toNat_ofNat']; rfl)

theorem u32 : Spells ByteReader.u32 fun v => LittleEndian.encode 4 v.toNat :=
  (word 4 "u32").map fun n => (encode_mod 4 n).symm.trans (by rw [UInt32.toNat_ofNat']; rfl)

theorem u64 : Spells ByteReader.u64 fun v => LittleEndian.encode 8 v.toNat :=
  (word 8 "u64").map fun n => (encode_mod 8 n).symm.trans (by rw [UInt64.toNat_ofNat']; rfl)

/-- A boolean is spelt by zero or one only. -/
theorem boolean : Spells ByteReader.boolean fun v => LittleEndian.encode 1 v.toNat := by
  intro r v r' hrun
  obtain ⟨raw, r₁, hraw, hrest⟩ := run_bind_ok hrun
  obtain ⟨_, r₂, hcheck, hlast⟩ := run_bind_ok hrest
  obtain ⟨hsmall, rfl⟩ := refuse_ok hcheck
  cases hlast
  rw [u8 r raw r' hraw]
  congr 2
  have hcases : raw = 0 ∨ raw = 1 := by
    rw [← UInt8.toNat_inj, ← UInt8.toNat_inj]
    simp only [UInt8.toNat_ofNat]
    omega
  rcases hcases with rfl | rfl <;> rfl

theorem digest : Spells ByteReader.digest fun v =>
    LittleEndian.encode 8 v.hi.toNat ++ LittleEndian.encode 8 v.lo.toNat := by
  intro r v r' hrun
  obtain ⟨hi, r₁, hhi, hrest⟩ := run_bind_ok hrun
  obtain ⟨lo, r₂, hlo, hlast⟩ := run_bind_ok hrest
  cases hlast
  rw [u64 r hi r₁ hhi, u64 r₁ lo r' hlo, List.append_assoc]

/-- A number above one would be saturated; it is refused instead. -/
theorem q16 (context : String) : Spells (readQ16 context) fun q =>
    LittleEndian.encode 4 (UInt32.ofNat q.raw).toNat := by
  intro r q r' hrun
  obtain ⟨raw, r₁, hraw, hrest⟩ := run_bind_ok hrun
  obtain ⟨_, r₂, hcheck, hlast⟩ := run_bind_ok hrest
  obtain ⟨hsmall, rfl⟩ := refuse_ok hcheck
  cases hlast
  rw [u32 r raw r' hraw]
  congr 2
  have hmin : (Q16.fromRawSaturating raw.toNat).raw = raw.toNat := min_eq_left (not_lt.mp hsmall)
  rw [hmin, UInt32.ofNat_toNat]

end Spells

/-! ## Reading a payload backwards -/

namespace Accepts

theorem field (h : Spells d spelling)
    (h' : ∀ a, Accepts (f a) fun more b => P (spelling a ++ more) b) : Accepts (d >>= f) P := by
  intro r b r' hrun
  obtain ⟨a, r₁, ha, hb⟩ := run_bind_ok hrun
  rw [h r a r₁ ha]
  exact h' a r₁ b r' hb

theorem refuse {c : Prop} [Decidable c] {code : ErrorCode} {context : String} {detail : Nat}
    {f : Unit → Decoder β} (h : ¬c → Accepts (f ()) P) :
    Accepts (ByteReader.refuse c code context detail >>= f) P := by
  intro r b r' hrun
  obtain ⟨u, r₁, hcheck, hb⟩ := run_bind_ok hrun
  obtain ⟨hc, rfl⟩ := refuse_ok hcheck
  exact h hc r₁ b r' hb

theorem accept {x : Result α} (h : ∀ a, x = .ok a → Accepts (f a) P) :
    Accepts (ByteReader.accept x >>= f) P := by
  intro r b r' hrun
  obtain ⟨a, r₁, hcheck, hb⟩ := run_bind_ok hrun
  obtain ⟨hx, rfl⟩ := accept_ok hcheck
  exact h a hx r₁ b r' hb

/-- The last check, with nothing left to read. -/
theorem finish {x : Result β} (h : ∀ b, x = .ok b → P [] b) :
    Accepts (ByteReader.expectEnd >>= fun _ => ByteReader.accept x) P := by
  intro r b r' hrun
  obtain ⟨u, r₁, hend, hb⟩ := run_bind_ok hrun
  obtain ⟨hx, -⟩ := accept_ok hb
  unfold ByteReader.expectEnd at hend
  rw [StateT.run] at hend
  split at hend
  · cases hend
  case isFalse hempty =>
    rw [not_not.mp hempty]
    exact h b hx

theorem decode {d : Decoder β} (h : Accepts d P) {bytes : Bytes} {b : β}
    (hdecode : ByteReader.decode d bytes = .ok b) : P bytes b := by
  unfold ByteReader.decode at hdecode
  cases hrun : d.run { data := bytes } with
  | error st =>
    rw [hrun] at hdecode
    cases hdecode
  | ok done =>
    rw [hrun] at hdecode
    cases hdecode
    exact h _ _ _ hrun

end Accepts

end Decoders

/-! ## Values from their spelling -/

theorem StrongId.value_of_fromU64 {tag : IdTag} {raw : UInt64} {id : StrongId tag}
    (h : StrongId.fromU64 raw = .ok id) : id.value = raw := by
  unfold StrongId.fromU64 at h
  split at h
  · cases h
  · cases h
    rfl

theorem Gain.raw_of_fromRaw {raw : UInt32} {g : Gain} (h : Gain.fromRaw raw.toNat = .ok g) :
    UInt32.ofNat g.raw = raw := by
  unfold Gain.fromRaw at h
  split at h
  · split at h
    · cases h
      exact UInt32.ofNat_toNat
    · cases h
  · cases h

/-- The rules are numbered from zero on. -/
theorem AggregationRule.toNat_ofRaw {n : Nat} (h : n < AggregationRule.count.toNat) :
    (AggregationRule.ofRaw n).toNat = n := by
  have hcases : n = 0 ∨ n = 1 ∨ n = 2 ∨ n = 3 := by
    have hcount : AggregationRule.count.toNat = 4 := rfl
    omega
  rcases hcases with rfl | rfl | rfl | rfl <;> rfl

theorem FenceKind.toNat_ofRaw {n : Nat} (h : n < FenceKind.count.toNat) :
    (FenceKind.ofRaw n).toNat = n := by
  have hcases : n = 0 ∨ n = 1 ∨ n = 2 := by
    have hcount : FenceKind.count.toNat = 3 := rfl
    omega
  rcases hcases with rfl | rfl | rfl <;> rfl

theorem ok_of_validated {α : Type} {st : Status} {a b : α}
    (h : (if st.ok then (.ok a : Result α) else .error st) = .ok b) : st.ok = true ∧ a = b := by
  split at h
  case isTrue hok =>
    cases h
    exact ⟨hok, rfl⟩
  · cases h

/-! ## The codecs -/

/-- An encoder writes one row of bytes. -/
theorem Appends.unique {e : Encoder} {a b : Bytes} (h : Appends e a) (h' : Appends e b) : a = b := by
  have htake := h.take (le_max_left a.length b.length)
  rw [h'.take (le_max_right a.length b.length)] at htake
  cases htake
  rfl

/-- The decoder of fences accepts what the encoder writes of valid fences only. -/
theorem decodeFence_canonical :
    Accepts decodeFence fun bytes f => f.validate.ok = true ∧ Appends (encodeFence f) bytes := by
  refine .field .u16 fun format => .refuse fun hformat => .field .u64 fun rawId =>
    .accept fun id hid => .field .u64 fun rawResource => .accept fun resource hresource =>
    .field .u8 fun kind => .refuse fun hkind => .field .u64 fun epoch => .field .u64 fun generation =>
    .field .u64 fun expiresAt => .field .boolean fun durable => .field .digest fun provenance =>
    .finish fun f hf => ?_
  obtain ⟨hvalid, rfl⟩ := ok_of_validated hf
  refine ⟨hvalid, ?_⟩
  obtain rfl : format = kFenceFormat := not_not.mp hformat
  obtain rfl : id.value = rawId := StrongId.value_of_fromU64 hid
  obtain rfl : resource.value = rawResource := StrongId.value_of_fromU64 hresource
  have hwritten : Appends (ByteWriter.u8 (.ofNat (FenceKind.ofRaw kind.toNat).toNat))
      (LittleEndian.encode 1 kind.toNat) := by
    rw [FenceKind.toNat_ofRaw (not_le.mp hkind), UInt8.ofNat_toNat]
    exact .u8 kind
  rw [List.append_nil]
  exact (Appends.u16 kFenceFormat).seq <| (Appends.u64 id.value).seq <|
    (Appends.u64 resource.value).seq <| hwritten.seq <| (Appends.u64 epoch).seq <|
    (Appends.u64 generation).seq <| (Appends.u64 expiresAt).seq <| (Appends.boolean durable).seq <|
    Appends.digest provenance

/-- The decoder of policies accepts what the encoder writes of valid policies only. -/
theorem decodePolicy_canonical :
    Accepts decodePolicy fun bytes p => p.validate.ok = true ∧ Appends (encodePolicy p) bytes := by
  refine .field .u16 fun format => .refuse fun hformat => .field .u64 fun rawId =>
    .accept fun id hid => .field .u64 fun generation => .field .u32 fun maxHops =>
    .field .u32 fun maxFanout => .field .u32 fun maxExpansions => .field .u32 fun maxVisited =>
    .field .u32 fun maxSources => .field .u32 fun maxRecords => .field .u32 fun maxPathRecords =>
    .field (.q16 _) fun minPropagatable => .field .u64 fun lifetimeTicks => .field .u8 fun rule =>
    .refuse fun hrule => .field (.q16 _) fun aggregationCeiling =>
    .field .boolean fun allowAmplification => .field .u32 fun rawGain =>
    .accept fun maxCumulativeGain hgain => .field .u64 fun defaultCooldownTicks =>
    .field (.q16 _) fun hysteresisDelta => .field (.q16 _) fun perStep =>
    .field .u64 fun stepTicks => .field (.q16 _) fun floor => .field .u32 fun maxSteps =>
    .field .u32 fun elevatedMilli => .field .u32 fun highMilli => .field .u32 fun criticalMilli =>
    .field .u32 fun exhaustedMilli => .field .boolean fun requireKnownPressure =>
    .finish fun p hp => ?_
  obtain ⟨hvalid, rfl⟩ := ok_of_validated hp
  refine ⟨hvalid, ?_⟩
  obtain rfl : format = kPolicyFormat := not_not.mp hformat
  obtain rfl : id.value = rawId := StrongId.value_of_fromU64 hid
  have hrule : Appends (ByteWriter.u8 (.ofNat (AggregationRule.ofRaw rule.toNat).toNat))
      (LittleEndian.encode 1 rule.toNat) := by
    rw [AggregationRule.toNat_ofRaw (not_le.mp hrule), UInt8.ofNat_toNat]
    exact .u8 rule
  have hgain : Appends (encodeRaw maxCumulativeGain.raw) (LittleEndian.encode 4 rawGain.toNat) := by
    rw [encodeRaw, Gain.raw_of_fromRaw hgain]
    exact .u32 rawGain
  rw [List.append_nil]
  exact (Appends.u16 kPolicyFormat).seq <| (Appends.u64 id.value).seq <|
    (Appends.u64 generation).seq <| (Appends.u32 maxHops).seq <| (Appends.u32 maxFanout).seq <|
    (Appends.u32 maxExpansions).seq <| (Appends.u32 maxVisited).seq <|
    (Appends.u32 maxSources).seq <| (Appends.u32 maxRecords).seq <|
    (Appends.u32 maxPathRecords).seq <| (Appends.raw minPropagatable.raw).seq <|
    (Appends.u64 lifetimeTicks).seq <| hrule.seq <| (Appends.raw aggregationCeiling.raw).seq <|
    (Appends.boolean allowAmplification).seq <| hgain.seq <|
    (Appends.u64 defaultCooldownTicks).seq <| (Appends.raw hysteresisDelta.raw).seq <|
    (Appends.raw perStep.raw).seq <| (Appends.u64 stepTicks).seq <| (Appends.raw floor.raw).seq <|
    (Appends.u32 maxSteps).seq <| (Appends.u32 elevatedMilli).seq <|
    (Appends.u32 highMilli).seq <| (Appends.u32 criticalMilli).seq <|
    (Appends.u32 exhaustedMilli).seq <| Appends.boolean requireKnownPressure

/-- The valid values and the accepted byte strings, one to one. -/
structure Bijective {α : Type} (Valid : α → Prop) (bound : Nat) (serialize : α → Result Bytes)
    (deserialize : Bytes → Result α) : Prop where
  reads : ∀ a, Valid a → ∃ bytes, serialize a = .ok bytes ∧ bytes.length ≤ bound ∧
    deserialize bytes = .ok a
  writes : ∀ bytes a, deserialize bytes = .ok a → Valid a ∧ serialize a = .ok bytes

/-- A policy takes 117 bytes and a fence takes 60. Under every bound that admits them, the two
codecs are bijections onto the valid values. -/
theorem codecs_bijective :
    (∀ maxBytes, 117 ≤ maxBytes → Bijective (fun p : PropagationPolicy => p.validate.ok = true)
      (min maxBytes kMaxPolicyBytes) (fun p => serializePolicy p maxBytes) deserializePolicy) ∧
    Bijective (fun f : Fence => f.validate.ok = true) kMaxFenceBytes serializeFence
      deserializeFence := by
  refine ⟨fun maxBytes hmax => ?_, ?_⟩
  · have hbound : 117 ≤ min maxBytes kMaxPolicyBytes := le_min hmax (by decide)
    refine ⟨fun p hvalid => ?_, fun bytes p hread => ?_⟩
    · obtain ⟨bytes, hlength, hwrite, hread⟩ := policy_codec hvalid
      exact ⟨bytes, hwrite.take (hlength ▸ hbound), hlength ▸ hbound, hread.decode⟩
    · obtain ⟨hvalid, hwrite⟩ := decodePolicy_canonical.decode hread
      obtain ⟨bytes', hlength, hwrite', -⟩ := policy_codec hvalid
      have hsame : bytes = bytes' := hwrite.unique hwrite'
      exact ⟨hvalid, hwrite.take (by rw [hsame, hlength]; exact hbound)⟩
  · have hbound : 60 ≤ kMaxFenceBytes := by decide
    refine ⟨fun f hvalid => ?_, fun bytes f hread => ?_⟩
    · obtain ⟨bytes, hlength, hwrite, hread⟩ := fence_codec hvalid
      exact ⟨bytes, hwrite.take (hlength ▸ hbound), hlength ▸ hbound, hread.decode⟩
    · obtain ⟨hvalid, hwrite⟩ := decodeFence_canonical.decode hread
      obtain ⟨bytes', hlength, hwrite', -⟩ := fence_codec hvalid
      have hsame : bytes = bytes' := hwrite.unique hwrite'
      exact ⟨hvalid, hwrite.take (by rw [hsame, hlength]; exact hbound)⟩

/-- A policy with no two fields alike. -/
def distinctPolicy : PropagationPolicy where
  id := ⟨11⟩
  generation := ⟨12⟩
  maxHops := 13
  maxFanout := 14
  maxExpansions := 15
  maxVisited := 16
  maxSources := 17
  maxRecords := 40
  maxPathRecords := 19
  minPropagatable := ⟨20, by decide⟩
  lifetimeTicks := 21
  aggregation := .saturatingSum
  aggregationCeiling := ⟨22, by decide⟩
  allowAmplification := true
  maxCumulativeGain := ⟨65559, by decide, by decide⟩
  defaultCooldownTicks := 24
  hysteresisDelta := ⟨25, by decide⟩
  recoveryDecay :=
    { perStep := ⟨26, by decide⟩, stepTicks := 27, floor := ⟨28, by decide⟩, maxSteps := 29 }
  thresholds := { elevatedMilli := 30, highMilli := 31, criticalMilli := 32, exhaustedMilli := 33 }

def distinctFence : Fence where
  id := ⟨11⟩
  resource := ⟨12⟩
  kind := .refuseEgress
  epoch := ⟨13⟩
  dependencyGeneration := ⟨14⟩
  expiresAt := 15
  durable := true
  provenance := ⟨16, 17⟩

/-- A policy and a fence all of whose fields differ. -/
theorem codecs_of_distinct :
    (∃ bytes, serializePolicy distinctPolicy 512 = .ok bytes ∧ bytes.length = 117 ∧
      deserializePolicy bytes = .ok distinctPolicy) ∧
    ∃ bytes, serializeFence distinctFence = .ok bytes ∧ bytes.length = 60 ∧
      deserializeFence bytes = .ok distinctFence := by
  obtain ⟨hpolicy, hfence⟩ := codecs_bijective
  constructor
  · obtain ⟨bytes, hwrite, -, hread⟩ := (hpolicy 512 (by decide)).reads distinctPolicy (by decide)
    refine ⟨bytes, hwrite, ?_, hread⟩
    have hlength : (serializePolicy distinctPolicy 512).toOption.map List.length = some 117 := by
      decide +kernel
    rw [hwrite] at hlength
    exact Option.some.inj hlength
  · obtain ⟨bytes, hwrite, -, hread⟩ := hfence.reads distinctFence (by decide)
    refine ⟨bytes, hwrite, ?_, hread⟩
    have hlength : (serializeFence distinctFence).toOption.map List.length = some 60 := by
      decide +kernel
    rw [hwrite] at hlength
    exact Option.some.inj hlength

end Backpressure
