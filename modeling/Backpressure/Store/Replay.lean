import Backpressure.Store.Chunks

/-!
# What a replay reads

A replay reads the intact records of a file in order, up to the first one that its limits or a
damage stop it at. What it has read is again intact records, so it can be written on.
-/

namespace Backpressure

variable {limits : JournalLimits} {s : Replay} {bytes rest : Bytes} {r : JournalRecord}
  {rs : List JournalRecord}

/-- Reading a record takes it from the front of the bytes. -/
theorem readRecord_chunk {chunk : Bytes} (h : Chunk s.previous (nextSequence s.records) chunk r)
    (rest : Bytes) : readRecord limits s (chunk ++ rest) =
      if limits.maxRecordBytes < r.payload.length ∨ limits.maxRecords ≤ s.records.length then .torn
      else if limits.maxRetainedBytes < s.retained + r.payload.length then .refused r
      else .record r rest := by
  have hlong := h.long
  have hlength := h.length
  have hheader : (chunk ++ rest).take kRecordHeaderBytes = chunk.take kRecordHeaderBytes :=
    List.take_append_of_le_length hlong
  have hsize : field (chunk.take kRecordHeaderBytes) 0 4 = r.payload.length := by
    rw [field_take (by decide), h.size]
  have hpayload : ((chunk ++ rest).drop kRecordHeaderBytes).take r.payload.length = r.payload := by
    rw [List.drop_append_of_le_length hlong, h.payload, List.take_left' rfl]
  have hrest : (chunk ++ rest).drop (kRecordHeaderBytes + r.payload.length) = rest := by
    rw [← hlength, List.drop_left' rfl]
  have hne : chunk ++ rest ≠ [] := by
    intro hnil
    rw [List.append_eq_nil_iff.mp hnil |>.1] at hlong
    exact absurd hlong (by decide)
  have hfull : ¬(chunk ++ rest).length < kRecordHeaderBytes := by
    rw [List.length_append]
    omega
  unfold readRecord
  rw [if_neg hne, if_neg hfull]
  dsimp only
  rw [hheader, hsize, hpayload, h.checked]
  by_cases hbytes : limits.maxRecordBytes < r.payload.length
  · rw [if_pos hbytes, if_pos (.inl hbytes)]
  · rw [if_neg hbytes]
    by_cases hrecords : limits.maxRecords ≤ s.records.length
    · rw [if_pos hrecords, if_pos (.inr hrecords)]
    · rw [if_neg hrecords, if_neg (not_or.mpr ⟨hbytes, hrecords⟩), if_neg (not_not.mpr rfl)]
      dsimp only
      rw [hrest]

/-- The bytes of a record without their end are no record. -/
theorem readRecord_prefix {chunk : Bytes} {n : Nat} {previous : Digest128} {next : UInt64}
    (h : Chunk previous next chunk r) (hn : n < chunk.length) :
    readRecord limits s (chunk.take n) = .finished ∨ readRecord limits s (chunk.take n) = .torn := by
  unfold readRecord
  by_cases hnil : chunk.take n = []
  · exact .inl (if_pos hnil)
  · rw [if_neg hnil]
    refine .inr ?_
    by_cases hshort : (chunk.take n).length < kRecordHeaderBytes
    · exact if_pos hshort
    · rw [if_neg hshort]
      rw [List.length_take] at hshort
      have hlength := h.length
      have hsize : field ((chunk.take n).take kRecordHeaderBytes) 0 4 = r.payload.length := by
        rw [field_take (by decide), field_take (by unfold kRecordHeaderBytes at hshort; omega),
          h.size]
      have hpayload : (((chunk.take n).drop kRecordHeaderBytes).take r.payload.length).length ≠
          r.payload.length := by
        rw [List.length_take, List.length_drop, List.length_take]
        omega
      dsimp only
      rw [hsize, if_pos hpayload]
      simp only [ite_self]

/-- What was read as a record is an intact record within the limits. -/
theorem chunk_of_readRecord (h : readRecord limits s bytes = .record r rest) :
    ∃ chunk, bytes = chunk ++ rest ∧ Chunk s.previous (nextSequence s.records) chunk r ∧
      r.payload.length ≤ limits.maxRecordBytes ∧ s.records.length < limits.maxRecords ∧
        s.retained + r.payload.length ≤ limits.maxRetainedBytes := by
  unfold readRecord at h
  split at h
  · cases h
  · split at h
    · cases h
    case isFalse hfull =>
      dsimp only at h
      split at h
      · cases h
      case isFalse hbytes =>
        split at h
        · cases h
        case isFalse hrecords =>
          split at h
          · cases h
          case isFalse hpayload =>
            split at h
            · cases h
            case h_2 hchecked =>
              split at h
              · cases h
              case isFalse hretained =>
                cases h
                obtain ⟨hp, -⟩ := checkRecord_payload hchecked
                have hsize := not_not.mp hpayload
                rw [hp]
                refine ⟨bytes.take (kRecordHeaderBytes +
                  field (bytes.take kRecordHeaderBytes) 0 4), (List.take_append_drop ..).symm,
                  ⟨?_, ?_, ?_, ?_⟩, by omega, by omega, by omega⟩
                · rw [List.length_take]
                  rw [List.length_take, List.length_drop] at hsize
                  omega
                · rw [field_take (by unfold kRecordHeaderBytes; omega), hp, hsize,
                    field_take (by decide)]
                · rw [hp, List.drop_take, Nat.add_sub_cancel_left]
                · rw [List.take_take, min_eq_left (by omega), hp]
                  exact hchecked

/-! ## Reading on -/

/-- The replay with more records. -/
def Replay.pushAll (s : Replay) (rs : List JournalRecord) : Replay := rs.foldl Replay.push s

namespace Replay

@[simp] theorem pushAll_nil : s.pushAll [] = s := rfl

@[simp] theorem pushAll_cons : s.pushAll (r :: rs) = (s.push r).pushAll rs := rfl

@[simp] theorem records_pushAll : (s.pushAll rs).records = s.records ++ rs := by
  induction rs generalizing s with
  | nil => simp
  | cons r rest ih => simp [ih, push]

@[simp] theorem retained_pushAll : (s.pushAll rs).retained = s.retained + payloadBytes rs := by
  induction rs generalizing s with
  | nil => simp
  | cons r rest ih => simp [ih, push, Nat.add_assoc]

@[simp] theorem previous_pushAll : (s.pushAll rs).previous = lastChain s.previous rs := by
  induction rs generalizing s with
  | nil => rfl
  | cons r rest ih => exact ih

@[simp] theorem torn_pushAll : (s.pushAll rs).torn = s.torn := by
  induction rs generalizing s with
  | nil => rfl
  | cons r rest ih => exact ih

@[simp] theorem refused_pushAll : (s.pushAll rs).refused = s.refused := by
  induction rs generalizing s with
  | nil => rfl
  | cons r rest ih => exact ih

theorem offset_pushAll : (s.pushAll rs).offset =
    s.offset + (rs.length * kRecordHeaderBytes + payloadBytes rs) := by
  induction rs generalizing s with
  | nil => simp
  | cons r rest ih =>
    rw [pushAll_cons, ih, List.length_cons, payloadBytes_cons, Nat.add_mul]
    show s.offset + (kRecordHeaderBytes + r.payload.length) + _ = _
    omega

end Replay

theorem nextSequence_push : nextSequence (s.push r).records = r.sequence + 1 := by
  show nextSequence (s.records ++ [r]) = _
  unfold nextSequence
  rw [List.getLast?_append]
  rfl

/-- The limits on sizes and numbers leave room for more records. -/
structure Admits (limits : JournalLimits) (s : Replay) (rs : List JournalRecord) : Prop where
  bytes : ∀ r ∈ rs, r.payload.length ≤ limits.maxRecordBytes
  records : s.records.length + rs.length ≤ limits.maxRecords

theorem Admits.push (h : Admits limits s (r :: rs)) : Admits limits (s.push r) rs where
  bytes := fun r' hr' => h.bytes r' (List.mem_cons_of_mem r hr')
  records := by
    have hlength : (s.push r).records.length = s.records.length + 1 := List.length_append
    have hrecords := h.records
    rw [List.length_cons] at hrecords
    omega

theorem readRecord_admitted {chunk : Bytes} (h : Admits limits s (r :: rs))
    (hchunk : Chunk s.previous (nextSequence s.records) chunk r) (rest : Bytes) :
    readRecord limits s (chunk ++ rest) =
      if limits.maxRetainedBytes < s.retained + r.payload.length then .refused r
      else .record r rest := by
  have hbytes := h.bytes r List.mem_cons_self
  have hrecords := h.records
  rw [List.length_cons] at hrecords
  rw [readRecord_chunk hchunk, if_neg (by omega)]

/-- The replay reads every intact record that its limits have room for. -/
theorem replayLoop_chunks {n : Nat} (h : Chunks s.previous (nextSequence s.records) bytes rs)
    (hadmits : Admits limits s rs)
    (hretained : s.retained + payloadBytes rs ≤ limits.maxRetainedBytes) :
    replayLoop limits (rs.length + n) s (bytes ++ rest) =
      replayLoop limits n (s.pushAll rs) rest := by
  induction rs generalizing s bytes with
  | nil =>
    cases h
    simp
  | cons r rs ih =>
    cases h with
    | @cons _ _ chunk bytes _ _ first later =>
      rw [payloadBytes_cons] at hretained
      have hread := readRecord_admitted hadmits first (bytes ++ rest)
      rw [if_neg (by omega)] at hread
      have hfuel : (r :: rs).length + n = (rs.length + n) + 1 := by
        rw [List.length_cons]
        omega
      rw [hfuel, replayLoop, List.append_assoc, hread]
      rw [← nextSequence_push] at later
      have hpush : (s.push r).retained = s.retained + r.payload.length := rfl
      exact ih later hadmits.push (by omega)

/-- Records that need more memory than the limits allow are refused. -/
theorem replayLoop_refused {n : Nat} (h : Chunks s.previous (nextSequence s.records) bytes rs)
    (hadmits : Admits limits s rs) (hs : s.retained ≤ limits.maxRetainedBytes)
    (hretained : limits.maxRetainedBytes < s.retained + payloadBytes rs) :
    (replayLoop limits (rs.length + n) s (bytes ++ rest)).refused.ok = false := by
  induction rs generalizing s bytes with
  | nil =>
    rw [payloadBytes_nil] at hretained
    omega
  | cons r rs ih =>
    cases h with
    | @cons _ _ chunk bytes _ _ first later =>
      rw [payloadBytes_cons] at hretained
      have hread := readRecord_admitted hadmits first (bytes ++ rest)
      have hfuel : (r :: rs).length + n = (rs.length + n) + 1 := by
        rw [List.length_cons]
        omega
      rw [hfuel, replayLoop, List.append_assoc, hread]
      by_cases hnow : limits.maxRetainedBytes < s.retained + r.payload.length
      · rw [if_pos hnow]
        rfl
      · rw [if_neg hnow]
        rw [← nextSequence_push] at later
        have hpush : (s.push r).retained = s.retained + r.payload.length := rfl
        exact ih later hadmits.push (by omega) (by omega)

/-- A replay with enough fuel has read intact records, and then nothing was left, or something
that it takes for damage, or a record that it refuses. -/
theorem replayLoop_cases {fuel : Nat} (hfuel : bytes.length < fuel)
    (hrecords : s.records.length ≤ limits.maxRecords)
    (hretained : s.retained ≤ limits.maxRetainedBytes) :
    ∃ rs front rest, bytes = front ++ rest ∧
      Chunks s.previous (nextSequence s.records) front rs ∧ Admits limits s rs ∧
      s.retained + payloadBytes rs ≤ limits.maxRetainedBytes ∧
      (rest = [] ∧ replayLoop limits fuel s bytes = s.pushAll rs ∨
        rest ≠ [] ∧ replayLoop limits fuel s bytes =
          { s.pushAll rs with torn := (s.pushAll rs).torn + 1 } ∨
        (replayLoop limits fuel s bytes).refused.ok = false) := by
  induction fuel generalizing s bytes with
  | zero => omega
  | succ fuel ih =>
    rw [replayLoop]
    cases hread : readRecord limits s bytes with
    | finished =>
      have hnil : bytes = [] := by
        by_contra hne
        unfold readRecord at hread
        rw [if_neg hne] at hread
        dsimp only at hread
        split at hread
        · cases hread
        · split at hread
          · cases hread
          · split at hread
            · cases hread
            · split at hread
              · cases hread
              · split at hread
                · cases hread
                · split at hread <;> cases hread
      exact ⟨[], [], bytes, rfl, .nil, ⟨by simp, by simpa using hrecords⟩,
        by simpa using hretained, .inl ⟨hnil, rfl⟩⟩
    | torn =>
      have hne : bytes ≠ [] := by
        rintro rfl
        unfold readRecord at hread
        rw [if_pos rfl] at hread
        cases hread
      exact ⟨[], [], bytes, rfl, .nil, ⟨by simp, by simpa using hrecords⟩,
        by simpa using hretained, .inr (.inl ⟨hne, rfl⟩)⟩
    | refused r =>
      exact ⟨[], [], bytes, rfl, .nil, ⟨by simp, by simpa using hrecords⟩,
        by simpa using hretained, .inr (.inr rfl)⟩
    | record r rest =>
      obtain ⟨chunk, rfl, hchunk, hbytes, hroom, hmemory⟩ := chunk_of_readRecord hread
      have hlength : (s.push r).records.length = s.records.length + 1 := List.length_append
      have hlong := hchunk.length
      have hheader : kRecordHeaderBytes = 52 := rfl
      rw [List.length_append] at hfuel
      obtain ⟨rs, front, rest, rfl, hchunks, hadmits, hsum, hend⟩ :=
        @ih (s.push r) rest (by omega) (by omega) hmemory
      refine ⟨r :: rs, chunk ++ front, rest, (List.append_assoc ..).symm, ?_, ?_, ?_, hend⟩
      · rw [nextSequence_push] at hchunks
        exact .cons hchunk hchunks
      · have hafter := hadmits.records
        rw [hlength] at hafter
        refine ⟨?_, ?_⟩
        · intro r' hr'
          rcases List.mem_cons.mp hr' with heq | hlater
          · rw [heq]
            exact hbytes
          · exact hadmits.bytes r' hlater
        · rw [List.length_cons]
          omega
      · have hpush : (s.push r).retained = s.retained + r.payload.length := rfl
        rw [payloadBytes_cons]
        omega

end Backpressure
