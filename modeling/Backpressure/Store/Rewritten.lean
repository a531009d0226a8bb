import Backpressure.Store.Rewrite

/-!
# A rewrite that succeeds

The rewritten file holds the records that were asked for, under new sequence numbers and a new
chain, and the journal is live again.
-/

namespace Backpressure

namespace Journal

variable {limits : JournalLimits} {j j' : Journal} {d d' : Disk} {st : Status}
  {records : List JournalRecord}

/-- The rewritten bytes hold the drafts of the records. -/
theorem encodeAll_chunks {sequence : UInt64} {previous : Digest128} {buffer image : Bytes}
    (htypes : ∀ r ∈ records, r.type ≠ .count) (hlengths : ∀ r ∈ records, r.payload.length < 256 ^ 4)
    (h : encodeAll limits records sequence previous buffer = .ok image) :
    ∃ bytes rs, image = buffer ++ bytes ∧ Chunks previous (sequence + 1) bytes rs ∧
      rs.map JournalRecord.draft = records.map JournalRecord.draft ∧
      ∀ r ∈ rs, r.payload.length ≤ limits.maxRecordBytes := by
  induction records generalizing sequence previous buffer with
  | nil =>
    cases h
    exact ⟨[], [], (List.append_nil _).symm, .nil, rfl, by simp⟩
  | cons record rest ih =>
    rw [encodeAll] at h
    split at h
    · cases h
    case isFalse hsize =>
      dsimp only at h
      split at h
      · cases h
      · obtain ⟨bytes, rs, rfl, hchunks, hdrafts, hbytes⟩ :=
          ih (fun r hr => htypes r (List.mem_cons_of_mem record hr))
            (fun r hr => hlengths r (List.mem_cons_of_mem record hr)) h
        refine ⟨_, _ :: rs, List.append_assoc _ _ _, .cons (Chunk.encode rfl rfl
          (htypes record List.mem_cons_self) (hlengths record List.mem_cons_self)) hchunks, ?_, ?_⟩
        · rw [List.map_cons, List.map_cons, hdrafts]
          rfl
        · intro r hr
          rcases List.mem_cons.mp hr with rfl | hr
          · exact not_lt.mp hsize
          · exact hbytes r hr

/-- The bytes of a rewrite are a journal. -/
theorem rewriteImage_stored {image : Bytes} (htypes : ∀ r ∈ records, r.type ≠ .count)
    (hlengths : ∀ r ∈ records, r.payload.length < 256 ^ 4)
    (h : j.rewriteImage records = .ok image) :
    ∃ rs, Stored image rs [] ∧ rs.map JournalRecord.draft = records.map JournalRecord.draft ∧
      Admits j.limits {} rs := by
  unfold rewriteImage at h
  split at h
  · cases h
  case isFalse hcount =>
    obtain ⟨bytes, rs, rfl, hchunks, hdrafts, hbytes⟩ := encodeAll_chunks htypes hlengths h
    have hempty := Stored.fresh.append bytes
    have hlength := congrArg List.length hdrafts
    rw [List.length_map, List.length_map] at hlength
    refine ⟨rs, ⟨hempty.header, hempty.long, bytes, ?_, hchunks⟩, hdrafts, hbytes, ?_⟩
    · rw [List.drop_append_of_le_length length_fileHeader.ge,
        List.drop_eq_nil_of_le length_fileHeader.le, List.nil_append, List.append_nil]
    · show 0 + rs.length ≤ j.limits.maxRecords
      omega

/-- A replay of a whole journal that succeeds has read all of it and changed nothing. -/
theorem replayFile_whole {rs : List JournalRecord} (h : j.replayFile d = (st, j', d'))
    (hst : st.ok = true) (hstored : Stored d.bytes rs []) (hadmits : Admits j.limits {} rs) :
    d' = d.next.next ∧ j'.records = rs ∧ j'.Holds d.bytes [] ∧ j'.limits = j.limits ∧
      j'.isOpen = j.isOpen ∧ payloadBytes rs ≤ j.limits.maxRetainedBytes := by
  cases hfault : d.fault with
  | some k =>
    unfold replayFile at h
    rw [hfault] at h
    cases h
    cases hst
  | none =>
    by_cases hretained : payloadBytes rs ≤ j.limits.maxRetainedBytes
    · cases hnext : d.next.fault with
      | none =>
        obtain ⟨j₁, hreplay, hrecords, hlimits, hopen, hholds⟩ :=
          replayFile_all hstored hadmits hretained hfault hnext
        rw [h] at hreplay
        cases hreplay
        exact ⟨rfl, hrecords, hholds, hlimits, hopen, hretained⟩
      | some k =>
        exfalso
        have hall := hstored.replayed_all hadmits hretained
        have hoffset : (Replay.pushAll {} rs).offset = imageBytes rs := Replay.offset_pushAll
        have hrefused : (Replay.pushAll {} rs).refused = .success := Replay.refused_pushAll
        have hlength := hstored.length
        rw [List.length_nil, Nat.add_zero] at hlength
        unfold replayFile at h
        rw [hfault] at h
        dsimp only at h
        rw [Disk.bytes_next, hstored.header, Bool.not_true, if_neg (by decide), hall, hrefused,
          Status.ok_success, Bool.not_true, if_neg (by decide), hoffset, if_neg (by omega), seekEnd,
          hnext] at h
        cases h
        cases hst
    · exfalso
      have hno := hstored.replayed_refused hadmits (not_le.mp hretained)
      unfold replayFile at h
      rw [hfault] at h
      dsimp only at h
      rw [Disk.bytes_next, hstored.header, Bool.not_true, if_neg (by decide), hno, Bool.not_false,
        if_pos rfl] at h
      cases h
      rw [hno] at hst
      cases hst

/-- A rewrite that succeeds has read back what it encoded. -/
theorem rewrite_replays (h : j.rewrite records d = (st, j', d')) (hst : st.ok = true) :
    ∃ image, j.rewriteImage records = .ok image ∧
      replayFile { limits := j.limits, isOpen := true } (d.next.replace image).next =
        (st, j', d') := by
  rcases rewrite_cases h with ⟨hno, -⟩ | ⟨image, himage, ⟨hno, -⟩ | ⟨-, ⟨hno, -⟩ | hreplay⟩⟩
  · rw [hst] at hno
    cases hno
  · rw [hst] at hno
    cases hno
  · rw [hst] at hno
    cases hno
  · exact ⟨image, himage, hreplay⟩

theorem rewrite_ok (h : j.rewrite records d = (st, j', d')) (hst : st.ok = true)
    (hvalid : j.limits.Valid) (htypes : ∀ r ∈ records, r.type ≠ .count)
    (hlengths : ∀ r ∈ records, r.payload.length < 256 ^ 4) :
    ∃ image, j.rewriteImage records = .ok image ∧ d' = (d.next.replace image).next.next.next ∧
      j'.records.map JournalRecord.draft = records.map JournalRecord.draft ∧ j'.Live d' ∧
      j'.limits = j.limits := by
  obtain ⟨image, himage, hreplay⟩ := rewrite_replays h hst
  obtain ⟨rs, hstored, hdrafts, hadmits⟩ := rewriteImage_stored htypes hlengths himage
  obtain ⟨rfl, hrecords, hholds, hlimits, hopen, hretained⟩ :=
    replayFile_whole hreplay hst hstored hadmits
  refine ⟨image, himage, rfl, ?_, ⟨hopen, ?_, hholds, ?_, ?_⟩, hlimits⟩
  · rw [hrecords]
    exact hdrafts
  · rw [hlimits]
    exact hvalid
  · rw [hlimits, hrecords]
    exact hadmits
  · rw [hlimits, hrecords]
    exact hretained

end Journal

end Backpressure
