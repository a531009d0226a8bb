import Backpressure.Store.Appended

/-!
# Readable files

An open repairs a torn record, but it refuses records that need more memory than it may take. A
file is readable if that does not happen wherever it is cut: records that fit into memory make it
so, and so does a file that fits as a whole.
-/

namespace Backpressure

variable {limits : JournalLimits} {s : Replay} {bytes file tail : Bytes} {r : JournalRecord}
  {rs records : List JournalRecord} {n : Nat}

/-! ## Readable files -/

theorem checkHeader_append (h : kHeaderBytes ≤ file.length) (more : Bytes) :
    checkHeader (file ++ more) = checkHeader file := by
  rw [← checkHeader_take (le_refl kHeaderBytes), List.take_append_of_le_length h,
    checkHeader_take (le_refl _)]

/-- Wherever the file is cut behind its header, an open does not refuse what is left. -/
structure Readable (limits : JournalLimits) (file : Bytes) : Prop where
  header : (checkHeader file).ok = true
  refused : ∀ n, kHeaderBytes ≤ n → (Journal.replayed limits (file.take n)).refused.ok = true

namespace Readable

theorem take (h : Readable limits file) (hn : kHeaderBytes ≤ n) :
    Readable limits (file.take n) where
  header := by
    rw [checkHeader_take hn]
    exact h.header
  refused := fun m hm => by
    rw [List.take_take]
    exact h.refused _ (le_min hm hn)

theorem long (h : Readable limits file) : kHeaderBytes ≤ file.length := long_of_checkHeader h.header

theorem whole (h : Readable limits file) : (Journal.replayed limits file).refused.ok = true := by
  have hall := h.refused file.length h.long
  rwa [List.take_length] at hall

/-- A part of what is written behind a file. -/
theorem of_append {chunk : Bytes} (h : Readable limits (file ++ chunk))
    (hlong : kHeaderBytes ≤ file.length) (n : Nat) : Readable limits (file ++ chunk.take n) := by
  rw [← List.take_length_add_append]
  exact h.take (hlong.trans (Nat.le_add_right _ _))

/-- A file of which all bytes may be kept in memory is never refused. -/
theorem of_length (hheader : (checkHeader file).ok = true)
    (hlength : file.length ≤ limits.maxRetainedBytes) : Readable limits file where
  header := hheader
  refused := fun n _ => by
    by_contra hno
    have hbound := Journal.replayLoop_bound rfl (Bool.eq_false_iff.mpr hno)
    rw [List.length_drop, List.length_take] at hbound
    have hzero : ({} : Replay).retained = 0 := rfl
    omega

end Readable

/-- Bytes at which every replay stops, wherever they are cut. -/
def Unread (limits : JournalLimits) (tail : Bytes) : Prop :=
  ∀ s n, readRecord limits s (tail.take n) = .finished ∨ readRecord limits s (tail.take n) = .torn

theorem Unread.nil : Unread limits [] := fun s n => .inl (by
  rw [List.take_nil, readRecord, if_pos rfl])

/-- Nothing is read of a record without a type. -/
theorem Unread.untyped (htype : r.type = .count) (more : Bytes) :
    Unread limits (r.encode ++ more) := by
  intro s n
  unfold readRecord
  by_cases hnil : (r.encode ++ more).take n = []
  · exact .inl (if_pos hnil)
  · rw [if_neg hnil]
    refine .inr ?_
    by_cases hshort : ((r.encode ++ more).take n).length < kRecordHeaderBytes
    · exact if_pos hshort
    · rw [if_neg hshort]
      rw [List.length_take] at hshort
      have hheader : ((r.encode ++ more).take n).take kRecordHeaderBytes = r.header := by
        rw [List.take_take, min_eq_left (by omega), List.take_append_of_le_length (by
          rw [r.length_encode]
          omega), r.take_encode]
      have hnone : ∀ previous next payload, checkRecord previous next r.header payload = none := by
        intro previous next payload
        have hraw : RecordType.ofRaw (field r.header 16 2) = none := by
          rw [r.field_type, htype]
          rfl
        unfold checkRecord
        rw [hraw]
        exact ite_self none
      dsimp only
      rw [hheader, hnone]
      simp only [ite_self]

theorem replayLoop_unread {fuel : Nat} (hs : s.refused.ok = true) (hunread : Unread limits tail) :
    (replayLoop limits fuel s (tail.take n)).refused.ok = true := by
  cases fuel with
  | zero => exact hs
  | succ fuel =>
    rw [replayLoop]
    rcases hunread s n with hread | hread
    · rw [hread]
      exact hs
    · rw [hread]
      exact hs

/-- Records that fit are read up to where they are cut. -/
theorem replayLoop_readable {fuel : Nat} (h : Chunks s.previous (nextSequence s.records) bytes rs)
    (hadmits : Admits limits s rs)
    (hretained : s.retained + payloadBytes rs ≤ limits.maxRetainedBytes)
    (hs : s.refused.ok = true) (hunread : Unread limits tail) :
    (replayLoop limits fuel s ((bytes ++ tail).take n)).refused.ok = true := by
  induction rs generalizing s bytes fuel n with
  | nil =>
    cases h
    exact replayLoop_unread hs hunread
  | cons r rs ih =>
    cases h with
    | @cons _ _ chunk bytes _ _ first later =>
      rw [payloadBytes_cons] at hretained
      cases fuel with
      | zero => exact hs
      | succ fuel =>
        rw [List.append_assoc, replayLoop]
        by_cases hcut : n < chunk.length
        · -- the record is torn
          rw [List.take_append_of_le_length hcut.le]
          have hread : readRecord limits s (chunk.take n) = .finished ∨
              readRecord limits s (chunk.take n) = .torn := readRecord_prefix first hcut
          rcases hread with hread | hread
          · rw [hread]
            exact hs
          · rw [hread]
            exact hs
        · rw [List.take_append, List.take_of_length_le (not_lt.mp hcut),
            readRecord_admitted hadmits first, if_neg (by omega)]
          rw [← nextSequence_push] at later
          have hpush : (s.push r).retained = s.retained + r.payload.length := rfl
          exact ih later hadmits.push (by omega) hs

/-- A file of records that fit is readable. -/
theorem Stored.readable (h : Stored file rs tail) (hadmits : Admits limits {} rs)
    (hretained : payloadBytes rs ≤ limits.maxRetainedBytes) (hunread : Unread limits tail) :
    Readable limits file where
  header := h.header
  refused := fun n _ => by
    obtain ⟨bytes, hbytes, hchunks⟩ := h.chunks
    rw [Journal.replayed, List.drop_take, hbytes]
    refine replayLoop_readable hchunks hadmits ?_ rfl hunread
    show 0 + payloadBytes rs ≤ _
    omega

theorem Readable.fresh : Readable limits fileHeader :=
  Stored.fresh.readable ⟨by simp, Nat.zero_le _⟩ (Nat.zero_le _) .nil

/-! ## Rewritten files -/

/-- The records before the first one without a type, which no replay reads. -/
def typed (records : List JournalRecord) : List JournalRecord :=
  records.takeWhile fun r => r.type ≠ .count

theorem typed_cons_of_ne (h : r.type ≠ .count) : typed (r :: records) = r :: typed records :=
  List.takeWhile_cons_of_pos (by simpa using h)

namespace Journal

variable {j j' : Journal} {d d' : Disk} {st : Status} {image : Bytes}

/-- The rewritten bytes are the records with a type, and bytes of which nothing is read. -/
theorem encodeAll_typed {sequence : UInt64} {previous : Digest128} {buffer : Bytes}
    (hbuffer : buffer.length ≤ limits.maxFileBytes)
    (hlengths : ∀ r ∈ typed records, r.payload.length < 256 ^ 4)
    (h : encodeAll limits records sequence previous buffer = .ok image) :
    ∃ bytes tail rs, image = buffer ++ (bytes ++ tail) ∧ Chunks previous (sequence + 1) bytes rs ∧
      Unread limits tail ∧ rs.map JournalRecord.draft = (typed records).map JournalRecord.draft ∧
      ∀ r ∈ rs, r.payload.length ≤ limits.maxRecordBytes := by
  induction records generalizing sequence previous buffer with
  | nil =>
    cases h
    exact ⟨[], [], [], (List.append_nil _).symm, .nil, .nil, rfl, by simp⟩
  | cons record rest ih =>
    rw [encodeAll] at h
    split at h
    · cases h
    case isFalse hsize =>
      dsimp only at h
      split at h
      · cases h
      case isFalse hfile =>
        by_cases htype : record.type = .count
        · -- whatever follows is not read
          obtain ⟨⟨more, rfl⟩, -⟩ := encodeAll_prefix (not_lt.mp hfile) h
          refine ⟨[], _, [], List.append_assoc _ _ _, .nil, .untyped ?_ more, ?_, by simp⟩
          · exact htype
          · rw [typed, List.takeWhile_cons_of_neg (by simpa using htype)]
        · rw [typed_cons_of_ne htype] at hlengths ⊢
          obtain ⟨bytes, tail, rs, rfl, hchunks, hunread, hdrafts, hbytes⟩ :=
            ih (not_lt.mp hfile) (fun r hr => hlengths r (List.mem_cons_of_mem record hr)) h
          have hchunk := Chunk.encode (r := { record with
            sequence := sequence + 1
            chain := chainOf previous (sequence + 1) record.type record.tick record.epoch
              record.payload }) rfl rfl htype (hlengths record List.mem_cons_self)
          refine ⟨_, tail, _ :: rs, ?_, .cons hchunk hchunks, hunread, ?_, ?_⟩
          · rw [List.append_assoc, List.append_assoc]
          · rw [List.map_cons, List.map_cons, hdrafts]
            rfl
          · intro r hr
            rcases List.mem_cons.mp hr with rfl | hr
            · exact not_lt.mp hsize
            · exact hbytes r hr

/-- A rewritten file is readable if the records that are read of it fit into memory. -/
theorem rewriteImage_readable (hvalid : j.limits.Valid)
    (hlengths : ∀ r ∈ typed records, r.payload.length < 256 ^ 4)
    (hretained : payloadBytes (typed records) ≤ j.limits.maxRetainedBytes)
    (h : j.rewriteImage records = .ok image) : Readable j.limits image := by
  unfold rewriteImage at h
  split at h
  · cases h
  case isFalse hcount =>
    obtain ⟨bytes, tail, rs, rfl, hchunks, hunread, hdrafts, hbytes⟩ :=
      encodeAll_typed (length_fileHeader.trans_le hvalid.fileBytes) hlengths h
    have hempty := Stored.fresh.append (bytes ++ tail)
    have hlength := congrArg List.length hdrafts
    rw [List.length_map, List.length_map] at hlength
    have hfew : (typed records).length ≤ records.length :=
      (List.takeWhile_prefix _).length_le
    have hsum : payloadBytes rs = payloadBytes (typed records) := by
      rw [← draftBytes_map, hdrafts, draftBytes_map]
    have hstored : Stored (fileHeader ++ (bytes ++ tail)) rs tail := by
      refine ⟨hempty.header, hempty.long, bytes, ?_, hchunks⟩
      rw [List.drop_append_of_le_length length_fileHeader.ge,
        List.drop_eq_nil_of_le length_fileHeader.le, List.nil_append]
    refine hstored.readable ⟨hbytes, ?_⟩ (hsum.trans_le hretained) hunread
    show 0 + rs.length ≤ j.limits.maxRecords
    omega

theorem encodeAll_length {sequence : UInt64} {previous : Digest128} {buffer : Bytes}
    (h : encodeAll limits records sequence previous buffer = .ok image) :
    image.length =
      buffer.length + (records.length * kRecordHeaderBytes + payloadBytes records) := by
  induction records generalizing sequence previous buffer with
  | nil =>
    cases h
    rw [List.length_nil, Nat.zero_mul, payloadBytes_nil]
    rfl
  | cons record rest ih =>
    rw [encodeAll] at h
    split at h
    · cases h
    dsimp only at h
    split at h
    · cases h
    · rw [ih h, List.length_append, JournalRecord.length_encode, List.length_cons,
        payloadBytes_cons, Nat.add_mul]
      dsimp only
      omega

/-- A rewritten file of which all bytes may be kept in memory is readable. -/
theorem rewriteImage_fits (hvalid : j.limits.Valid)
    (hfits : imageBytes records ≤ j.limits.maxRetainedBytes)
    (h : j.rewriteImage records = .ok image) : Readable j.limits image := by
  unfold rewriteImage at h
  split at h
  · cases h
  have hlength := encodeAll_length h
  obtain ⟨⟨bytes, rfl⟩, -⟩ := encodeAll_prefix (length_fileHeader.trans_le hvalid.fileBytes) h
  refine .of_length (Stored.fresh.append bytes).header ?_
  rw [hlength, length_fileHeader]
  exact hfits

theorem seekEnd_limits (j : Journal) (offset : Nat) (d : Disk) :
    (j.seekEnd offset d).2.1.limits = j.limits := by
  unfold seekEnd
  split <;> rfl

theorem replayFile_limits (j : Journal) (d : Disk) : (j.replayFile d).2.1.limits = j.limits := by
  unfold replayFile
  split
  · rfl
  dsimp only
  split
  · rfl
  split
  · rfl
  split
  · split
    · rfl
    · exact seekEnd_limits _ _ _
  · exact seekEnd_limits _ _ _

/-- A live journal has a readable file. -/
theorem Live.readable (h : j.Live d) : Readable j.limits d.bytes :=
  h.holds.stored.readable h.admits h.retained .nil

/-- A live journal after an append that its checks let through. -/
theorem Live.appended {type : RecordType} {tick : Tick} {epoch : Epoch} {payload : Bytes}
    (h : j.Live d) (hcheck : (j.checkAppend type payload).ok = true)
    (hlength : payload.length < 256 ^ 4) :
    (j.push (j.nextRecord type tick epoch payload)).Live
      (d.next.write (j.nextRecord type tick epoch payload).encode) := by
  obtain ⟨-, htype, hbytes, hrecords, hfile, hretained⟩ := checkAppend_ok.mp hcheck
  have hdraft : draftBytes [⟨type, tick, epoch, payload⟩] = payload.length := Nat.add_zero _
  exact @Live.push j d ⟨type, tick, epoch, payload⟩ [] h {
    types := by simpa using htype
    lengths := by simpa using hlength
    bytes := by simpa using hbytes
    records := hrecords
    file := by
      rw [hdraft, List.length_singleton, Nat.one_mul]
      exact hfile
    retained := by
      rw [hdraft]
      exact hretained }

end Journal

end Backpressure
