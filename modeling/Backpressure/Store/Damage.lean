import Backpressure.Core.Checksum
import Backpressure.Store.Intact

/-!
# One damaged byte

The checksum of a record covers everything behind itself. A byte that is replaced there, or in the
checksum, makes the replay end in front of the record, whatever the chain digest would say.
-/

namespace Backpressure

open Lib (LittleEndian.encode LittleEndian.decode)

variable {limits : JournalLimits} {s : Replay} {bytes chunk rest file tail : Bytes} {b : UInt8} {i : Nat}
  {previous : Digest128} {next : UInt64} {r : JournalRecord} {rs : List JournalRecord}

/-- A checksum that is taken in two parts. -/
theorem crc32_append (front back : Bytes) : crc32Update (crc32 front) back = crc32 (front ++ back) := by
  unfold crc32 crc32Update
  rw [UInt32.not_not, List.foldl_append]

/-- Numbers of as many bytes are equal for equal bytes alone. -/
theorem decode_injective {a b : Bytes} (hlength : a.length = b.length)
    (h : LittleEndian.decode a = LittleEndian.decode b) : a = b := by
  rw [← Lib.LittleEndian.encode_decode a, ← Lib.LittleEndian.encode_decode b, hlength, h]

/-- The checksum that a record carries is that of the bytes behind it. -/
theorem Chunk.checksum (h : Chunk previous next chunk r) :
    crc32 (chunk.drop 8) = .ofNat (field chunk 4 4) := by
  have hchecked := h.checked
  have hlong := h.long
  unfold checkRecord at hchecked
  split at hchecked
  · cases hchecked
  case isFalse hcrc =>
    have hsplit : (chunk.take kRecordHeaderBytes).drop 8 ++ r.payload = chunk.drop 8 := by
      have hheader : kRecordHeaderBytes = 52 := rfl
      rw [← h.payload, ← List.drop_append_of_le_length, List.take_append_drop]
      rw [List.length_take]
      omega
    rw [← hsplit, ← crc32_append, not_not.mp hcrc, field_take (by decide)]

/-- A checksum that does not fit keeps the record from being read. -/
theorem readRecord_torn (hlong : kRecordHeaderBytes ≤ bytes.length)
    (hcrc : crc32 ((bytes.drop 8).take (kRecordHeaderBytes - 8 + field bytes 0 4)) ≠
      .ofNat (field bytes 4 4)) : readRecord limits s bytes = .torn := by
  have hne : bytes ≠ [] := by
    rintro rfl
    exact absurd hlong (by decide)
  have hsize : field (bytes.take kRecordHeaderBytes) 0 4 = field bytes 0 4 := field_take (by decide)
  have hcheck : checkRecord s.previous (nextSequence s.records) (bytes.take kRecordHeaderBytes)
      ((bytes.drop kRecordHeaderBytes).take (field bytes 0 4)) = none := by
    unfold checkRecord
    rw [crc32_append, field_take (by decide)]
    refine if_pos fun heq => hcrc (Eq.trans (congrArg crc32 ?_) heq)
    rw [List.drop_take, List.take_add, List.drop_drop]
    rfl
  unfold readRecord
  rw [if_neg hne, if_neg (not_lt.mpr hlong)]
  dsimp only
  rw [hsize, hcheck]
  split_ifs <;> rfl

/-- The bytes of a record with another byte behind the length. -/
theorem Chunk.damaged (h : Chunk previous next chunk r) (hfrom : 4 ≤ i) (hi : i < chunk.length)
    (hne : b ≠ chunk[i]) : crc32 ((chunk.set i b).drop 8) ≠ .ofNat (field (chunk.set i b) 4 4) := by
  have hchecksum := h.checksum
  have hlong := h.long
  by_cases hcrc : i < 8
  · -- the checksum itself is another number
    rw [List.drop_set_of_lt hcrc, hchecksum]
    intro hsame
    have hlt (l : Bytes) : field l 4 4 < 2 ^ 32 := Lib.LittleEndian.decode_take_lt 4 _
    have hfield := congrArg UInt32.toNat hsame
    rw [UInt32.toNat_ofNat_of_lt' (hlt _), UInt32.toNat_ofNat_of_lt' (hlt _)] at hfield
    have hbytes := decode_injective (by simp) hfield
    have hget := congrArg (fun l => l[i - 4]?) hbytes
    have hplace : 4 + (i - 4) = i := by omega
    simp only [List.getElem?_take, List.getElem?_drop, if_pos (show i - 4 < 4 by omega), hplace] at hget
    rw [List.getElem?_set_self hi, List.getElem?_eq_getElem hi] at hget
    exact hne (Option.some.inj hget).symm
  · have hfield : field (chunk.set i b) 4 4 = field chunk 4 4 := by
      unfold field
      rw [List.drop_set, if_neg (by omega), List.take_set_of_le (by omega)]
    rw [hfield, ← hchecksum, List.drop_set, if_neg hcrc]
    have hin : i - 8 < (chunk.drop 8).length := by
      rw [List.length_drop]
      omega
    refine crc32_set_ne hin ?_
    rw [List.getElem_drop]
    convert hne using 2
    omega

/-- A damaged record is not read, nor anything behind it. -/
theorem readRecord_damaged (h : Chunk previous next chunk r) (hfrom : 4 ≤ i) (hi : i < chunk.length)
    (hne : b ≠ chunk[i]) (rest : Bytes) :
    readRecord limits s (chunk.set i b ++ rest) = .torn := by
  have hlong := h.long
  have hlength := h.length
  have hsize : field (chunk.set i b ++ rest) 0 4 = r.payload.length := by
    rw [← h.size, ← @field_take _ 0 4 4 (by decide), ← @field_take chunk 0 4 4 (by decide),
      List.take_append_of_le_length (by rw [List.length_set]; unfold kRecordHeaderBytes at hlong; omega),
      List.take_set_of_le hfrom]
  have hcrc : field (chunk.set i b ++ rest) 4 4 = field (chunk.set i b) 4 4 := by
    rw [← @field_take _ 4 4 8 (by decide), ← @field_take (chunk.set i b) 4 4 8 (by decide),
      List.take_append_of_le_length (by rw [List.length_set]; unfold kRecordHeaderBytes at hlong; omega)]
  apply readRecord_torn
  · rw [List.length_append, List.length_set]
    omega
  · have hbehind : ((chunk.set i b ++ rest).drop 8).take (kRecordHeaderBytes - 8 + r.payload.length) =
        (chunk.set i b).drop 8 := by
      rw [List.drop_append_of_le_length (by rw [List.length_set]; unfold kRecordHeaderBytes at hlong; omega)]
      refine List.take_left' ?_
      rw [List.length_drop, List.length_set, hlength, kRecordHeaderBytes]
      omega
    rw [hsize, hcrc, hbehind]
    exact h.damaged hfrom hi hne

/-! ## A damaged file -/

/-- A byte is replaced behind the records. -/
theorem Stored.set (h : Stored file rs tail) (i : Nat) (b : UInt8) :
    Stored (file.set (imageBytes rs + i) b) rs (tail.set i b) := by
  obtain ⟨bytes, hbytes, hchunks⟩ := h.chunks
  have himage : imageBytes rs = kHeaderBytes + bytes.length := by rw [hchunks.length, imageBytes]
  refine ⟨?_, ?_, bytes, ?_, hchunks⟩
  · rw [← checkHeader_take (le_refl kHeaderBytes), List.take_set_of_le (by omega),
      checkHeader_take (le_refl _)]
    exact h.header
  · rw [List.length_set]
    exact h.long
  · rw [List.drop_set, if_neg (by omega), hbytes, List.set_append_right _ _ (by omega)]
    congr 2
    omega

/-- The replay of a file with a damaged record behind records that fit. -/
theorem Stored.replayed_damaged (h : Stored file rs (chunk ++ rest))
    (hchunk : Chunk previous next chunk r) (hadmits : Admits limits {} rs)
    (hretained : payloadBytes rs ≤ limits.maxRetainedBytes) (hfrom : 4 ≤ i) (hi : i < chunk.length)
    (hne : b ≠ chunk[i]) : Journal.replayed limits (file.set (imageBytes rs + i) b) =
      { Replay.pushAll {} rs with torn := 1 } := by
  have hdamaged := h.set i b
  rw [List.set_append_left _ _ hi] at hdamaged
  obtain ⟨fuel, hfuel, hreplayed⟩ := hdamaged.replayed hadmits hretained
  rw [hreplayed]
  cases fuel with
  | zero => cases hfuel
  | succ fuel =>
    rw [replayLoop, readRecord_damaged hchunk hfrom hi hne]
    dsimp only
    rw [Replay.torn_pushAll]

namespace Journal

variable {j : Journal} {d d' : Disk}

/-- Without a failure of the file system, a replay that refuses no record succeeds. -/
theorem replayFile_ok (hfaults : d.faults = []) (hheader : (checkHeader d.bytes).ok = true)
    (hrefused : (replayed j.limits d.bytes).refused.ok = true) : (j.replayFile d).1.ok = true := by
  have hfault : ∀ d : Disk, d.faults = [] → d.fault = none := fun d hd => by
    rw [Disk.fault, hd]
    rfl
  have hnext : d.next.faults = [] := congrArg List.tail hfaults
  unfold replayFile
  rw [hfault d hfaults]
  dsimp only
  rw [Disk.bytes_next, hheader, Bool.not_true, if_neg (by decide), hrefused, Bool.not_true,
    if_neg (by decide)]
  split
  · rw [hfault _ hnext]
    dsimp only
    have hcut : (d.next.next.become (some (d.bytes.take (replayed j.limits d.bytes).offset))
        (min d.next.synced (replayed j.limits d.bytes).offset)).fault = none :=
      hfault _ (congrArg List.tail hnext)
    unfold seekEnd
    rw [hcut]
    rfl
  · unfold seekEnd
    rw [hfault _ hnext]
    rfl

/-- And so does the open of the file. -/
theorem openAt_ok_of_replayed {limits : JournalLimits} {again : Bool} (hvalid : limits.Valid)
    (hfile : d.file.isSome = true) (hfaults : d.faults = [])
    (hheader : (checkHeader d.bytes).ok = true)
    (hrefused : (replayed limits d.bytes).refused.ok = true) :
    ∃ j, (openAt limits again d).1 = .ok j := by
  have hfault : d.fault = none := by
    rw [Disk.fault, hfaults]
    rfl
  have hok := @replayFile_ok { limits, isOpen := true } d.next (congrArg List.tail hfaults) hheader
    hrefused
  rw [openAt_existing hvalid hfile hfault]
  rcases hreplay : replayFile { limits, isOpen := true } d.next with ⟨st, j, d'⟩
  rw [hreplay] at hok
  dsimp only at hok ⊢
  rw [if_pos hok]
  exact ⟨j, rfl⟩

/-- One byte of a record of a live journal is replaced, behind the length: an open with the same
limits reads the records before it. -/
theorem Live.open_damaged (h : j.Live d) {front back : List JournalRecord}
    (hrecords : j.records = front ++ r :: back) (hfrom : 4 ≤ i)
    (hi : i < kRecordHeaderBytes + r.payload.length)
    (hne : d.bytes[imageBytes front + i]? ≠ some b) {again : Bool} {d₂ : Disk}
    (hfile : d₂.file = some (d.bytes.set (imageBytes front + i) b)) :
    (∀ j₂, (openAt j.limits again d₂).1 = .ok j₂ → j₂.records = front) ∧
      (d₂.faults = [] → ∃ j₂, (openAt j.limits again d₂).1 = .ok j₂) := by
  have hstored := h.holds.stored
  have hadmits := h.admits
  have hretained := h.retained
  rw [hrecords] at hstored hadmits hretained
  obtain ⟨bytes, hfront, hback⟩ := hstored.front
  have hlength := hfront.length
  rw [List.append_nil] at hfront
  cases hback with
  | @cons _ _ chunk rest _ _ hchunk later =>
    have hin : i < chunk.length := by
      rw [hchunk.length]
      exact hi
    have hbyte : b ≠ chunk[i] := by
      rintro rfl
      refine hne ?_
      obtain ⟨read, hread, hchunks⟩ := hfront.chunks
      have himage : imageBytes front = kHeaderBytes + read.length := by rw [hchunks.length, imageBytes]
      have hat : d.bytes[imageBytes front + i]? = (d.bytes.drop kHeaderBytes)[read.length + i]? := by
        rw [List.getElem?_drop, himage, Nat.add_assoc]
      rw [hat, hread, List.getElem?_append_right (by omega), Nat.add_sub_cancel_left,
        List.getElem?_append_left hin, List.getElem?_eq_getElem hin]
    have hadmits : Admits j.limits {} front := by
      refine ⟨fun r' hr' => hadmits.bytes r' (List.mem_append_left _ hr'), ?_⟩
      have hcount := hadmits.records
      rw [List.length_append] at hcount
      omega
    rw [payloadBytes_append] at hretained
    have hread := hfront.replayed_damaged hchunk hadmits (by omega) hfrom hin hbyte
    have hbytes : d₂.bytes = d.bytes.set (imageBytes front + i) b := by rw [Disk.bytes, hfile]; rfl
    rw [← hbytes] at hread
    have hall : (replayed j.limits d₂.bytes).records = front := by
      rw [hread]
      exact Replay.records_pushAll
    constructor
    · intro j₂ hj₂
      rcases hopen : openAt j.limits again d₂ with ⟨result, d₃⟩
      rw [hopen] at hj₂
      rcases openAt_cases hopen with ⟨⟨st, herror⟩, -⟩ |
        ⟨j₀, d₀, st, j', -, -, hd, hlimits, -, hreplay, hend⟩
      · rw [herror] at hj₂
        cases hj₂
      · have hd₀ : d₀ = d₂.next := by
          rcases hd with ⟨-, heq⟩ | ⟨hnone, -⟩
          · exact heq
          · rw [hfile] at hnone
            cases hnone
        rcases hend with ⟨hst, hok⟩ | ⟨-, st', herror⟩
        · rw [hok] at hj₂
          cases hj₂
          rcases replayFile_cases hreplay with ⟨hno, -⟩ | ⟨rs, tail, -, -, hrs, -, -, -, -, -, -, hsuccess⟩
          · rw [hno] at hst
            cases hst
          · rw [(hsuccess hst).1, hrs, hlimits, hd₀]
            exact hall
        · rw [herror] at hj₂
          cases hj₂
    · intro hfaults
      have hheader : (checkHeader d₂.bytes).ok = true := hbytes ▸ (hfront.set i b).header
      have hrefused : (replayed j.limits d₂.bytes).refused.ok = true := by
        rw [hread]
        show (Replay.pushAll {} front).refused.ok = true
        rw [Replay.refused_pushAll]
        rfl
      exact openAt_ok_of_replayed h.valid (by rw [hfile]; rfl) hfaults hheader hrefused

/-- An intact journal is one that an open reads without changing its file. When a byte of a record
is replaced by another one, from the checksum on, an open with the same limits returns exactly the
records before, and without a failure of the file system it returns them. -/
theorem damage_localised (limits : JournalLimits) (create : Bool) (d d' : Disk) (j : Journal)
    (hopen : openAt limits create d = (.ok j, d')) (hintact : d'.file = d.file) (k : Nat)
    (r : JournalRecord) (hr : j.records[k]? = some r) (i : Nat) (hfrom : 4 ≤ i)
    (hi : i < kRecordHeaderBytes + r.payload.length) (b : UInt8)
    (hne : d.bytes[imageBytes (j.records.take k) + i]? ≠ some b) (again : Bool) (d₂ : Disk)
    (hfile : d₂.file = some (d.bytes.set (imageBytes (j.records.take k) + i) b)) :
    (∀ j₂, (openAt limits again d₂).1 = .ok j₂ → j₂.records = j.records.take k) ∧
      (d₂.faults = [] → ∃ j₂, (openAt limits again d₂).1 = .ok j₂) := by
  obtain ⟨hlive, rfl⟩ := openAt_live hopen
  have hbytes : d'.bytes = d.bytes := by rw [Disk.bytes, hintact, Disk.bytes]
  obtain ⟨hk, rfl⟩ := List.getElem?_eq_some_iff.mp hr
  have hsplit : j.records = j.records.take k ++ j.records[k] :: j.records.drop (k + 1) := by
    rw [← List.drop_eq_getElem_cons hk, List.take_append_drop]
  rw [← hbytes] at hne hfile
  exact hlive.open_damaged hsplit hfrom hi hne hfile

/-- The checksum of the second of two records is damaged. -/
theorem second_not_returned : ∃ d j d' b, openAt {} false d = (.ok j, d') ∧ j.records.length = 2 ∧
    ∃ j₂, (openAt {} false { d with
        file := some (d.bytes.set (imageBytes (j.records.take 1) + 4) b) }).1 = .ok j₂ ∧
      j₂.records = j.records.take 1 := by
  obtain ⟨j₀, d, hwritten, htwo, hfaults, hpayload⟩ := written_two
  have hlengths : ∀ r ∈ j₀.records, r.payload.length = 0 := fun r hr => by rw [hpayload r hr]; rfl
  have hholds : j₀.Holds d.bytes [] :=
    hwritten.holds fun r hr => by rw [hlengths r hr]; decide
  have hfault : ∀ d : Disk, d.faults = [] → d.fault = none := fun d hd => by
    rw [Disk.fault, hd]
    rfl
  have hnext : d.next.faults = [] := congrArg List.tail hfaults
  have hadmits : Admits {} {} j₀.records := by
    refine ⟨fun r hr => ?_, ?_⟩
    · rw [hlengths r hr]
      exact Nat.zero_le _
    · rw [htwo]
      decide
  have hempty : payloadBytes j₀.records = 0 :=
    List.sum_eq_zero fun n hn => by
      obtain ⟨r, hr, rfl⟩ := List.mem_map.mp hn
      exact hlengths r hr
  obtain ⟨j, hreplay, hrecords, -⟩ := replayFile_all (j := { isOpen := true }) (d := d.next)
    hholds.stored hadmits (by rw [hempty]; exact Nat.zero_le _) (hfault _ hnext)
    (hfault _ (congrArg List.tail hnext))
  have hvalid : ({} : JournalLimits).Valid := ⟨by decide, by decide, by decide⟩
  have hopen : openAt {} false d = (.ok j, d.next.next.next) := by
    rw [openAt_existing hvalid (Disk.isSome_of_stored hholds.stored) (hfault d hfaults), hreplay]
    rfl
  rw [← hrecords] at htwo hlengths
  have hsecond : j.records[1]? = some j.records[1] := List.getElem?_eq_getElem _
  have hdamaged := damage_localised {} false d _ j hopen rfl 1 _ hsecond 4 (by decide) (by
    rw [kRecordHeaderBytes]
    omega)
  obtain ⟨b, hb⟩ : ∃ b, d.bytes[imageBytes (j.records.take 1) + 4]? ≠ some b := by
    cases d.bytes[imageBytes (j.records.take 1) + 4]? with
    | none => exact ⟨0, by simp⟩
    | some b =>
      refine ⟨b + 1, fun hsame => ?_⟩
      have hnat := congrArg UInt8.toNat (Option.some.inj hsame)
      rw [UInt8.toNat_add, UInt8.toNat_one] at hnat
      omega
  obtain ⟨hread, hexists⟩ := hdamaged b hb false { d with
    file := some (d.bytes.set (imageBytes (j.records.take 1) + 4) b) } rfl
  obtain ⟨j₂, hj₂⟩ := hexists hfaults
  exact ⟨d, j, _, b, hopen, htwo, j₂, hj₂, hread j₂ hj₂⟩

end Journal

end Backpressure
