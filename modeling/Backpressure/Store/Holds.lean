import Backpressure.Store.Replay

/-!
# The journal and its file

An open journal holds what its file says: the records are the intact records behind the header,
and size, sequence, chain and memory are those of the records. Opening establishes this, and an
append that finds the file without a torn end keeps it.
-/

namespace Backpressure

variable {limits : JournalLimits} {file tail : Bytes} {rs : List JournalRecord}

/-- A file that holds the records, and bytes behind them. -/
structure Stored (file : Bytes) (rs : List JournalRecord) (tail : Bytes) : Prop where
  header : (checkHeader file).ok = true
  long : kHeaderBytes ≤ file.length
  chunks : ∃ bytes, file.drop kHeaderBytes = bytes ++ tail ∧ Chunks {} 1 bytes rs

/-- The bytes that the header and the records take. -/
def imageBytes (rs : List JournalRecord) : Nat :=
  kHeaderBytes + (rs.length * kRecordHeaderBytes + payloadBytes rs)

@[simp] theorem imageBytes_nil : imageBytes [] = kHeaderBytes := rfl

theorem imageBytes_append (rs rs' : List JournalRecord) :
    imageBytes (rs ++ rs') =
      imageBytes rs + (rs'.length * kRecordHeaderBytes + payloadBytes rs') := by
  rw [imageBytes, imageBytes, List.length_append, payloadBytes_append, Nat.add_mul]
  omega

theorem imageBytes_mono {rs rs' : List JournalRecord} (h : rs <+: rs') :
    imageBytes rs ≤ imageBytes rs' := by
  obtain ⟨more, rfl⟩ := h
  rw [imageBytes_append]
  omega

/-- The header is checked by its first bytes alone. -/
theorem checkHeader_take {n : Nat} (h : kHeaderBytes ≤ n) :
    checkHeader (file.take n) = checkHeader file := by
  unfold checkHeader
  rw [List.take_take, min_eq_left h]

theorem checkHeader_fileHeader : (checkHeader fileHeader).ok = true := by decide +kernel

@[simp] theorem length_fileHeader : fileHeader.length = kHeaderBytes := by
  simp [fileHeader, headerFields, kMagic, kHeaderBytes]

/-- A file with a short header is not opened. -/
theorem long_of_checkHeader (h : (checkHeader file).ok = true) : kHeaderBytes ≤ file.length := by
  unfold checkHeader at h
  dsimp only at h
  rw [Status.ok_guard (by decide)] at h
  have hlength := not_not.mp h.1
  rw [List.length_take] at hlength
  omega

namespace Stored

theorem length (h : Stored file rs tail) : file.length = imageBytes rs + tail.length := by
  obtain ⟨bytes, hbytes, hchunks⟩ := h.chunks
  have hlength := congrArg List.length hbytes
  rw [List.length_drop, List.length_append, hchunks.length] at hlength
  have hlong := h.long
  rw [imageBytes]
  omega

theorem fresh : Stored fileHeader [] [] where
  header := checkHeader_fileHeader
  long := length_fileHeader.ge
  chunks := ⟨[], by rw [List.drop_eq_nil_of_le length_fileHeader.le]; rfl, .nil⟩

/-- Bytes written behind the end. -/
theorem append (h : Stored file rs tail) (more : Bytes) :
    Stored (file ++ more) rs (tail ++ more) := by
  obtain ⟨bytes, hbytes, hchunks⟩ := h.chunks
  have hlong := h.long
  refine ⟨?_, ?_, bytes, ?_, hchunks⟩
  · rw [← checkHeader_take (le_refl kHeaderBytes), List.take_append_of_le_length hlong,
      checkHeader_take (le_refl _)]
    exact h.header
  · rw [List.length_append]
    omega
  · rw [List.drop_append_of_le_length hlong, hbytes, List.append_assoc]

/-- An intact record written behind the last one. -/
theorem snoc {r : JournalRecord} {chunk : Bytes} (h : Stored file rs [])
    (hchunk : Chunk (lastChain {} rs) (afterSequence 1 rs) chunk r) :
    Stored (file ++ chunk) (rs ++ [r]) [] := by
  obtain ⟨bytes, hbytes, hchunks⟩ := h.chunks
  obtain ⟨hheader, hlong, -⟩ := h.append chunk
  refine ⟨hheader, hlong, bytes ++ chunk, ?_, hchunks.snoc hchunk⟩
  rw [List.append_nil] at hbytes
  rw [List.drop_append_of_le_length h.long, hbytes, List.append_nil]

/-- The first records of a file, with the bytes of the others behind them. -/
theorem front {rs' : List JournalRecord} (h : Stored file (rs ++ rs') tail) :
    ∃ bytes, Stored file rs (bytes ++ tail) ∧
      Chunks (lastChain {} rs) (afterSequence 1 rs) bytes rs' := by
  obtain ⟨bytes, hbytes, hchunks⟩ := h.chunks
  obtain ⟨bytes₁, bytes₂, rfl, hfront, hback⟩ := hchunks.split
  refine ⟨bytes₂, ⟨h.header, h.long, bytes₁, ?_, hfront⟩, hback⟩
  rw [hbytes, List.append_assoc]

/-- A cut behind the records. -/
theorem take {n : Nat} (h : Stored file rs tail) (hn : imageBytes rs ≤ n) :
    Stored (file.take n) rs (tail.take (n - imageBytes rs)) := by
  obtain ⟨bytes, hbytes, hchunks⟩ := h.chunks
  have hlong := h.long
  have hlength := hchunks.length
  have himage : imageBytes rs = kHeaderBytes + bytes.length := by rw [hlength, imageBytes]
  refine ⟨?_, ?_, bytes, ?_, hchunks⟩
  · rw [checkHeader_take (by omega)]
    exact h.header
  · rw [List.length_take]
    omega
  · rw [List.drop_take, hbytes, List.take_append, List.take_of_length_le (by omega)]
    congr 2
    omega

/-- Every record takes more bytes than the one step that reads it. -/
theorem fuel (h : Stored file rs tail) : ∃ n, file.length + 1 = rs.length + n ∧ tail.length < n := by
  have hlength := h.length
  refine ⟨file.length + 1 - rs.length, ?_, ?_⟩
  · rw [hlength, imageBytes, kRecordHeaderBytes]
    omega
  · rw [hlength, imageBytes, kRecordHeaderBytes]
    omega

/-- What is read of a file with records that fit is what a replay behind them reads. -/
theorem replayed (h : Stored file rs tail) (hadmits : Admits limits {} rs)
    (hretained : payloadBytes rs ≤ limits.maxRetainedBytes) :
    ∃ fuel, tail.length < fuel ∧
      Journal.replayed limits file = replayLoop limits fuel (Replay.pushAll {} rs) tail := by
  obtain ⟨bytes, hbytes, hchunks⟩ := h.chunks
  obtain ⟨n, hfuel, hn⟩ := h.fuel
  have hretained' : ({} : Replay).retained + payloadBytes rs ≤ limits.maxRetainedBytes := by
    show 0 + payloadBytes rs ≤ _
    omega
  refine ⟨n, hn, ?_⟩
  rw [Journal.replayed, hbytes, hfuel]
  exact replayLoop_chunks hchunks hadmits hretained'

/-- A file that ends behind records that fit is read as a whole. -/
theorem replayed_all (h : Stored file rs []) (hadmits : Admits limits {} rs)
    (hretained : payloadBytes rs ≤ limits.maxRetainedBytes) :
    Journal.replayed limits file = Replay.pushAll {} rs := by
  obtain ⟨fuel, hfuel, hreplayed⟩ := h.replayed hadmits hretained
  rw [hreplayed]
  cases fuel with
  | zero => cases hfuel
  | succ fuel => rfl

/-- A file with records that need too much memory is refused. -/
theorem replayed_refused (h : Stored file rs tail) (hadmits : Admits limits {} rs)
    (hretained : limits.maxRetainedBytes < payloadBytes rs) :
    (Journal.replayed limits file).refused.ok = false := by
  obtain ⟨bytes, hbytes, hchunks⟩ := h.chunks
  obtain ⟨n, hfuel, -⟩ := h.fuel
  have hretained' : limits.maxRetainedBytes < ({} : Replay).retained + payloadBytes rs := by
    show _ < 0 + payloadBytes rs
    omega
  rw [Journal.replayed, hbytes, hfuel]
  exact replayLoop_refused hchunks hadmits (Nat.zero_le _) hretained'

end Stored

/-- Every file with a good header holds what is read of it, unless a record is refused. -/
theorem replayed_cases (hheader : (checkHeader file).ok = true) :
    (Journal.replayed limits file).refused.ok = false ∨
      ∃ rs tail, Stored file rs tail ∧ Admits limits {} rs ∧
        payloadBytes rs ≤ limits.maxRetainedBytes ∧
        (tail = [] ∧ Journal.replayed limits file = Replay.pushAll {} rs ∨
          tail ≠ [] ∧ Journal.replayed limits file = { Replay.pushAll {} rs with torn := 1 }) := by
  have hfuel : (file.drop kHeaderBytes).length < file.length + 1 := by
    rw [List.length_drop]
    omega
  obtain ⟨rs, front, rest, hbytes, hchunks, hadmits, hretained, hend⟩ :=
    @replayLoop_cases limits {} _ _ hfuel (Nat.zero_le _) (Nat.zero_le _)
  have hzero : ({} : Replay).retained + payloadBytes rs = payloadBytes rs := Nat.zero_add _
  have hstored : Stored file rs rest :=
    ⟨hheader, long_of_checkHeader hheader, front, hbytes, hchunks⟩
  rcases hend with hend | hend | hend
  · exact .inr ⟨rs, rest, hstored, hadmits, hzero ▸ hretained, .inl hend⟩
  · refine .inr ⟨rs, rest, hstored, hadmits, hzero ▸ hretained, .inr ⟨hend.1, ?_⟩⟩
    rw [Journal.replayed, hend.2, Replay.torn_pushAll]
  · exact .inl hend

/-- What fits is read, whatever is behind it. -/
theorem Stored.replayed_extends (h : Stored file rs tail) (hadmits : Admits limits {} rs) :
    (Journal.replayed limits file).refused.ok = false ∨
      rs <+: (Journal.replayed limits file).records := by
  by_cases hretained : payloadBytes rs ≤ limits.maxRetainedBytes
  · obtain ⟨fuel, hfuel, hreplayed⟩ := h.replayed hadmits hretained
    have hrecords : (Replay.pushAll {} rs).records = rs := Replay.records_pushAll
    have hsum : (Replay.pushAll {} rs).retained = payloadBytes rs :=
      Replay.retained_pushAll.trans (Nat.zero_add _)
    have hroom : rs.length ≤ limits.maxRecords := by
      have hbound := hadmits.records
      change 0 + rs.length ≤ _ at hbound
      omega
    obtain ⟨rs', front, rest, -, -, -, -, hend⟩ := @replayLoop_cases limits (Replay.pushAll {} rs) _ _ hfuel
      (by rw [hrecords]; exact hroom) (by rw [hsum]; exact hretained)
    rw [hreplayed]
    rcases hend with ⟨-, hend⟩ | ⟨-, hend⟩ | hend
    · refine .inr ?_
      rw [hend, Replay.records_pushAll, hrecords]
      exact List.prefix_append ..
    · refine .inr ?_
      rw [hend]
      show rs <+: ((Replay.pushAll {} rs).pushAll rs').records
      rw [Replay.records_pushAll, hrecords]
      exact List.prefix_append ..
    · exact .inl hend
  · exact .inl (h.replayed_refused hadmits (not_le.mp hretained))

/-! ## Open journals -/

/-- The limits that `open` accepts. -/
structure JournalLimits.Valid (limits : JournalLimits) : Prop where
  recordBytes : 16 ≤ limits.maxRecordBytes
  records : limits.maxRecords ≠ 0
  fileBytes : kHeaderBytes ≤ limits.maxFileBytes

theorem JournalLimits.valid_iff : limits.Valid ↔
    ¬(limits.maxRecordBytes < 16 ∨ limits.maxRecords = 0 ∨ limits.maxFileBytes < kHeaderBytes) := by
  constructor
  · rintro ⟨h₁, h₂, h₃⟩ (h | h | h)
    · omega
    · exact h₂ h
    · omega
  · intro h
    obtain ⟨h₁, h₂, h₃⟩ := not_or.mp h |>.imp_right not_or.mp
    exact ⟨not_lt.mp h₁, h₂, not_lt.mp h₃⟩

/-- The journal is what its file says, up to the bytes behind its records. -/
structure Journal.Holds (j : Journal) (file tail : Bytes) : Prop where
  stored : Stored file j.records tail
  fileBytes : j.fileBytes = imageBytes j.records
  retained : j.retainedBytes = payloadBytes j.records
  sequence : j.stats.sequence + 1 = nextSequence j.records
  chain : j.stats.chain = lastChain {} j.records

theorem Replay.sequence_pushAll {s : Replay} :
    (s.pushAll rs).sequence + 1 = afterSequence (s.sequence + 1) rs := by
  induction rs generalizing s with
  | nil => rfl
  | cons r rest ih => exact ih

namespace Disk

variable {d : Disk}

@[simp] theorem file_next : d.next.file = d.file := rfl

@[simp] theorem bytes_next : d.next.bytes = d.bytes := rfl

@[simp] theorem synced_next : d.next.synced = d.synced := rfl

@[simp] theorem bytes_write (bytes : Bytes) : (d.write bytes).bytes = d.bytes ++ bytes := rfl

@[simp] theorem synced_write (bytes : Bytes) : (d.write bytes).synced = d.synced := rfl

/-- A disk without a file has no bytes. -/
theorem isSome_of_stored (h : Stored d.bytes rs tail) : d.file.isSome = true := by
  by_contra hnone
  rw [Bool.not_eq_true, Option.isSome_eq_false_iff, Option.isNone_iff_eq_none] at hnone
  have hlong := h.long
  rw [bytes, hnone] at hlong
  exact absurd hlong (by decide)

end Disk

namespace Journal

variable {j j' : Journal} {d d' : Disk} {st : Status}

/-- A journal with what a replay has read of its file. -/
theorem holds_of_replay (h : Stored file rs []) (hrecords : j.records = (Replay.pushAll {} rs).records)
    (hfile : j.fileBytes = (Replay.pushAll {} rs).offset)
    (hretained : j.retainedBytes = (Replay.pushAll {} rs).retained)
    (hsequence : j.stats.sequence = (Replay.pushAll {} rs).sequence)
    (hchain : j.stats.chain = (Replay.pushAll {} rs).previous) : j.Holds file [] := by
  have heq : j.records = rs := hrecords.trans Replay.records_pushAll
  refine ⟨?_, ?_, ?_, ?_, ?_⟩
  · rw [heq]
    exact h
  · rw [hfile, Replay.offset_pushAll, heq]
    rfl
  · rw [hretained, Replay.retained_pushAll, heq]
    exact Nat.zero_add _
  · rw [hsequence, Replay.sequence_pushAll, heq, nextSequence_eq]
    rfl
  · rw [hchain, Replay.previous_pushAll, heq]

/-- What `replay_file` can do: fail before it changes anything, or cut off what it does not read,
and then hold the rest. -/
theorem replayFile_cases (h : j.replayFile d = (st, j', d')) :
    st.ok = false ∧ d'.file = d.file ∧ d'.synced = d.synced ∨
      ∃ rs tail, Stored d.bytes rs tail ∧ (replayed j.limits d.bytes).refused.ok = true ∧
        rs = (replayed j.limits d.bytes).records ∧ Admits j.limits {} rs ∧
        payloadBytes rs ≤ j.limits.maxRetainedBytes ∧
        d'.bytes = d.bytes.take (imageBytes rs) ∧
        (tail = [] → d'.file = d.file) ∧
        (tail ≠ [] → d.fault = none ∧ d.next.fault = none) ∧
        min d.synced (imageBytes rs) ≤ d'.synced ∧
        (st.ok = true → j'.records = rs ∧ j'.Holds d'.bytes [] ∧ j'.limits = j.limits ∧
          j'.isOpen = j.isOpen) := by
  unfold replayFile at h
  split at h
  · cases h
    exact .inl ⟨rfl, rfl, rfl⟩
  case h_2 hfault =>
    dsimp only at h
    rw [Disk.bytes_next] at h
    split at h
    case isTrue hheader =>
      cases h
      exact .inl ⟨by simpa using hheader, rfl, rfl⟩
    case isFalse hheader =>
      have hheader : (checkHeader d.bytes).ok = true := by simpa using hheader
      split at h
      case isTrue hrefused =>
        cases h
        exact .inl ⟨by simpa using hrefused, rfl, rfl⟩
      case isFalse hrefused =>
        have hrefused : (replayed j.limits d.bytes).refused.ok = true := by simpa using hrefused
        rcases @replayed_cases j.limits _ hheader with hno | ⟨rs, tail, hstored, hadmits, hmemory, hread⟩
        · rw [hno] at hrefused
          cases hrefused
        · have hoffset : (Replay.pushAll {} rs).offset = imageBytes rs := Replay.offset_pushAll
          have hlength := hstored.length
          rcases hread with ⟨rfl, hread⟩ | ⟨htail, hread⟩
          · -- the file ends behind the last intact record
            have hwhole : d.bytes.length ≤ imageBytes rs := by
              rw [hlength, List.length_nil]
              omega
            rw [hread, hoffset, if_neg (by omega)] at h
            have hcut : d.bytes = d.bytes.take (imageBytes rs) := (List.take_of_length_le hwhole).symm
            refine .inr ⟨rs, [], hstored, hrefused, ?_, hadmits, hmemory, ?_⟩
            · rw [hread, Replay.records_pushAll]
              rfl
            unfold seekEnd at h
            split at h
            · cases h
              exact ⟨hcut, fun _ => rfl, fun hne => absurd rfl hne, min_le_left _ _,
                fun hok => by cases hok⟩
            · cases h
              refine ⟨hcut, fun _ => rfl, fun hne => absurd rfl hne, min_le_left _ _,
                fun _ => ⟨?_, ?_, rfl, rfl⟩⟩
              · exact Replay.records_pushAll
              · exact holds_of_replay hstored rfl hoffset.symm rfl rfl rfl
          · -- what is behind the last intact record is cut off
            have htorn : imageBytes rs < d.bytes.length := by
              have hpos := List.length_pos_iff.mpr htail
              omega
            rw [hread] at h
            dsimp only at h
            rw [hoffset, if_pos htorn] at h
            have hcut : Stored (d.bytes.take (imageBytes rs)) rs [] := by
              have htake := hstored.take (le_refl (imageBytes rs))
              rwa [Nat.sub_self, List.take_zero] at htake
            split at h
            · cases h
              exact .inl ⟨rfl, rfl, rfl⟩
            case h_2 hnext =>
              refine .inr ⟨rs, tail, hstored, hrefused, ?_, hadmits, hmemory, ?_⟩
              · rw [hread]
                exact (@Replay.records_pushAll {} rs).symm
              unfold seekEnd at h
              split at h
              · cases h
                exact ⟨rfl, fun hnil => absurd hnil htail, fun _ => ⟨hfault, hnext⟩, le_refl _,
                  fun hok => by cases hok⟩
              · cases h
                refine ⟨rfl, fun hnil => absurd hnil htail, fun _ => ⟨hfault, hnext⟩, le_refl _,
                  fun _ => ⟨?_, ?_, rfl, rfl⟩⟩
                · exact Replay.records_pushAll
                · exact holds_of_replay hcut rfl hoffset.symm rfl rfl rfl

/-! ## Opening -/

/-- What makes the handle of an open journal: the file that is there, or a new one. -/
theorem handle_cases
    (h : (if d.file.isNone then create { limits } d else openHandle { limits } d) = (st, j, d')) :
    st.ok = false ∧ (d.file = none ∨ d'.file = d.file ∧ d'.synced = d.synced) ∨
      st.ok = true ∧ j.limits = limits ∧ j.isOpen = true ∧ d.fault = none ∧
        (d.file.isSome = true ∧ d' = d.next ∨
          d.file = none ∧ d'.file = some fileHeader ∧ d'.synced = 0) := by
  cases hfile : d.file with
  | none =>
    rw [hfile, Option.isNone_none, if_pos rfl] at h
    unfold create at h
    split at h
    · cases h
      exact .inl ⟨rfl, .inl rfl⟩
    case h_2 hfault =>
      dsimp only at h
      split at h
      · cases h
        refine .inl ⟨?_, .inl rfl⟩
        rw [Status.ok_error]
        rfl
      · cases h
        exact .inr ⟨rfl, rfl, rfl, hfault, .inr ⟨rfl, rfl, rfl⟩⟩
  | some bytes =>
    rw [hfile, Option.isNone_some, if_neg (by decide)] at h
    unfold openHandle at h
    split at h
    · cases h
      exact .inl ⟨rfl, .inr ⟨hfile, rfl⟩⟩
    case h_2 hfault =>
      cases h
      exact .inr ⟨rfl, rfl, rfl, hfault, .inl ⟨rfl, rfl⟩⟩

/-- What `open` can do: fail before it reads a file that is there, or replay the file that is there
or that it has created. -/
theorem openAt_cases {createIfMissing : Bool} {r : Result Journal}
    (h : openAt limits createIfMissing d = (r, d')) :
    (∃ st, r = .error st) ∧ (d.file = none ∨ d'.file = d.file ∧ d'.synced = d.synced) ∨
      ∃ (j₀ : Journal) (d₀ : Disk) (st : Status) (j' : Journal),
        limits.Valid ∧ d.fault = none ∧
        (d.file.isSome = true ∧ d₀ = d.next ∨
          d.file = none ∧ d₀.file = some fileHeader ∧ d₀.synced = 0) ∧
        j₀.limits = limits ∧ j₀.isOpen = true ∧ j₀.replayFile d₀ = (st, j', d') ∧
        (st.ok = true ∧ r = .ok j' ∨ st.ok = false ∧ ∃ st', r = .error st') := by
  unfold openAt at h
  split at h
  · cases h
    exact .inl ⟨⟨_, rfl⟩, .inr ⟨rfl, rfl⟩⟩
  case isFalse hvalid =>
    split at h
    · cases h
      exact .inl ⟨⟨_, rfl⟩, .inr ⟨rfl, rfl⟩⟩
    · rcases hhandle : (if d.file.isNone then create { limits } d
        else openHandle { limits } d) with ⟨st₀, j₀, d₀⟩
      rw [hhandle] at h
      dsimp only at h
      rcases handle_cases hhandle with ⟨hst, hd⟩ | ⟨hst, hlimits, hopen, hfault, hd⟩
      · rw [hst, Bool.not_false, if_pos rfl] at h
        cases h
        exact .inl ⟨⟨_, rfl⟩, hd⟩
      · rw [hst, Bool.not_true, if_neg (by decide)] at h
        rcases hreplay : j₀.replayFile d₀ with ⟨st, j', d''⟩
        rw [hreplay] at h
        dsimp only at h
        refine .inr ⟨j₀, d₀, st, j', JournalLimits.valid_iff.mpr hvalid, hfault, hd, hlimits, hopen, ?_⟩
        cases hok : st.ok with
        | true =>
          rw [hok, if_pos rfl] at h
          cases h
          exact ⟨hreplay, .inl ⟨rfl, rfl⟩⟩
        | false =>
          rw [hok, if_neg (by decide)] at h
          cases h
          exact ⟨hreplay, .inr ⟨rfl, _, rfl⟩⟩

/-- An open journal that is what its file says and within its limits. -/
structure Live (j : Journal) (d : Disk) : Prop where
  isOpen : j.isOpen = true
  valid : j.limits.Valid
  holds : j.Holds d.bytes []
  admits : Admits j.limits {} j.records
  retained : payloadBytes j.records ≤ j.limits.maxRetainedBytes

/-- Every journal that `open` gives is live. -/
theorem openAt_live {createIfMissing : Bool} (h : openAt limits createIfMissing d = (.ok j, d')) :
    j.Live d' ∧ j.limits = limits := by
  rcases openAt_cases h with
    ⟨⟨st, herror⟩, -⟩ | ⟨j₀, d₀, st, j', hvalid, -, -, hlimits, hopen, hreplay, hend⟩
  · cases herror
  · rcases hend with ⟨hst, hr⟩ | ⟨-, st', herror⟩
    · cases hr
      rcases replayFile_cases hreplay with
        ⟨hno, -⟩ | ⟨rs, tail, -, -, -, hadmits, hretained, -, -, -, -, hok⟩
      · rw [hno] at hst
        cases hst
      · obtain ⟨hrecords, hholds, hsame, hstill⟩ := hok hst
        rw [hlimits] at hsame hadmits hretained
        refine ⟨⟨hstill.trans hopen, ?_, hholds, ?_, ?_⟩, hsame⟩
        · rw [hsame]
          exact hvalid
        · rw [hsame, hrecords]
          exact hadmits
        · rw [hsame, hrecords]
          exact hretained
    · cases herror

/-- An `open` of a file that is there. -/
theorem openAt_existing {createIfMissing : Bool} (hvalid : limits.Valid)
    (hfile : d.file.isSome = true) (hfault : d.fault = none) :
    openAt limits createIfMissing d =
      (let (st, j, d') := replayFile { limits, isOpen := true } d.next
       if st.ok then (.ok j, d') else (fail st.code st.context 0, d')) := by
  have hnone : d.file.isNone = false := by
    rw [Option.isNone_eq_false_iff]
    exact hfile
  unfold openAt
  rw [if_neg (JournalLimits.valid_iff.mp hvalid), hnone, if_neg (by simp), if_neg (by decide),
    openHandle, hfault]
  rfl

/-- A replay of a file that fits reads all of it. -/
theorem replayFile_all (h : Stored d.bytes rs []) (hadmits : Admits j.limits {} rs)
    (hretained : payloadBytes rs ≤ j.limits.maxRetainedBytes) (hfault : d.fault = none)
    (hnext : d.next.fault = none) :
    ∃ j', j.replayFile d = (.success, j', d.next.next) ∧ j'.records = rs ∧ j'.limits = j.limits ∧
      j'.isOpen = j.isOpen ∧ j'.Holds d.bytes [] := by
  have hall := h.replayed_all hadmits hretained
  have hoffset : (Replay.pushAll {} rs).offset = imageBytes rs := Replay.offset_pushAll
  have hrefused : (Replay.pushAll {} rs).refused = .success := Replay.refused_pushAll
  have hlength := h.length
  rw [List.length_nil, Nat.add_zero] at hlength
  unfold replayFile
  rw [hfault]
  dsimp only
  rw [Disk.bytes_next, h.header, Bool.not_true, if_neg (by decide), hall, hrefused, Status.ok_success,
    Bool.not_true, if_neg (by decide), hoffset, if_neg (by omega), seekEnd, hnext]
  refine ⟨_, rfl, Replay.records_pushAll, rfl, rfl, ?_⟩
  exact holds_of_replay h rfl hoffset.symm rfl rfl rfl

/-- An `open` without a file, when nothing fails, makes an empty journal. -/
theorem openAt_new (hvalid : limits.Valid) (hfile : d.file = none) (hfaults : d.faults = []) :
    ∃ j d', openAt limits true d = (.ok j, d') ∧ j.records = [] ∧ j.limits = limits ∧ j.Live d' ∧
      d'.faults = [] := by
  have hfault : d.fault = none := by
    rw [Disk.fault, hfaults]
    rfl
  let d₁ : Disk := (d.next.become (some []) 0).next.write fileHeader
  have hnext : ∀ n : Disk, n.faults = [] → n.fault = none := fun n hn => by
    rw [Disk.fault, hn]
    rfl
  have hempty : d₁.faults = [] := by
    show d.faults.tail.tail = []
    rw [hfaults]
    rfl
  have hcreate : create { limits } d =
      (.success, { limits, isOpen := true, fileBytes := kHeaderBytes }, d₁) := by
    unfold create
    rw [hfault]
    dsimp only
    rw [hnext (d.next.become (some []) 0) (by
      show d.faults.tail = []
      rw [hfaults]
      rfl)]
  have hbytes : d₁.bytes = fileHeader := by
    show [] ++ fileHeader = fileHeader
    exact List.nil_append _
  have hstored : Stored d₁.bytes [] [] := hbytes ▸ Stored.fresh
  obtain ⟨j, hreplay, hrecords, hlimits, hopen, hholds⟩ :=
    replayFile_all (j := { limits, isOpen := true, fileBytes := kHeaderBytes }) hstored
      ⟨by simp, Nat.zero_le _⟩ (Nat.zero_le _) (hnext d₁ hempty) (hnext d₁.next (by
        show d₁.faults.tail = []
        rw [hempty]
        rfl))
  have hresult : openAt limits true d = (.ok j, d₁.next.next) := by
    unfold openAt
    rw [if_neg (JournalLimits.valid_iff.mp hvalid), hfile, Option.isNone_none, if_neg (by simp),
      if_pos rfl, hcreate]
    dsimp only
    rw [Status.ok_success, Bool.not_true, if_neg (by decide), hreplay]
    rfl
  refine ⟨j, d₁.next.next, hresult, hrecords, hlimits, (openAt_live hresult).1, ?_⟩
  show d₁.faults.tail.tail = []
  rw [hempty]
  rfl

/-- A replay that stops before the end of the file cuts the file there. -/
theorem replayFile_cut (hheader : (checkHeader d.bytes).ok = true)
    (hrefused : (replayed j.limits d.bytes).refused.ok = true)
    (hshort : (replayed j.limits d.bytes).offset < d.bytes.length) (hfault : d.fault = none)
    (hnext : d.next.fault = none) (h : j.replayFile d = (st, j', d')) :
    d'.file = some (d.bytes.take (replayed j.limits d.bytes).offset) ∧
      j'.records = (replayed j.limits d.bytes).records := by
  unfold replayFile at h
  rw [hfault] at h
  dsimp only at h
  rw [Disk.bytes_next, hheader, Bool.not_true, if_neg (by decide), hrefused, Bool.not_true,
    if_neg (by decide), if_pos hshort, hnext] at h
  unfold seekEnd at h
  dsimp only at h
  split at h <;> cases h <;> exact ⟨rfl, rfl⟩

/-! ## Appends -/

/-- What an append checks. -/
theorem checkAppend_ok {type : RecordType} {payload : Bytes} :
    (j.checkAppend type payload).ok = true ↔
      j.isOpen = true ∧ type ≠ .count ∧ payload.length ≤ j.limits.maxRecordBytes ∧
        j.records.length < j.limits.maxRecords ∧
        j.fileBytes + (kRecordHeaderBytes + payload.length) ≤ j.limits.maxFileBytes ∧
        j.retainedBytes + payload.length ≤ j.limits.maxRetainedBytes := by
  unfold checkAppend
  rw [Status.ok_guard (by decide), Status.ok_guard (by decide), Status.ok_guard (by decide),
    Status.ok_guard (by decide), Status.ok_guard (by decide), Status.ok_guard (by decide)]
  simp

section Append

variable {type : RecordType} {tick : Tick} {epoch : Epoch} {payload : Bytes}

/-- What an append can do: be refused, or fail with some of the record in the file, or write it. -/
theorem append_cases (h : j.append type tick epoch payload d = (st, j', d')) :
    st = j.checkAppend type payload ∧ st.ok = false ∧ j' = j ∧ d' = d ∨
      (j.checkAppend type payload).ok = true ∧
        ((∃ k, d.fault = some k ∧ st.ok = false ∧ j' = j ∧
            d' = d.next.write ((j.nextRecord type tick epoch payload).encode.take k)) ∨
          d.fault = none ∧ st.ok = true ∧ j' = j.push (j.nextRecord type tick epoch payload) ∧
            d' = d.next.write (j.nextRecord type tick epoch payload).encode) := by
  unfold append at h
  dsimp only at h
  split at h
  case isTrue hst =>
    cases h
    exact .inl ⟨rfl, by simpa using hst, rfl, rfl⟩
  case isFalse hst =>
    refine .inr ⟨by simpa using hst, ?_⟩
    split at h
    case h_1 k hk =>
      cases h
      exact .inl ⟨k, hk, rfl, rfl, rfl⟩
    case h_2 hnone =>
      cases h
      exact .inr ⟨hnone, rfl, rfl, rfl⟩

/-- An append that is let through and meets no failure. -/
theorem append_of_ok (hcheck : (j.checkAppend type payload).ok = true) (hfault : d.fault = none) :
    j.append type tick epoch payload d =
      (.success, j.push (j.nextRecord type tick epoch payload),
        d.next.write (j.nextRecord type tick epoch payload).encode) := by
  unfold append
  dsimp only
  rw [hcheck, Bool.not_true, if_neg (by decide), hfault]

theorem nextRecord_payload : (j.nextRecord type tick epoch payload).payload = payload := rfl

theorem nextRecord_chain : (j.nextRecord type tick epoch payload).chain =
    chainOf j.stats.chain (j.stats.sequence + 1) type tick epoch payload := rfl

/-- The record that an append writes is intact in its place. -/
theorem Holds.chunk (h : j.Holds file tail) (htype : type ≠ .count)
    (hpayload : payload.length < 256 ^ 4) :
    Chunk (lastChain {} j.records) (afterSequence 1 j.records)
      (j.nextRecord type tick epoch payload).encode (j.nextRecord type tick epoch payload) := by
  have hsequence : j.stats.sequence + 1 = afterSequence 1 j.records := by
    rw [h.sequence, nextSequence_eq]
  apply Chunk.encode
  · rw [nextRecord_chain, h.chain, hsequence]
    rfl
  · exact hsequence
  · exact htype
  · rw [nextRecord_payload]
    exact hpayload

section Push

variable {r : JournalRecord}

@[simp] theorem records_push : (j.push r).records = j.records ++ [r] := rfl

@[simp] theorem fileBytes_push :
    (j.push r).fileBytes = j.fileBytes + (kRecordHeaderBytes + r.payload.length) := rfl

@[simp] theorem retainedBytes_push :
    (j.push r).retainedBytes = j.retainedBytes + r.payload.length := rfl

@[simp] theorem sequence_push : (j.push r).stats.sequence = r.sequence := rfl

@[simp] theorem chain_push : (j.push r).stats.chain = r.chain := rfl

@[simp] theorem limits_push : (j.push r).limits = j.limits := rfl

@[simp] theorem isOpen_push : (j.push r).isOpen = j.isOpen := rfl

end Push

/-- An append behind the last record keeps the journal what its file says. -/
theorem Holds.push (h : j.Holds file []) (htype : type ≠ .count)
    (hpayload : payload.length < 256 ^ 4) :
    (j.push (j.nextRecord type tick epoch payload)).Holds
      (file ++ (j.nextRecord type tick epoch payload).encode) [] where
  stored := h.stored.snoc (h.chunk htype hpayload)
  fileBytes := by
    rw [fileBytes_push, records_push, imageBytes_append, h.fileBytes, payloadBytes_cons,
      payloadBytes_nil, List.length_singleton, Nat.one_mul, Nat.add_zero]
  retained := by
    rw [retainedBytes_push, records_push, payloadBytes_append, h.retained, payloadBytes_cons,
      payloadBytes_nil, Nat.add_zero]
  sequence := by
    rw [sequence_push, records_push, nextSequence, List.getLast?_append, List.getLast?_singleton]
    rfl
  chain := by
    rw [chain_push, records_push, lastChain, List.foldl_append, List.foldl_cons, List.foldl_nil]

/-- A failed append leaves the journal what its file says, with a torn record behind it. -/
theorem Holds.write (h : j.Holds file tail) (more : Bytes) :
    j.Holds (file ++ more) (tail ++ more) :=
  { h with stored := h.stored.append more }

/-- The bytes of a file that its journal knows. -/
theorem Holds.length (h : j.Holds file tail) : file.length = j.fileBytes + tail.length := by
  rw [h.fileBytes]
  exact h.stored.length

end Append

end Journal

end Backpressure
