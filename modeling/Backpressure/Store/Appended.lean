import Backpressure.Store.Damage
import Backpressure.Store.Rewritten

/-!
# Rewriting and appending

A rewrite encodes its records into one buffer and reads the new file back; appends encode one record
after the other and keep the state in step. Both give the same file and the same journal as long as
the length of every payload fits into its field.
-/

namespace Backpressure

namespace Journal

variable {limits : JournalLimits} {j j₁ j' : Journal} {d d₁ d' : Disk} {st : Status}
  {records : List JournalRecord} {drafts : List Draft} {s : Replay}

/-- The open journal of what was read of a file. -/
def ofReplay (limits : JournalLimits) (s : Replay) : Journal :=
  { ({ limits, isOpen := true } : Journal).load s with fileBytes := s.offset }

theorem ofReplay_push (r : JournalRecord) :
    (ofReplay limits s).push r = ofReplay limits (s.push r) := by
  simp [ofReplay, push, load, Replay.push]

/-! ## The state -/

theorem append_ofReplay {a : Draft}
    (h : (ofReplay limits s).append a.type a.tick a.epoch a.payload d = (st, j', d'))
    (hst : st.ok = true) :
    ∃ r, r = (ofReplay limits s).nextRecord a.type a.tick a.epoch a.payload ∧
      j' = ofReplay limits (s.push r) ∧ d' = d.next.write r.encode := by
  unfold append at h
  dsimp only at h
  split at h
  case isTrue hcheck =>
    cases h
    rw [hst] at hcheck
    cases hcheck
  case isFalse =>
    split at h
    · cases h
      cases hst
    · cases h
      exact ⟨_, rfl, ofReplay_push _, rfl⟩

/-- After appends that succeed the journal is what a replay of its records would make of it. -/
theorem appendAll_ofReplay (h : appendAll drafts (ofReplay limits s) d = (st, j', d'))
    (hst : st.ok = true) :
    ∃ rs, j' = ofReplay limits (s.pushAll rs) ∧ rs.map JournalRecord.draft = drafts := by
  induction drafts generalizing s d with
  | nil =>
    cases h
    exact ⟨[], rfl, rfl⟩
  | cons a rest ih =>
    rw [appendAll] at h
    rcases happend : (ofReplay limits s).append a.type a.tick a.epoch a.payload d with ⟨st₁, j₁, d₁⟩
    rw [happend] at h
    dsimp only at h
    split at h
    case isTrue hok =>
      obtain ⟨r, rfl, rfl, -⟩ := append_ofReplay happend hok
      obtain ⟨rs, hrs, hdrafts⟩ := ih h
      exact ⟨_ :: rs, hrs, congrArg (a :: ·) hdrafts⟩
    case isFalse hno =>
      cases h
      exact absurd hst hno

/-! ## The bytes -/

/-- The rewritten bytes are those that the appends write. -/
theorem bytes_appendAll {image : Bytes}
    (himage : encodeAll limits records s.sequence s.previous d.bytes = .ok image)
    (h : appendAll (records.map JournalRecord.draft) (ofReplay limits s) d = (st, j', d'))
    (hst : st.ok = true) : d'.bytes = image := by
  induction records generalizing s d with
  | nil =>
    cases h
    cases himage
    rfl
  | cons record rest ih =>
    rw [List.map_cons, appendAll] at h
    rcases happend : (ofReplay limits s).append record.draft.type record.draft.tick
      record.draft.epoch record.draft.payload d with ⟨st₁, j₁, d₁⟩
    rw [happend] at h
    dsimp only at h
    split at h
    case isFalse hno =>
      cases h
      exact absurd hst hno
    case isTrue hok =>
      obtain ⟨r, hr, rfl, rfl⟩ := append_ofReplay happend hok
      rw [encodeAll] at himage
      split at himage
      · cases himage
      dsimp only at himage
      split at himage
      · cases himage
      -- the record that the rewrite encodes is the one that the append writes
      subst hr
      exact ih himage h

/-! ## The same file under the same faults -/

theorem append_same_file {type : RecordType} {tick : Tick} {epoch : Epoch} {payload : Bytes}
    (hfile : d₁.file = d.file) (hfaults : d₁.faults = d.faults) :
    (j.append type tick epoch payload d₁).1 = (j.append type tick epoch payload d).1 ∧
      (j.append type tick epoch payload d₁).2.1 = (j.append type tick epoch payload d).2.1 ∧
      (j.append type tick epoch payload d₁).2.2.file = (j.append type tick epoch payload d).2.2.file ∧
      (j.append type tick epoch payload d₁).2.2.faults =
        (j.append type tick epoch payload d).2.2.faults := by
  have hfault : d₁.fault = d.fault := by rw [Disk.fault, Disk.fault, hfaults]
  have hbytes : d₁.bytes = d.bytes := by rw [Disk.bytes, Disk.bytes, hfile]
  have hwrite : ∀ bytes, (d₁.next.write bytes).file = (d.next.write bytes).file := fun bytes => by
    show some (d₁.bytes ++ bytes) = some (d.bytes ++ bytes)
    rw [hbytes]
  have htail : d₁.faults.tail = d.faults.tail := congrArg List.tail hfaults
  unfold append
  rw [hfault]
  dsimp only
  split
  · exact ⟨rfl, rfl, hfile, hfaults⟩
  · split
    · exact ⟨rfl, rfl, hwrite _, htail⟩
    · exact ⟨rfl, rfl, hwrite _, htail⟩

/-- Appends do not look at what is synced or at what was on the disk before. -/
theorem appendAll_same_file (hfile : d₁.file = d.file) (hfaults : d₁.faults = d.faults) :
    (appendAll drafts j d₁).1 = (appendAll drafts j d).1 ∧
      (appendAll drafts j d₁).2.1 = (appendAll drafts j d).2.1 ∧
      (appendAll drafts j d₁).2.2.file = (appendAll drafts j d).2.2.file := by
  induction drafts generalizing j d d₁ with
  | nil => exact ⟨rfl, rfl, hfile⟩
  | cons a rest ih =>
    obtain ⟨hst, hj, hfile', hfaults'⟩ := @append_same_file j d d₁ a.type a.tick a.epoch a.payload
      hfile hfaults
    rw [appendAll, appendAll]
    generalize j.append a.type a.tick a.epoch a.payload d₁ = r₁ at hst hj hfile' hfaults' ⊢
    generalize j.append a.type a.tick a.epoch a.payload d = r at hst hj hfile' hfaults' ⊢
    obtain ⟨st₁, j₁, e₁⟩ := r₁
    obtain ⟨st, j', e⟩ := r
    dsimp only at hst hj hfile' hfaults' ⊢
    subst hst hj
    split
    · exact ih hfile' hfaults'
    · exact ⟨rfl, rfl, hfile'⟩

/-! ## The rewrite -/

/-- A replay that reads the file to its end gives the journal of what was read. -/
theorem replayFile_load (h : j.replayFile d = (st, j', d')) (hst : st.ok = true)
    (hwhole : d.bytes.length ≤ (replayed j.limits d.bytes).offset) :
    j' = { j.load (replayed j.limits d.bytes) with fileBytes := (replayed j.limits d.bytes).offset } ∧
      d'.file = d.file := by
  unfold replayFile at h
  split at h
  · cases h
    cases hst
  dsimp only at h
  split at h
  case isTrue hheader =>
    cases h
    rw [hst] at hheader
    cases hheader
  split at h
  case isTrue hrefused =>
    cases h
    rw [hst] at hrefused
    cases hrefused
  rw [Disk.bytes_next, if_neg (Nat.not_lt.mpr hwhole)] at h
  unfold seekEnd at h
  split at h
  · cases h
    cases hst
  · cases h
    exact ⟨rfl, rfl⟩

/-- A payload that is stored is as long as its field says. -/
theorem chunks_lengths {previous : Digest128} {next : UInt64} {bytes : Bytes}
    {rs : List JournalRecord} (h : Chunks previous next bytes rs) :
    ∀ r ∈ rs, r.payload.length < 256 ^ 4 := by
  induction h with
  | nil => simp
  | cons first later ih =>
    intro r hr
    rcases List.mem_cons.mp hr with rfl | hr
    · rw [← first.size]
      exact Lib.LittleEndian.decode_take_lt 4 _
    · exact ih r hr

/-- What the journal holds after a rewrite has lengths that fit their field. -/
theorem rewrite_lengths (h : j.rewrite records d = (st, j', d')) (hst : st.ok = true) :
    ∀ r ∈ j'.records, r.payload.length < 256 ^ 4 := by
  obtain ⟨image, -, hreplay⟩ := rewrite_replays h hst
  rcases replayFile_cases hreplay with ⟨hno, -⟩ | ⟨rs, tail, hstored, -, -, -, -, -, -, -, -, hok⟩
  · rw [hno] at hst
    cases hst
  · obtain ⟨bytes, -, hchunks⟩ := hstored.chunks
    rw [(hok hst).1]
    exact chunks_lengths hchunks

/-- The journal and its file are those of a new journal after the appends, and further appends go
on alike. -/
def LikeAppended (limits : JournalLimits) (drafts : List Draft) (j' : Journal) (d' : Disk) : Prop :=
  ∃ j₀ d₀ j₁ d₁, openAt limits true {} = (.ok j₀, d₀) ∧
    appendAll drafts j₀ d₀ = (.success, j₁, d₁) ∧ d'.file = d₁.file ∧ j' = j₁ ∧
    ∀ more faults,
      let rewritten := appendAll more j' { d' with faults }
      let appended := appendAll more j₁ { d₁ with faults }
      rewritten.1 = appended.1 ∧ rewritten.2.1 = appended.2.1 ∧
        rewritten.2.2.file = appended.2.2.file

/-- A new journal is what a replay of the bare header makes of it. -/
theorem openAt_new_ofReplay (hvalid : limits.Valid) :
    ∃ d₀, openAt limits true {} = (.ok (ofReplay limits {}), d₀) ∧ d₀.bytes = fileHeader ∧
      d₀.faults = [] := by
  let j₀ : Journal := { limits, isOpen := true, fileBytes := kHeaderBytes }
  let d₀ : Disk := (({} : Disk).next.become (some []) 0).next.write fileHeader
  have hstored : Stored d₀.bytes [] [] := Stored.fresh
  have hread : replayed limits d₀.bytes = {} :=
    hstored.replayed_all ⟨by simp, Nat.zero_le _⟩ (Nat.zero_le _)
  obtain ⟨j, hreplay, -⟩ := replayFile_all (j := j₀) hstored ⟨by simp, Nat.zero_le _⟩ (Nat.zero_le _)
    rfl rfl
  have hwhole : d₀.bytes.length ≤ (replayed j₀.limits d₀.bytes).offset := by
    show fileHeader.length ≤ (replayed limits d₀.bytes).offset
    rw [hread]
    exact length_fileHeader.le
  obtain ⟨hj, -⟩ := replayFile_load hreplay rfl hwhole
  have hopened : j = ofReplay limits {} := by
    rw [hj, show replayed j₀.limits d₀.bytes = {} from hread]
    rfl
  refine ⟨d₀.next.next, ?_, List.nil_append _, rfl⟩
  have hcreate : create { limits } {} = (.success, j₀, d₀) := rfl
  unfold openAt
  rw [if_neg (JournalLimits.valid_iff.mp hvalid), if_neg (by simp),
    if_pos (show ({} : Disk).file.isNone = true from rfl), hcreate]
  dsimp only
  rw [Status.ok_success, Bool.not_true, if_neg (by decide), hreplay, hopened]
  rfl

theorem draftBytes_map : draftBytes (records.map JournalRecord.draft) = payloadBytes records := by
  simp [draftBytes, payloadBytes, JournalRecord.draft, Function.comp_def]

/-- The limits leave a new journal room for what a rewrite has written. -/
theorem room_of_rewrite (h : j.rewrite records d = (st, j', d')) (hst : st.ok = true)
    (hvalid : j.limits.Valid) (htypes : ∀ r ∈ records, r.type ≠ .count)
    (hlengths : ∀ r ∈ records, r.payload.length < 256 ^ 4) :
    (ofReplay j.limits {}).Room (records.map JournalRecord.draft) := by
  obtain ⟨image, himage, -, hdrafts, hlive, hlimits⟩ := rewrite_ok h hst hvalid htypes hlengths
  have hfits : ¬Refuses j.limits records := fun hrefuses => by
    obtain ⟨refused, herror⟩ := (rewriteImage_error_iff hvalid).mpr hrefuses
    rw [himage] at herror
    cases herror
  obtain ⟨hcount, hrest⟩ := not_or.mp hfits
  obtain ⟨hbytes, hfile⟩ := not_or.mp hrest
  have hretained : payloadBytes records ≤ j.limits.maxRetainedBytes := by
    rw [← draftBytes_map, ← hdrafts, draftBytes_map, ← hlimits]
    exact hlive.retained
  exact {
    types := by
      intro a ha
      obtain ⟨r, hr, rfl⟩ := List.mem_map.mp ha
      exact htypes r hr
    lengths := by
      intro a ha
      obtain ⟨r, hr, rfl⟩ := List.mem_map.mp ha
      exact hlengths r hr
    bytes := by
      intro a ha
      obtain ⟨r, hr, rfl⟩ := List.mem_map.mp ha
      by_contra hlong
      exact hbytes ⟨r, hr, not_le.mp hlong⟩
    records := by
      show 0 + (records.map JournalRecord.draft).length ≤ j.limits.maxRecords
      rw [List.length_map]
      omega
    file := by
      show kHeaderBytes + ((records.map JournalRecord.draft).length * kRecordHeaderBytes + _) ≤
        j.limits.maxFileBytes
      rw [List.length_map, draftBytes_map]
      exact not_lt.mp hfile
    retained := by
      show 0 + draftBytes (records.map JournalRecord.draft) ≤ j.limits.maxRetainedBytes
      rw [draftBytes_map]
      omega }

theorem ofReplay_live (hvalid : limits.Valid) (hbytes : d.bytes = fileHeader) :
    (ofReplay limits {}).Live d where
  isOpen := rfl
  valid := hvalid
  holds := ⟨hbytes ▸ Stored.fresh, rfl, rfl, rfl, rfl⟩
  admits := ⟨fun _ hr => absurd hr List.not_mem_nil, Nat.zero_le _⟩
  retained := Nat.zero_le _

/-- A rewrite of payloads whose lengths fit their field leaves what the appends leave. -/
theorem likeAppended_of_lengths (h : j.rewrite records d = (st, j', d')) (hst : st.ok = true)
    (hvalid : j.limits.Valid) (htypes : ∀ r ∈ records, r.type ≠ .count)
    (hlengths : ∀ r ∈ records, r.payload.length < 256 ^ 4) :
    LikeAppended j.limits (records.map JournalRecord.draft) j' d' := by
  obtain ⟨d₀, hopen, hbytes, hfaults⟩ := openAt_new_ofReplay hvalid
  obtain ⟨j₁, d₁, happend, hlive, hlimits, -⟩ := appendAll_live (ofReplay_live hvalid hbytes)
    (room_of_rewrite h hst hvalid htypes hlengths) hfaults
  obtain ⟨image, himage, hreplay⟩ := rewrite_replays h hst
  -- the file
  have himage₁ : d₁.bytes = image := by
    have hencoded : encodeAll j.limits records 0 {} d₀.bytes = .ok image := by
      unfold rewriteImage at himage
      split at himage
      · cases himage
      · rw [hbytes]
        exact himage
    exact bytes_appendAll (s := {}) hencoded happend rfl
  -- the journal
  obtain ⟨rs, hrs, -⟩ := appendAll_ofReplay happend rfl
  have hrecords : j₁.records = rs := by
    rw [hrs]
    exact Replay.records_pushAll
  have hread : replayed j.limits image = Replay.pushAll {} rs := by
    have hall := hlive.holds.stored.replayed_all hlive.admits hlive.retained
    rw [hlimits, hrecords, himage₁] at hall
    exact hall
  have hlength : image.length = (Replay.pushAll {} rs).offset := by
    have hlength := hlive.holds.stored.length
    rw [hrecords, himage₁, List.length_nil, Nat.add_zero] at hlength
    rw [hlength, Replay.offset_pushAll]
    rfl
  have hfile : (d.next.replace image).next.bytes = image := rfl
  obtain ⟨hj', hd'⟩ := replayFile_load hreplay hst (by
    rw [hfile, hread]
    exact hlength.le)
  have hsame : j' = j₁ := by
    rw [hj', hfile, hread, hrs]
    rfl
  have hsomefile : d₁.file = some image := by
    have hsome := Disk.isSome_of_stored hlive.holds.stored
    obtain ⟨bytes, hbytes₁⟩ := Option.isSome_iff_exists.mp hsome
    rw [Disk.bytes, hbytes₁] at himage₁
    rw [hbytes₁, ← himage₁]
    rfl
  have hfiles : d'.file = d₁.file := by
    rw [hd', hsomefile]
    rfl
  refine ⟨_, d₀, j₁, d₁, hopen, happend, hfiles, hsame, fun more faults => ?_⟩
  rw [hsame]
  exact appendAll_same_file hfiles rfl

/-- Appends keep every payload in memory; a rewrite reads it back. -/
theorem lengths_of_likeAppended (h : j.rewrite records d = (st, j', d')) (hst : st.ok = true)
    (hvalid : j.limits.Valid)
    (hlike : LikeAppended j.limits (records.map JournalRecord.draft) j' d') :
    ∀ r ∈ records, r.payload.length < 256 ^ 4 := by
  obtain ⟨j₀, d₀, j₁, d₁, hopen, happend, -, rfl, -⟩ := hlike
  intro r hr
  obtain ⟨d₂, hnew, -⟩ := openAt_new_ofReplay hvalid
  rw [hnew] at hopen
  cases hopen
  obtain ⟨rs, hrs, hdrafts⟩ := appendAll_ofReplay happend rfl
  have hrecords : j'.records = rs := by
    rw [hrs]
    exact Replay.records_pushAll
  obtain ⟨r', hr', hsame⟩ := List.mem_map.mp (hdrafts ▸ List.mem_map_of_mem hr)
  have hlength := rewrite_lengths h hst r' (hrecords ▸ hr')
  have hpayload : r'.payload = r.payload := congrArg Draft.payload hsame
  rw [← hpayload]
  exact hlength

/-- A successful rewrite leaves the file and the journal that a new journal and the appends of the
same records leave, exactly when the length of every payload fits into its field. -/
theorem likeAppended_iff (j j' : Journal) (d d' : Disk) (records : List JournalRecord) (st : Status)
    (h : j.rewrite records d = (st, j', d')) (hst : st.ok = true) (hvalid : j.limits.Valid)
    (htypes : ∀ r ∈ records, r.type ≠ .count) :
    LikeAppended j.limits (records.map JournalRecord.draft) j' d' ↔
      ∀ r ∈ records, r.payload.length < 2 ^ 32 := by
  rw [show 2 ^ 32 = 256 ^ 4 by norm_num]
  exact ⟨lengths_of_likeAppended h hst hvalid, likeAppended_of_lengths h hst hvalid htypes⟩

/-! ## A payload that is too long for its field -/

theorem readRecord_refused {bytes : Bytes} {r : JournalRecord}
    (h : readRecord limits s bytes = .refused r) :
    limits.maxRetainedBytes < s.retained + r.payload.length ∧ r.payload.length ≤ bytes.length := by
  unfold readRecord at h
  split at h
  · cases h
  split at h
  · cases h
  dsimp only at h
  iterate 3
    split at h
    · cases h
  split at h
  · cases h
  case h_2 r' hchecked =>
    split at h
    case isFalse => cases h
    case isTrue hretained =>
      cases h
      obtain ⟨hp, -⟩ := checkRecord_payload hchecked
      rw [hp]
      refine ⟨hretained, ?_⟩
      rw [List.length_take, List.length_drop]
      omega

/-- A replay refuses a record only if the bytes do not fit into the memory it may take. -/
theorem replayLoop_bound {fuel : Nat} {bytes : Bytes} (hs : s.refused.ok = true)
    (h : (replayLoop limits fuel s bytes).refused.ok = false) :
    limits.maxRetainedBytes < s.retained + bytes.length := by
  induction fuel generalizing s bytes with
  | zero =>
    rw [replayLoop, hs] at h
    cases h
  | succ fuel ih =>
    rw [replayLoop] at h
    cases hread : readRecord limits s bytes with
    | finished =>
      rw [hread] at h
      rw [show s.refused.ok = false from h] at hs
      cases hs
    | torn =>
      rw [hread] at h
      rw [show s.refused.ok = false from h] at hs
      cases hs
    | refused r =>
      obtain ⟨hretained, hlength⟩ := readRecord_refused hread
      omega
    | record r rest =>
      rw [hread] at h
      obtain ⟨chunk, rfl, hchunk, -⟩ := chunk_of_readRecord hread
      have hlater := ih (s := s.push r) hs h
      have hpush : (s.push r).retained = s.retained + r.payload.length := rfl
      have hlength := hchunk.length
      rw [List.length_append]
      omega

theorem encodeAll_prefix {sequence : UInt64} {previous : Digest128} {buffer image : Bytes}
    (hbuffer : buffer.length ≤ limits.maxFileBytes)
    (h : encodeAll limits records sequence previous buffer = .ok image) :
    (∃ bytes, image = buffer ++ bytes) ∧ image.length ≤ limits.maxFileBytes := by
  induction records generalizing sequence previous buffer with
  | nil =>
    cases h
    exact ⟨⟨[], (List.append_nil _).symm⟩, hbuffer⟩
  | cons record rest ih =>
    rw [encodeAll] at h
    split at h
    · cases h
    dsimp only at h
    split at h
    · cases h
    case isFalse hsize =>
      obtain ⟨⟨bytes, rfl⟩, hlength⟩ := ih (not_lt.mp hsize) h
      exact ⟨⟨_, List.append_assoc _ _ _⟩, hlength⟩

/-- When nothing fails and a file may be kept in memory as a whole, a rewrite that the limits allow
succeeds. -/
theorem rewrite_succeeds (hvalid : j.limits.Valid) (hfits : ¬Refuses j.limits records)
    (hmemory : j.limits.maxFileBytes ≤ j.limits.maxRetainedBytes) :
    ∃ st j' d', j.rewrite records {} = (st, j', d') ∧ st.ok = true := by
  cases himage : j.rewriteImage records with
  | error refused => exact absurd ((rewriteImage_error_iff hvalid).mp ⟨refused, himage⟩) hfits
  | ok image =>
    have hencoded : encodeAll j.limits records 0 {} fileHeader = .ok image := by
      unfold rewriteImage at himage
      split at himage
      · cases himage
      · exact himage
    obtain ⟨⟨bytes, rfl⟩, hlength⟩ :=
      encodeAll_prefix (length_fileHeader.trans_le hvalid.fileBytes) hencoded
    have hheader : (checkHeader (fileHeader ++ bytes)).ok = true := (Stored.fresh.append bytes).header
    have hrefused : (replayed j.limits (fileHeader ++ bytes)).refused.ok = true := by
      by_contra hno
      have hbound := replayLoop_bound rfl (Bool.eq_false_iff.mpr hno)
      have hdrop : ((fileHeader ++ bytes).drop kHeaderBytes).length ≤ (fileHeader ++ bytes).length := by
        rw [List.length_drop]
        exact Nat.sub_le _ _
      have hzero : ({} : Replay).retained = 0 := rfl
      omega
    refine ⟨_, _, _, rfl, ?_⟩
    rw [himage]
    exact replayFile_ok (j := { limits := j.limits, isOpen := true })
      (d := (({} : Disk).next.replace (fileHeader ++ bytes)).next) rfl hheader hrefused

/-- A rewrite of one payload of four gibibytes, under limits that allow it, does not keep it. -/
theorem wide_rewrite_differs :
    ¬∀ (j j' : Journal) (d d' : Disk) (records : List JournalRecord) (st : Status),
      j.rewrite records d = (st, j', d') → st.ok = true → j.limits.Valid →
      (∀ r ∈ records, r.type ≠ .count) →
        LikeAppended j.limits (records.map JournalRecord.draft) j' d' := by
  intro hall
  obtain ⟨n, hn⟩ : ∃ n, n = 256 ^ 4 := ⟨_, rfl⟩
  let limits : JournalLimits :=
    { maxRecordBytes := n, maxRecords := 1, maxFileBytes := n + 84, maxRetainedBytes := n + 84 }
  let record : JournalRecord := { payload := List.replicate n 0 }
  have hpayload : record.payload.length = n := List.length_replicate
  have hvalid : limits.Valid := by
    refine ⟨?_, one_ne_zero, ?_⟩
    · show 16 ≤ n
      rw [hn]
      norm_num
    · show 32 ≤ n + 84
      omega
  have hfits : ¬Refuses limits [record] := by
    rintro (hcount | ⟨r, hr, hlong⟩ | hfile)
    · exact absurd hcount (Nat.lt_irrefl _)
    · rw [List.mem_singleton.mp hr, hpayload] at hlong
      exact absurd hlong (Nat.lt_irrefl _)
    · have hbytes : imageBytes [record] = n + 84 := by
        unfold imageBytes
        rw [payloadBytes_cons, payloadBytes_nil, hpayload]
        show 32 + (1 * 52 + (n + 0)) = n + 84
        omega
      rw [hbytes] at hfile
      exact absurd hfile (Nat.lt_irrefl _)
  obtain ⟨st, j', d', hrewrite, hst⟩ :=
    rewrite_succeeds (j := { limits }) hvalid hfits (Nat.le_refl _)
  have hlike := hall { limits } j' {} d' [record] st hrewrite hst hvalid (by
    intro r hr
    rw [List.mem_singleton.mp hr]
    nofun)
  have hlength := lengths_of_likeAppended hrewrite hst hvalid hlike record List.mem_cons_self
  rw [hpayload, hn] at hlength
  exact absurd hlength (Nat.lt_irrefl _)

/-- Two records that are rewritten over an empty journal. -/
theorem short_rewrite_like_appended : ∃ j' d',
    let records : List JournalRecord := [{ payload := [1, 2] }, { type := .boot, tick := 3 }]
    (Journal.rewrite {} records {}) = (.success, j', d') ∧
      LikeAppended {} (records.map JournalRecord.draft) j' d' := by
  have hvalid : ({} : JournalLimits).Valid := ⟨by decide, by decide, by decide⟩
  have hok : (Journal.rewrite {} [{ payload := [1, 2] }, { type := .boot, tick := 3 }] {}).1 = .success := by
    decide +kernel
  rcases hrewrite : Journal.rewrite {} [{ payload := [1, 2] }, { type := .boot, tick := 3 }] {} with
    ⟨st, j', d'⟩
  rw [hrewrite] at hok
  cases hok
  refine ⟨j', d', hrewrite, ?_⟩
  refine (likeAppended_iff {} j' {} d' _ _ hrewrite rfl hvalid (by decide)).mpr (by decide)

end Journal

end Backpressure
