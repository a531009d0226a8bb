import Backpressure.Store.Holds
import Backpressure.Store.DurableState

/-!
# A failed rewrite

A rewrite checks its records against the limits before it touches anything. What fails after that,
fails with the handle closed and the records forgotten: the journal is only usable after a failed
rewrite when the limits refused the records.
-/

namespace Backpressure

/-- The arguments of an append. -/
structure Draft where
  type : RecordType
  tick : Tick
  epoch : Epoch
  payload : Bytes

/-- The payload bytes of the drafts. -/
def draftBytes (drafts : List Draft) : Nat := (drafts.map fun a => a.payload.length).sum

def JournalRecord.draft (r : JournalRecord) : Draft := ⟨r.type, r.tick, r.epoch, r.payload⟩

/-- `write_file_atomic` fails, or the new file is in place. -/
theorem Disk.writeFileAtomic_cases {d d' : Disk} {bytes : Bytes} {st : Status}
    (h : d.writeFileAtomic bytes = (st, d')) :
    st.ok = false ∧ d.fault ≠ none ∧ d' = d.next ∨
      st = .success ∧ d.fault = none ∧ d' = d.next.replace bytes := by
  unfold writeFileAtomic at h
  split at h
  case h_6 hfault =>
    cases h
    exact .inr ⟨rfl, hfault, rfl⟩
  all_goals
    rename_i hfault
    cases h
    exact .inl ⟨rfl, by rw [hfault]; simp, rfl⟩

namespace Journal

variable {j j' : Journal} {d d' : Disk} {st : Status} {records : List JournalRecord}
  {drafts : List Draft}

/-- Appends one after the other, up to the first that fails. -/
def appendAll : List Draft → Journal → Disk → Status × Journal × Disk
  | [], j, d => (.success, j, d)
  | a :: rest, j, d =>
    let (st, j, d) := j.append a.type a.tick a.epoch a.payload d
    if st.ok then appendAll rest j d else (st, j, d)

/-- The limits leave room for the appends. -/
structure Room (j : Journal) (drafts : List Draft) : Prop where
  types : ∀ a ∈ drafts, a.type ≠ .count
  lengths : ∀ a ∈ drafts, a.payload.length < 256 ^ 4
  bytes : ∀ a ∈ drafts, a.payload.length ≤ j.limits.maxRecordBytes
  records : j.records.length + drafts.length ≤ j.limits.maxRecords
  file : j.fileBytes + (drafts.length * kRecordHeaderBytes + draftBytes drafts) ≤
    j.limits.maxFileBytes
  retained : j.retainedBytes + draftBytes drafts ≤ j.limits.maxRetainedBytes

/-- The journal is open with its previous state, the file is as it was, and appends that the limits
leave room for succeed and are read back behind the records. -/
structure Usable (j : Journal) (d : Disk) (j' : Journal) (d' : Disk) : Prop where
  isOpen : j'.isOpen = true
  state : j' = j
  file : d'.file = d.file
  appends : ∀ drafts, j.Room drafts → ∃ j₁ d₁,
    appendAll drafts j' { d' with faults := [] } = (.success, j₁, d₁) ∧
      ∀ createIfMissing, ∃ j₂ d₂, openAt j.limits createIfMissing d₁ = (.ok j₂, d₂) ∧
        ∃ more, j₂.records = j.records ++ more ∧ more.map JournalRecord.draft = drafts

/-- What the limits refuse of a rewrite. -/
def Refuses (limits : JournalLimits) (records : List JournalRecord) : Prop :=
  limits.maxRecords < records.length ∨
    (∃ r ∈ records, limits.maxRecordBytes < r.payload.length) ∨
    limits.maxFileBytes < imageBytes records

/-! ## Appends that have room -/

theorem Room.first {a : Draft} {rest : List Draft} (h : j.Room (a :: rest)) (hopen : j.isOpen = true) :
    (j.checkAppend a.type a.payload).ok = true := by
  have hrecords := h.records
  have hfile := h.file
  have hretained := h.retained
  simp only [List.length_cons, draftBytes, List.map_cons, List.sum_cons, Nat.add_mul] at hrecords hfile hretained
  refine checkAppend_ok.mpr ⟨hopen, h.types a List.mem_cons_self, h.bytes a List.mem_cons_self,
    by omega, by omega, by omega⟩

theorem Room.push {a : Draft} {rest : List Draft} (h : j.Room (a :: rest)) :
    (j.push (j.nextRecord a.type a.tick a.epoch a.payload)).Room rest where
  types b hb := h.types b (List.mem_cons_of_mem a hb)
  lengths b hb := h.lengths b (List.mem_cons_of_mem a hb)
  bytes b hb := h.bytes b (List.mem_cons_of_mem a hb)
  records := by
    have hrecords := h.records
    rw [records_push, limits_push, List.length_append, List.length_singleton]
    rw [List.length_cons] at hrecords
    omega
  file := by
    have hfile := h.file
    rw [fileBytes_push, limits_push, nextRecord_payload]
    simp only [List.length_cons, draftBytes, List.map_cons, List.sum_cons, Nat.add_mul] at hfile ⊢
    omega
  retained := by
    have hretained := h.retained
    rw [retainedBytes_push, limits_push, nextRecord_payload]
    simp only [draftBytes, List.map_cons, List.sum_cons] at hretained ⊢
    omega

/-- A live journal after an append that has room. -/
theorem Live.push {a : Draft} {rest : List Draft} (h : j.Live d) (hroom : j.Room (a :: rest)) :
    (j.push (j.nextRecord a.type a.tick a.epoch a.payload)).Live
      (d.next.write (j.nextRecord a.type a.tick a.epoch a.payload).encode) where
  isOpen := h.isOpen
  valid := h.valid
  holds := h.holds.push (hroom.types a List.mem_cons_self) (hroom.lengths a List.mem_cons_self)
  admits := by
    have hrecords := hroom.records
    have hlength : (a :: rest).length = rest.length + 1 := rfl
    refine ⟨fun r hr => ?_, ?_⟩
    · rcases List.mem_append.mp hr with hr | hr
      · exact h.admits.bytes r hr
      · rw [List.mem_singleton.mp hr]
        exact hroom.bytes a List.mem_cons_self
    · show 0 + (j.records ++ [_]).length ≤ j.limits.maxRecords
      rw [List.length_append, List.length_singleton]
      omega
  retained := by
    have hretained := hroom.retained
    have hsum : draftBytes (a :: rest) = a.payload.length + draftBytes rest := by
      simp [draftBytes]
    have hmemory := h.holds.retained
    rw [records_push, payloadBytes_append, payloadBytes_cons, payloadBytes_nil, nextRecord_payload,
      limits_push]
    omega

/-- Appends that have room succeed when nothing fails. -/
theorem appendAll_live (h : j.Live d) (hroom : j.Room drafts) (hfaults : d.faults = []) :
    ∃ j₁ d₁, appendAll drafts j d = (.success, j₁, d₁) ∧ j₁.Live d₁ ∧ j₁.limits = j.limits ∧
      d₁.faults = [] ∧ ∃ more, j₁.records = j.records ++ more ∧ more.map JournalRecord.draft = drafts := by
  induction drafts generalizing j d with
  | nil => exact ⟨j, d, rfl, h, rfl, hfaults, [], (List.append_nil _).symm, rfl⟩
  | cons a rest ih =>
    have hfault : d.fault = none := by
      rw [Disk.fault, hfaults]
      rfl
    have happend : j.append a.type a.tick a.epoch a.payload d = _ :=
      append_of_ok (hroom.first h.isOpen) hfault
    have hfaults' : (d.next.write (j.nextRecord a.type a.tick a.epoch a.payload).encode).faults = [] := by
      show d.faults.tail = []
      rw [hfaults]
      rfl
    obtain ⟨j₁, d₁, hall, hlive, hlimits, hend, more, hrecords, hmore⟩ :=
      ih (h.push hroom) hroom.push hfaults'
    refine ⟨j₁, d₁, ?_, hlive, hlimits, hend,
      j.nextRecord a.type a.tick a.epoch a.payload :: more, ?_, ?_⟩
    · rw [appendAll, happend]
      exact hall
    · rw [hrecords, records_push, List.append_assoc, List.singleton_append]
    · rw [List.map_cons, hmore]
      rfl

/-- A live journal is read back as it is. -/
theorem Live.reopen (h : j.Live d) (hfaults : d.faults = []) (createIfMissing : Bool) :
    ∃ j₂ d₂, openAt j.limits createIfMissing d = (.ok j₂, d₂) ∧ j₂.records = j.records ∧
      d₂.faults = [] := by
  have hfault : d.fault = none := by
    rw [Disk.fault, hfaults]
    rfl
  have hseek : d.next.fault = none := by
    rw [Disk.fault, Disk.next, hfaults]
    rfl
  have hend : d.next.next.fault = none := by
    rw [Disk.fault, Disk.next, Disk.next, hfaults]
    rfl
  have hopen := @openAt_existing j.limits d createIfMissing h.valid
    (Disk.isSome_of_stored h.holds.stored) hfault
  obtain ⟨j₂, hreplay, hrecords, -⟩ := replayFile_all (j := { limits := j.limits, isOpen := true })
    (d := d.next) h.holds.stored h.admits h.retained hseek hend
  rw [hreplay] at hopen
  refine ⟨j₂, _, hopen, hrecords, ?_⟩
  show d.faults.tail.tail.tail = []
  rw [hfaults]
  rfl

/-- A journal that is as it was is usable. -/
theorem Live.usable (h : j.Live d) (hfile : d'.file = d.file) : j.Usable d j d' where
  isOpen := h.isOpen
  state := rfl
  file := hfile
  appends drafts hroom := by
    have hbytes : ({ d' with faults := [] } : Disk).bytes = d.bytes := by
      show d'.file.getD [] = d.file.getD []
      rw [hfile]
    have hlive : j.Live { d' with faults := [] } := { h with holds := hbytes ▸ h.holds }
    obtain ⟨j₁, d₁, hall, hlive₁, hlimits, hfaults, more, hrecords, hmore⟩ :=
      appendAll_live hlive hroom rfl
    refine ⟨j₁, d₁, hall, fun createIfMissing => ?_⟩
    obtain ⟨j₂, d₂, hopen, hsame, -⟩ := hlive₁.reopen hfaults createIfMissing
    rw [hlimits] at hopen
    exact ⟨j₂, d₂, hopen, more, hsame.trans hrecords, hmore⟩

/-! ## What a rewrite checks -/

/-- The rewritten bytes go through exactly when every payload and the whole size fit. -/
theorem encodeAll_error_iff {limits : JournalLimits} {sequence : UInt64} {previous : Digest128}
    {buffer : Bytes} (hbuffer : buffer.length ≤ limits.maxFileBytes) :
    (∃ st, encodeAll limits records sequence previous buffer = .error st) ↔
      (∃ r ∈ records, limits.maxRecordBytes < r.payload.length) ∨
        limits.maxFileBytes <
          buffer.length + (records.length * kRecordHeaderBytes + payloadBytes records) := by
  induction records generalizing sequence previous buffer with
  | nil =>
    simp only [encodeAll, reduceCtorEq, exists_false, List.not_mem_nil, false_and, false_or,
      List.length_nil, Nat.zero_mul, payloadBytes_nil, Nat.add_zero, false_iff, not_lt]
    exact hbuffer
  | cons r rest ih =>
    rw [encodeAll]
    by_cases hsize : limits.maxRecordBytes < r.payload.length
    · rw [if_pos hsize]
      exact iff_of_true ⟨_, rfl⟩ (.inl ⟨r, List.mem_cons_self, hsize⟩)
    · rw [if_neg hsize]
      dsimp only
      simp only [List.length_append, JournalRecord.length_encode, List.length_cons,
        payloadBytes_cons, Nat.add_mul]
      by_cases hfile : limits.maxFileBytes <
          buffer.length + (kRecordHeaderBytes + r.payload.length)
      · rw [if_pos hfile]
        exact iff_of_true ⟨_, rfl⟩ (.inr (by omega))
      · rw [if_neg hfile, ih (by
          rw [List.length_append, JournalRecord.length_encode]
          exact not_lt.mp hfile)]
        simp only [List.length_append, JournalRecord.length_encode, List.mem_cons]
        constructor
        · rintro (⟨r', hr', hlt⟩ | hlt)
          · exact .inl ⟨r', .inr hr', hlt⟩
          · exact .inr (by omega)
        · rintro (⟨r', rfl | hr', hlt⟩ | hlt)
          · exact absurd hlt hsize
          · exact .inl ⟨r', hr', hlt⟩
          · exact .inr (by omega)

/-- A rewrite is refused before it touches anything exactly when the limits refuse its records. -/
theorem rewriteImage_error_iff (hvalid : j.limits.Valid) :
    (∃ st, j.rewriteImage records = .error st) ↔ Refuses j.limits records := by
  unfold rewriteImage Refuses
  by_cases hcount : j.limits.maxRecords < records.length
  · rw [if_pos hcount]
    exact iff_of_true ⟨_, rfl⟩ (.inl hcount)
  · rw [if_neg hcount, encodeAll_error_iff (by
      rw [length_fileHeader]
      exact hvalid.fileBytes), length_fileHeader]
    exact ⟨.inr, fun h => h.resolve_left hcount⟩

/-- A replay that fails does not set the size. -/
theorem fileBytes_of_failed (h : j.replayFile d = (st, j', d')) (hst : st.ok = false) :
    j'.fileBytes = j.fileBytes := by
  have hseek : ∀ {j₀ : Journal} {offset : Nat} {d₀ : Disk}, j₀.seekEnd offset d₀ = (st, j', d') →
      j'.fileBytes = j₀.fileBytes := by
    intro j₀ offset d₀ hend
    unfold seekEnd at hend
    split at hend
    · cases hend
      rfl
    · cases hend
      cases hst
  unfold replayFile at h
  split at h
  · cases h
    rfl
  · dsimp only at h
    split at h
    · cases h
      rfl
    · split at h
      · cases h
        rfl
      · split at h
        · split at h
          · cases h
            rfl
          · have hsize := hseek h
            exact hsize
        · have hsize := hseek h
          exact hsize

theorem encodeAll_error {limits : JournalLimits} {sequence : UInt64} {previous : Digest128}
    {buffer : Bytes} (h : encodeAll limits records sequence previous buffer = .error st) : st.ok = false := by
  induction records generalizing sequence previous buffer with
  | nil => cases h
  | cons record rest ih =>
    rw [encodeAll] at h
    split at h
    · cases h
      rfl
    dsimp only at h
    split at h
    · cases h
      rfl
    · exact ih h

theorem rewriteImage_error (h : j.rewriteImage records = .error st) : st.ok = false := by
  unfold rewriteImage at h
  split at h
  · cases h
    rfl
  · exact encodeAll_error h

/-- A rewrite that its checks refuse changes nothing. -/
theorem rewrite_refused {refused : Status} (hrefused : j.rewriteImage records = .error refused) :
    j.rewrite records d = (refused, j, d) := by
  rw [rewrite, hrefused]

/-- A rewrite that the limits refuse fails. -/
theorem rewrite_of_refuses (hvalid : j.limits.Valid) (h : Refuses j.limits records) :
    ∃ refused, refused.ok = false ∧ j.rewrite records d = (refused, j, d) := by
  obtain ⟨refused, hrefused⟩ := (rewriteImage_error_iff hvalid).mpr h
  exact ⟨refused, rewriteImage_error hrefused, rewrite_refused hrefused⟩

/-- A rewrite is refused before it does anything, or the file is not written, or a handle of the
new file is not opened, or the new file is read back. -/
theorem rewrite_cases (h : j.rewrite records d = (st, j', d')) :
    st.ok = false ∧ (∃ refused, j.rewriteImage records = .error refused) ∧ j' = j ∧ d' = d ∨
      ∃ image, j.rewriteImage records = .ok image ∧
        (st.ok = false ∧ d.fault ≠ none ∧ j' = { limits := j.limits } ∧ d' = d.next ∨
          d.fault = none ∧
            (st.ok = false ∧ j' = { limits := j.limits } ∧ d' = (d.next.replace image).next ∨
              replayFile { limits := j.limits, isOpen := true } (d.next.replace image).next =
                (st, j', d'))) := by
  cases himage : j.rewriteImage records with
  | error refused =>
    rw [rewrite_refused himage] at h
    cases h
    exact .inl ⟨rewriteImage_error himage, ⟨_, rfl⟩, rfl, rfl⟩
  | ok image =>
    refine .inr ⟨image, rfl, ?_⟩
    unfold rewrite at h
    rw [himage] at h
    dsimp only at h
    rcases hwrite : d.writeFileAtomic image with ⟨st₁, d₁⟩
    rw [hwrite] at h
    dsimp only at h
    rcases Disk.writeFileAtomic_cases hwrite with ⟨hno, hfault, rfl⟩ | ⟨rfl, hfault, rfl⟩
    · rw [hno, Bool.not_false, if_pos rfl] at h
      cases h
      exact .inl ⟨hno, hfault, rfl, rfl⟩
    · rw [Status.ok_success, Bool.not_true, if_neg (by decide)] at h
      rcases hhandle : openHandle { limits := j.limits } (d.next.replace image) with ⟨st₂, j₂, d₂⟩
      rw [hhandle] at h
      dsimp only at h
      refine .inr ⟨hfault, ?_⟩
      unfold openHandle at hhandle
      split at hhandle
      · cases hhandle
        cases h
        exact .inl ⟨rfl, rfl, rfl⟩
      · cases hhandle
        rw [Status.ok_success, Bool.not_true, if_neg (by decide)] at h
        exact .inr h

/-- A rewrite that fails after its checks leaves a journal that is closed or does not know the size
of its file. -/
theorem rewrite_lost {image : Bytes} (himage : j.rewriteImage records = .ok image)
    (h : j.rewrite records d = (st, j', d')) (hst : st.ok = false) :
    j'.isOpen = false ∨ j'.fileBytes = 0 := by
  rcases rewrite_cases h with
    ⟨-, ⟨refused, herror⟩, -⟩ | ⟨image', -, ⟨-, -, rfl, -⟩ | ⟨-, ⟨-, rfl, -⟩ | hreplay⟩⟩
  · rw [himage] at herror
    cases herror
  · exact .inl rfl
  · exact .inl rfl
  · exact .inr (fileBytes_of_failed hreplay hst)

/-- After a failed rewrite the journal is usable exactly when the limits refused its records. -/
theorem usable_iff_refuses (hlive : j.Live d) (h : j.rewrite records d = (st, j', d'))
    (hst : st.ok = false) : j.Usable d j' d' ↔ Refuses j.limits records := by
  rw [← rewriteImage_error_iff hlive.valid]
  cases himage : j.rewriteImage records with
  | error refused =>
    rw [rewrite_refused himage] at h
    cases h
    exact iff_of_true (hlive.usable rfl) ⟨_, rfl⟩
  | ok image =>
    refine iff_of_false ?_ (by simp)
    intro husable
    rcases rewrite_lost himage h hst with hclosed | hzero
    · rw [husable.isOpen] at hclosed
      cases hclosed
    · have hsize := hlive.holds.fileBytes
      rw [husable.state] at hzero
      rw [hzero, imageBytes, kHeaderBytes] at hsize
      omega

end Journal

namespace DurableStore

variable {s s' : DurableStore} {d d' : Disk} {st : Status}

/-- The store is the store it was, and its journal is usable. -/
def Usable (s : DurableStore) (d : Disk) (s' : DurableStore) (d' : Disk) : Prop :=
  s' = s ∧ s.journal.Usable d s'.journal d'

/-- A compaction is refused before it touches the file: its records cannot be encoded, or the limits
refuse them. -/
def CompactRefused (s : DurableStore) : Prop :=
  ∀ records, s.compacted = .ok records → Journal.Refuses s.journal.limits records

/-- After a failed compaction the store is usable exactly when the limits refused its records. -/
theorem usable_iff_compactRefused (hlive : s.journal.Live d) (h : s.compact d = (st, s', d'))
    (hst : st.ok = false) : s.Usable d s' d' ↔ s.CompactRefused := by
  unfold compact at h
  cases hrecords : s.compacted with
  | error refused =>
    rw [hrecords] at h
    cases h
    refine iff_of_true ⟨rfl, hlive.usable rfl⟩ ?_
    intro records hok
    rw [hrecords] at hok
    cases hok
  | ok records =>
    rw [hrecords] at h
    dsimp only at h
    rcases hrewrite : s.journal.rewrite records d with ⟨st₁, j₁, d₁⟩
    rw [hrewrite] at h
    dsimp only at h
    have hiff : s.CompactRefused ↔ Journal.Refuses s.journal.limits records := by
      constructor
      · exact fun hall => hall records hrecords
      · intro hrefuses records' hok
        rw [hrecords] at hok
        cases hok
        exact hrefuses
    rw [hiff]
    cases hok : st₁.ok with
    | true =>
      rw [hok, Bool.not_true, if_neg (by decide)] at h
      cases h
      cases hst
    | false =>
      rw [hok, Bool.not_false, if_pos rfl] at h
      cases h
      rw [← Journal.usable_iff_refuses hlive hrewrite hst]
      constructor
      · exact fun husable => husable.2
      · intro husable
        refine ⟨?_, husable⟩
        show { s with journal := j₁ } = s
        rw [husable.state]

end DurableStore

/-- A failed rewrite leaves the journal usable, and a failed compaction the store, whether it was
asked for or came with the number of records, exactly when its records were refused before the file
was touched. -/
theorem failed_compaction_usable_iff (s s' : DurableStore) (j' : Journal) (d d' : Disk)
    (records : List JournalRecord) (threshold : Nat) (hlive : s.journal.Live d) :
    (∀ st, s.journal.rewrite records d = (st, j', d') → st.ok = false →
        (s.journal.Usable d j' d' ↔ Journal.Refuses s.journal.limits records)) ∧
      (∀ st, s.compact d = (st, s', d') → st.ok = false →
        (s.Usable d s' d' ↔ s.CompactRefused)) ∧
      (s.compactIfNeeded threshold d = (0, s', d') →
        (s.Usable d s' d' ↔
          threshold = 0 ∨ s.journal.records.length < threshold ∨ s.CompactRefused)) := by
  refine ⟨fun st h hst => Journal.usable_iff_refuses hlive h hst,
    fun st h hst => DurableStore.usable_iff_compactRefused hlive h hst, fun h => ?_⟩
  unfold DurableStore.compactIfNeeded at h
  by_cases hfew : threshold = 0 ∨ s.journal.records.length < threshold
  · rw [if_pos hfew] at h
    cases h
    refine iff_of_true ⟨rfl, hlive.usable rfl⟩ ?_
    exact hfew.imp_right .inl
  · rw [if_neg hfew] at h
    rcases hcompact : s.compact d with ⟨st, s₁, d₁⟩
    rw [hcompact] at h
    dsimp only at h
    have hst : st.ok = false := by
      cases hok : st.ok with
      | false => rfl
      | true =>
        rw [hok, if_pos rfl] at h
        cases h
    rw [hst, if_neg (by decide)] at h
    cases h
    rw [DurableStore.usable_iff_compactRefused hlive hcompact hst]
    obtain ⟨hzero, hmany⟩ := not_or.mp hfew
    constructor
    · exact fun hrefused => .inr (.inr hrefused)
    · exact fun hor => (hor.resolve_left hzero).resolve_left hmany

/-- A new journal with any limits that `open` accepts. -/
theorem Journal.fresh_live {limits : JournalLimits} (hvalid : limits.Valid)
    (faults : List (Option Nat)) :
    ({ limits, isOpen := true, fileBytes := kHeaderBytes } : Journal).Live
      { file := some fileHeader, faults } where
  isOpen := rfl
  valid := hvalid
  holds := ⟨Stored.fresh, rfl, rfl, rfl, rfl⟩
  admits := ⟨fun _ hr => absurd hr List.not_mem_nil, Nat.zero_le _⟩
  retained := Nat.zero_le _

/-- Two records for a journal with room for one. -/
theorem refused_usable :
    (∃ j d st j' d', (j : Journal).rewrite [{}, {}] d = (st, j', d') ∧ st.ok = false ∧
        j.Usable d j' d') ∧
      (∃ s d st s' d', (s : DurableStore).compact d = (st, s', d') ∧ st.ok = false ∧
        s.Usable d s' d') ∧
      ∃ s d s' d', (s : DurableStore).compactIfNeeded 1 d = (0, s', d') ∧ s.Usable d s' d' := by
  have hvalid : ({ maxRecords := 1 } : JournalLimits).Valid := ⟨by decide, by decide, by decide⟩
  have hlive := Journal.fresh_live hvalid []
  have hrefuses : ∀ records : List JournalRecord, records.length = 2 →
      Journal.Refuses { maxRecords := 1 } records := by
    intro records hlength
    refine .inl ?_
    rw [hlength]
    decide
  have hcompacted : ({} : DurableStore).compacted.toOption.map List.length = some 2 := by
    decide +kernel
  have hfew : ({ journal :=
      { limits := { maxRecords := 1 }, isOpen := true, fileBytes := kHeaderBytes } } :
      DurableStore).compactIfNeeded 1 { file := some fileHeader, faults := [] } = (0, _, _) :=
    if_pos (.inr (by decide))
  obtain ⟨st, hst, hrewrite⟩ := @Journal.rewrite_of_refuses
    { limits := { maxRecords := 1 }, isOpen := true, fileBytes := kHeaderBytes }
    { file := some fileHeader, faults := [] } [{}, {}] hvalid (hrefuses [{}, {}] rfl)
  refine ⟨⟨_, _, _, _, _, hrewrite, hst, ?_⟩, ?_, ⟨_, _, _, _, hfew, ?_⟩⟩
  · exact ((failed_compaction_usable_iff { journal := _ } {} _ _ _ _ 0 hlive).1 _ hrewrite hst).mpr
      (hrefuses _ rfl)
  · cases hrecords : ({} : DurableStore).compacted with
    | error st =>
      rw [hrecords] at hcompacted
      cases hcompacted
    | ok records =>
      rw [hrecords] at hcompacted
      obtain ⟨st₂, hst₂, hrewrite₂⟩ := @Journal.rewrite_of_refuses
        { limits := { maxRecords := 1 }, isOpen := true, fileBytes := kHeaderBytes }
        { file := some fileHeader, faults := [] } records hvalid
        (hrefuses records (Option.some.inj hcompacted))
      let s : DurableStore :=
        { journal := { limits := { maxRecords := 1 }, isOpen := true, fileBytes := kHeaderBytes } }
      have hsame : s.compacted = .ok records := hrecords
      have hcompact : s.compact { file := some fileHeader, faults := [] } =
          (st₂, s, { file := some fileHeader, faults := [] }) := by
        unfold DurableStore.compact
        rw [hsame]
        dsimp only
        rw [hrewrite₂]
        dsimp only
        rw [hst₂, Bool.not_false, if_pos rfl]
      refine ⟨s, _, _, _, _, hcompact, hst₂, ?_⟩
      refine ((failed_compaction_usable_iff s _ {} _ _ [] 0 hlive).2.1 _ hcompact hst₂).mpr ?_
      intro records' hrecords'
      rw [hsame] at hrecords'
      cases hrecords'
      exact hrefuses records (Option.some.inj hcompacted)
  · exact ((failed_compaction_usable_iff _ _ {} _ _ [] 1 hlive).2.2 hfew).mpr
      (.inr (.inl (by decide)))

/-- An atomic write that fails, for a rewrite that its checks let through. -/
theorem failed_write_unusable :
    ¬∀ (j j' : Journal) (d d' : Disk) (records : List JournalRecord) (st : Status), j.Live d →
      j.rewrite records d = (st, j', d') → st.ok = false → j.Usable d j' d' := by
  intro h
  have hvalid : ({} : JournalLimits).Valid := ⟨by decide, by decide, by decide⟩
  have husable := h _ _ _ _ [] _ (Journal.fresh_live hvalid [some 0]) rfl rfl
  cases husable.isOpen

end Backpressure
