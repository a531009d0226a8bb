import Backpressure.Store.Damage
import Backpressure.Store.Faultless

/-!
# A torn tail

The file of a journal is cut anywhere behind its header. An open reads the records that are whole,
cuts off the rest, and the appends behind it go on from there.
-/

namespace Backpressure

namespace Journal

variable {limits : JournalLimits} {j j' : Journal} {d d' : Disk} {st : Status}
  {drafts : List Draft} {rs kept : List JournalRecord} {k : Nat}

/-- Appends that succeed put their records behind those of the journal, and their bytes into the
file. -/
theorem records_appendAll (hrun : appendAll drafts j d = (st, j', d')) (hst : st.ok = true) :
    ∃ rs, j'.records = j.records ++ rs ∧ rs.map JournalRecord.draft = drafts ∧
      d'.bytes.length + imageBytes j.records = d.bytes.length + imageBytes j'.records := by
  induction drafts generalizing j d with
  | nil =>
    cases hrun
    exact ⟨[], (List.append_nil _).symm, rfl, rfl⟩
  | cons a rest ih =>
    rw [appendAll] at hrun
    rcases happend : j.append a.type a.tick a.epoch a.payload d with ⟨st₁, j₁, d₁⟩
    rw [happend] at hrun
    dsimp only at hrun
    split at hrun
    case isFalse hno =>
      cases hrun
      exact absurd hst hno
    case isTrue hok =>
      rcases append_cases happend with ⟨-, hno, -⟩ |
        ⟨hcheck, ⟨-, -, hno, -⟩ | ⟨-, -, rfl, rfl⟩⟩
      · rw [hno] at hok
        cases hok
      · rw [hno] at hok
        cases hok
      · obtain ⟨rs, hrecords, hdrafts, hlength⟩ := ih hrun
        refine ⟨j.nextRecord a.type a.tick a.epoch a.payload :: rs, ?_,
          congrArg (a :: ·) hdrafts, ?_⟩
        · rw [hrecords, records_push, List.append_assoc, List.singleton_append]
        · rw [records_push, imageBytes_append, Disk.bytes_write, List.length_append,
            JournalRecord.length_encode, payloadBytes_cons, payloadBytes_nil, List.length_singleton,
            Disk.bytes_next] at hlength
          omega

/-- If their lengths fit the field for them, they keep a journal live. -/
theorem Live.appends (h : j.Live d) (hlengths : ∀ a ∈ drafts, a.payload.length < 256 ^ 4)
    (hrun : appendAll drafts j d = (st, j', d')) (hst : st.ok = true) :
    j'.Live d' ∧ j'.limits = j.limits := by
  induction drafts generalizing j d with
  | nil =>
    cases hrun
    exact ⟨h, rfl⟩
  | cons a rest ih =>
    rw [List.forall_mem_cons] at hlengths
    rw [appendAll] at hrun
    rcases happend : j.append a.type a.tick a.epoch a.payload d with ⟨st₁, j₁, d₁⟩
    rw [happend] at hrun
    dsimp only at hrun
    split at hrun
    case isFalse hno =>
      cases hrun
      exact absurd hst hno
    case isTrue hok =>
      rcases append_cases happend with ⟨-, hno, -⟩ |
        ⟨hcheck, ⟨-, -, hno, -⟩ | ⟨-, -, rfl, rfl⟩⟩
      · rw [hno] at hok
        cases hok
      · rw [hno] at hok
        cases hok
      · obtain ⟨hlive, hlimits⟩ := ih (h.appended hcheck hlengths.1) hlengths.2 hrun
        exact ⟨hlive, hlimits⟩

/-- Appends to a disk that does not fail leave it so. -/
theorem faults_appendAll (h : d.faults = []) : (appendAll drafts j d).2.2.faults = [] := by
  induction drafts generalizing j d with
  | nil => exact h
  | cons a rest ih =>
    rw [appendAll]
    rcases happend : j.append a.type a.tick a.epoch a.payload d with ⟨st₁, j₁, d₁⟩
    have hfaults : d₁.faults = [] := by
      rcases append_cases happend with ⟨-, -, -, rfl⟩ |
        ⟨-, ⟨_, -, -, -, rfl⟩ | ⟨-, -, -, rfl⟩⟩
      · exact h
      · exact congrArg List.tail h
      · exact congrArg List.tail h
    dsimp only
    split
    · exact ih hfaults
    · exact hfaults

/-- The longest part of the records that lies wholly in front of the cut. -/
structure LongestWithin (rs : List JournalRecord) (k : Nat) (kept : List JournalRecord) :
    Prop where
  front : kept <+: rs
  within : imageBytes kept ≤ k
  longest : ∀ more, more <+: rs → imageBytes more ≤ k → more <+: kept

theorem LongestWithin.unique (h : LongestWithin rs k kept) {kept' : List JournalRecord}
    (h' : LongestWithin rs k kept') : kept' = kept :=
  (h.longest kept' h'.front h'.within).eq_of_length_le
    (h'.longest kept h.front h.within).length_le

/-- The open of a live journal that was cut behind its header. -/
theorem Live.open_cut (h : j.Live d) (hk : kHeaderBytes ≤ k) {d₂ : Disk}
    (hbytes : d₂.bytes = d.bytes.take k) (hfaults : d₂.faults = []) (again : Bool) :
    ∃ j' d', openAt j.limits again d₂ = (.ok j', d') ∧ LongestWithin j.records k j'.records ∧
      d'.bytes = d.bytes.take (imageBytes j'.records) ∧ j'.Live d' ∧ j'.limits = j.limits ∧
      d'.faults = [] := by
  have hreadable : Readable j.limits d₂.bytes := hbytes ▸ h.readable.take hk
  have hsome : d₂.file.isSome = true := by
    by_contra hnone
    rw [Bool.not_eq_true, Option.isSome_eq_false_iff, Option.isNone_iff_eq_none] at hnone
    have hlong := hreadable.long
    rw [Disk.bytes, hnone] at hlong
    exact absurd hlong (by decide)
  have hopens : ∃ j', (openAt j.limits again d₂).1 = .ok j' :=
    openAt_ok_of_replayed h.valid hsome hfaults hreadable.header hreadable.whole
  rcases hopen : openAt j.limits again d₂ with ⟨r, d'⟩
  obtain ⟨j', hr⟩ := hopens
  rw [hopen] at hr
  dsimp only at hr
  rw [hr] at hopen
  obtain ⟨hlive, hlimits⟩ := openAt_live hopen
  have hend := @faults_openAt d₂ j.limits again hfaults
  rw [hopen] at hend
  rw [hr]
  rcases openAt_cases hopen with
    ⟨⟨st, herror⟩, -⟩ | ⟨j₀, d₀, st, j₁, -, -, hd, hlimits₀, -, hreplay, hend'⟩
  · cases herror
  rcases hend' with ⟨hst, hj⟩ | ⟨-, st', herror⟩
  case inr => cases herror
  cases hj
  have hd₀ : d₀ = d₂.next := by
    rcases hd with ⟨-, heq⟩ | ⟨hnone, -⟩
    · exact heq
    · rw [hnone] at hsome
      cases hsome
  rw [hd₀] at hreplay
  rcases replayFile_cases hreplay with
    ⟨hno, -⟩ | ⟨rs, tail, hstored, -, hrs, -, -, hcut, -, -, -, hok⟩
  · rw [hno] at hst
    cases hst
  obtain ⟨hrecords, -⟩ := hok hst
  rw [Disk.bytes_next] at hstored hrs hcut
  rw [hlimits₀] at hrs
  rw [← hrecords] at hstored hcut hrs
  rw [hbytes] at hstored hcut
  have hwithin : imageBytes j'.records ≤ k := by
    have hlength := hstored.length
    rw [List.length_take] at hlength
    omega
  have hkept : j'.records <+: j.records := h.holds.stored.prefix_all hstored.of_take
  refine ⟨j', d', rfl, ⟨hkept, hwithin, fun more hfront hmore => ?_⟩, ?_, hlive, hlimits, hend⟩
  · obtain ⟨rest, hall⟩ := hfront
    obtain ⟨bytes, hmores, -⟩ := (hall ▸ h.holds.stored : Stored d.bytes (more ++ rest) []).front
    have hadmits : Admits j.limits {} more := by
      have hbound := h.admits.records
      rw [← hall, List.length_append] at hbound
      refine ⟨fun r hr => h.admits.bytes r (hall ▸ List.mem_append_left rest hr), ?_⟩
      exact le_trans (Nat.add_le_add_left (Nat.le_add_right _ _) _) hbound
    rcases (hmores.take hmore).replayed_extends hadmits with hno | hyes
    · rw [← hbytes, hreadable.whole] at hno
      cases hno
    · rw [hrs, hbytes]
      exact hyes
  · rw [hcut, List.take_take, min_eq_left hwithin]

/-- Wherever the file is cut, an open returns the longest part of the records in front of the cut,
leaves just that, and what is appended and synced behind it is returned by the next open, even after
a crash. -/
def RecoversCuts (limits : JournalLimits) (j : Journal) (d : Disk) (more : List Draft) : Prop :=
  ∀ (k : Nat) (again : Bool) (d₂ : Disk), kHeaderBytes ≤ k → d₂.bytes = d.bytes.take k →
    d₂.faults = [] → ∃ j' d', openAt limits again d₂ = (.ok j', d') ∧
      LongestWithin j.records k j'.records ∧ d'.bytes = d.bytes.take (imageBytes j'.records) ∧
      ∀ j'' d'' d₃ n, appendAll more j' d' = (.success, j'', d'') →
        j''.sync d'' = (.success, d₃) → ∃ j₃ d₄ rs,
          openAt limits again (d₃.crash n) = (.ok j₃, d₄) ∧ j₃.records = j'.records ++ rs ∧
            rs.map JournalRecord.draft = more

/-- A synced file loses nothing in a crash. -/
theorem bytes_crash_sync {d₃ : Disk} (h : j.sync d = (.success, d₃)) (n : Nat) :
    (d₃.crash n).bytes = d.bytes := by
  obtain ⟨hbytes, -, hsynced⟩ := sync_cases h
  have hall : d₃.synced = d.bytes.length := hsynced rfl
  have hcrash : (d₃.crash n).bytes = d₃.bytes.take (max n d₃.synced) := by
    unfold Disk.crash Disk.bytes
    dsimp only [Disk.become]
    cases d₃.file with
    | none => exact List.take_nil.symm
    | some bytes => rfl
  rw [hcrash, hall, hbytes, List.take_of_length_le (le_max_right _ _)]

theorem faults_crash_sync {d₃ : Disk} (hfaults : d.faults = []) (h : j.sync d = (st, d₃))
    (n : Nat) : (d₃.crash n).faults = [] := by
  show d₃.faults = []
  unfold sync at h
  split at h
  · cases h
    exact hfaults
  · unfold Disk.sync at h
    split at h <;> cases h <;> exact congrArg List.tail hfaults

/-- A live journal recovers from every cut. -/
theorem Live.recovers (h : j.Live d) {more : List Draft}
    (hmore : ∀ a ∈ more, a.payload.length < 256 ^ 4) : RecoversCuts j.limits j d more := by
  intro k again d₂ hk hbytes hfaults
  obtain ⟨j', d', hopen, hlongest, hcut, hlive, hlimits, hend⟩ := h.open_cut hk hbytes hfaults again
  refine ⟨j', d', hopen, hlongest, hcut, fun j'' d'' d₃ n hrun hsync => ?_⟩
  obtain ⟨hlive'', hlimits''⟩ := hlive.appends hmore hrun rfl
  obtain ⟨rs, hrecords, hdrafts, -⟩ := records_appendAll hrun rfl
  have hnone : d''.faults = [] := by
    have hafter := @faults_appendAll j' d' more hend
    rwa [hrun] at hafter
  have hbytes'' := bytes_crash_sync hsync n
  -- the crash leaves the whole file, so the open cuts nothing
  have hlength := hlive''.holds.stored.length
  rw [List.length_nil, Nat.add_zero] at hlength
  obtain ⟨j₃, d₄, hopen₃, hlongest₃, -⟩ := hlive''.open_cut (k := d''.bytes.length)
    (long_of_checkHeader hlive''.holds.stored.header) (by rw [hbytes'', List.take_length])
    (faults_crash_sync hnone hsync n) again
  have hall : j₃.records = j''.records :=
    (LongestWithin.unique ⟨List.prefix_refl _, hlength.ge, fun _ hfront _ => hfront⟩ hlongest₃)
  rw [hlimits'', hlimits] at hopen₃
  exact ⟨j₃, d₄, rs, hopen₃, hall.trans hrecords, hdrafts⟩

/-- What is returned of an uncut file has payloads whose lengths fit their field. -/
theorem RecoversCuts.lengths {more : List Draft} (h : RecoversCuts limits j d more)
    (hlong : kHeaderBytes ≤ d.bytes.length) (hlength : imageBytes j.records ≤ d.bytes.length) :
    ∀ r ∈ j.records, r.payload.length < 256 ^ 4 := by
  intro r hr
  obtain ⟨j', d', hagain, hlongest, -⟩ := h d.bytes.length true { file := d.file } hlong
    (List.take_length).symm rfl
  have hmem : r ∈ j'.records := (hlongest.longest j.records (List.prefix_refl _) hlength).subset hr
  obtain ⟨bytes, -, hchunks⟩ := (openAt_live hagain).1.holds.stored.chunks
  exact chunks_lengths hchunks r hmem

/-- The file is as long as the records that were appended to it. -/
theorem Live.length_appends (h : j.Live d) (hrun : appendAll drafts j d = (st, j', d'))
    (hst : st.ok = true) : d'.bytes.length = imageBytes j'.records := by
  obtain ⟨rs, -, -, hlength⟩ := records_appendAll hrun hst
  have hstart := h.holds.stored.length
  rw [List.length_nil] at hstart
  omega

/-- A journal that successful appends have built recovers from every cut exactly when no payload is
longer than the field for its length can say. -/
theorem recovers_cuts_iff (limits : JournalLimits) (create : Bool) (d d₀ d₁ : Disk) (j₀ j : Journal)
    (drafts more : List Draft) (hopen : openAt limits create d = (.ok j₀, d₀))
    (hrun : appendAll drafts j₀ d₀ = (.success, j, d₁))
    (hmore : ∀ a ∈ more, a.payload.length < 256 ^ 4) :
    ((∃ rs, j.records = j₀.records ++ rs ∧ rs.map JournalRecord.draft = drafts) ∧
        RecoversCuts limits j d₁ more) ↔
      ∀ a ∈ drafts, a.payload.length < 256 ^ 4 := by
  obtain ⟨hlive, hlimits⟩ := openAt_live hopen
  obtain ⟨rs, hrecords, hdrafts, -⟩ := records_appendAll hrun rfl
  constructor
  · rintro ⟨-, hrecovers⟩ a ha
    rw [← hdrafts] at ha
    obtain ⟨r, hr, rfl⟩ := List.mem_map.mp ha
    have hlength := hlive.length_appends hrun rfl
    have hlong : kHeaderBytes ≤ d₁.bytes.length :=
      (Nat.le_add_right _ _).trans_eq hlength.symm
    exact hrecovers.lengths hlong hlength.ge r (hrecords ▸ List.mem_append_right j₀.records hr)
  · intro hlengths
    obtain ⟨hlive', hlimits'⟩ := hlive.appends hlengths hrun rfl
    refine ⟨⟨rs, hrecords, hdrafts⟩, ?_⟩
    rw [← hlimits, ← hlimits']
    exact hlive'.recovers hmore

def fewDrafts : List Draft := [⟨.epoch, 0, ⟨1⟩, [1, 2, 3]⟩, ⟨.boot, 5, ⟨1⟩, []⟩]

theorem few_recover : ∃ j₀ d₀ j d₁, openAt {} true {} = (.ok j₀, d₀) ∧
    appendAll fewDrafts j₀ d₀ = (.success, j, d₁) ∧ RecoversCuts {} j d₁ fewDrafts := by
  have hok : (openAt {} true {}).1.toOption.map (fun j =>
      (appendAll fewDrafts j (openAt {} true {}).2).1) = some .success := by
    decide +kernel
  rcases hopen : openAt {} true {} with ⟨r, d₀⟩
  rw [hopen] at hok
  cases r with
  | error st => cases hok
  | ok j₀ =>
    have hst : (appendAll fewDrafts j₀ d₀).1 = .success := Option.some.inj hok
    rcases hrun : appendAll fewDrafts j₀ d₀ with ⟨st, j, d₁⟩
    rw [hrun] at hst
    cases hst
    exact ⟨j₀, d₀, j, d₁, rfl, hrun,
      ((recovers_cuts_iff {} true {} d₀ d₁ j₀ j fewDrafts fewDrafts hopen hrun (by decide)).mpr
        (by decide)).2⟩

/-- One payload of four gibibytes, under limits that allow it, is not returned. -/
theorem wide_not_returned :
    ¬∀ (limits : JournalLimits) (create : Bool) (d d₀ d₁ : Disk) (j₀ j : Journal)
      (drafts more : List Draft), openAt limits create d = (.ok j₀, d₀) →
      appendAll drafts j₀ d₀ = (.success, j, d₁) → RecoversCuts limits j d₁ more := by
  intro hall
  obtain ⟨n, hn⟩ : ∃ n, n = 256 ^ 4 := ⟨_, rfl⟩
  let limits : JournalLimits :=
    { maxRecordBytes := n, maxRecords := 1, maxFileBytes := n + 84, maxRetainedBytes := n + 84 }
  let draft : Draft := ⟨.epoch, 0, {}, List.replicate n 0⟩
  have hpayload : draft.payload.length = n := List.length_replicate
  have hvalid : limits.Valid := by
    refine ⟨?_, one_ne_zero, ?_⟩
    · show 16 ≤ n
      rw [hn]
      norm_num
    · show 32 ≤ n + 84
      omega
  obtain ⟨j₀, d₀, hopen, hrecords, hlimits, hlive, hfaults⟩ :=
    @openAt_new limits {} hvalid rfl rfl
  have hcheck : (j₀.checkAppend draft.type draft.payload).ok = true := by
    refine checkAppend_ok.mpr ⟨hlive.isOpen, (by decide : RecordType.epoch ≠ .count), ?_⟩
    rw [hlive.holds.fileBytes, hlive.holds.retained, hrecords, hlimits, hpayload]
    refine ⟨le_refl n, one_pos, ?_, ?_⟩
    · show 32 + (52 + n) ≤ n + 84
      omega
    · show 0 + n ≤ n + 84
      omega
  have hfault : d₀.fault = none := DurableStore.fault_of_faults hfaults
  have hrun : appendAll [draft] j₀ d₀ =
      (.success, j₀.push (j₀.nextRecord draft.type draft.tick draft.epoch draft.payload),
        d₀.next.write (j₀.nextRecord draft.type draft.tick draft.epoch draft.payload).encode) := by
    rw [appendAll, append_of_ok hcheck hfault]
    rfl
  have hrecovers := hall limits true {} d₀ _ j₀ _ [draft] [] hopen hrun
  have hlength := hlive.length_appends hrun rfl
  have hlong : kHeaderBytes ≤ _ := (Nat.le_add_right _ _).trans_eq hlength.symm
  have hshort := hrecovers.lengths hlong hlength.ge
    (j₀.nextRecord draft.type draft.tick draft.epoch draft.payload)
    (List.mem_append_right j₀.records List.mem_cons_self)
  rw [nextRecord_payload, hpayload, hn] at hshort
  exact absurd hshort (Nat.lt_irrefl _)

end Journal

end Backpressure
