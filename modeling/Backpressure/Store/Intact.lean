import Backpressure.Store.Holds

/-!
# Opening an intact journal

A journal that only successful appends have written is read back as a whole by an open with the
same limits. An open with smaller limits takes a record that they do not allow for the end of the
file and cuts it off, together with all that is behind it.
-/

namespace Backpressure

/-- The limits on sizes and numbers cut the records off where the limit on memory lets a replay
come to that. -/
def JournalLimits.CutOff (limits : JournalLimits) (rs : List JournalRecord) : Prop :=
  ∃ front r back, rs = front ++ r :: back ∧ payloadBytes front ≤ limits.maxRetainedBytes ∧
    (limits.maxRecordBytes < r.payload.length ∨ limits.maxRecords ≤ front.length)

variable {limits : JournalLimits} {s : Replay} {file tail : Bytes} {bytes : Bytes}
  {r : JournalRecord} {rs front back : List JournalRecord}

/-- A replay ends at a record that is cut off, or before. -/
theorem replayLoop_cut {fuel : Nat}
    (h : Chunks s.previous (nextSequence s.records) bytes (front ++ r :: back))
    (hfuel : front.length < fuel)
    (hretained : s.retained + payloadBytes front ≤ limits.maxRetainedBytes)
    (hcut : limits.maxRecordBytes < r.payload.length ∨
      limits.maxRecords ≤ s.records.length + front.length) :
    (replayLoop limits fuel s bytes).refused = s.refused ∧
      (replayLoop limits fuel s bytes).records.length ≤ s.records.length + front.length := by
  induction front generalizing s bytes fuel with
  | nil =>
    cases h with
    | @cons _ _ chunk bytes _ _ first later =>
      cases fuel with
      | zero => omega
      | succ fuel =>
        rw [List.length_nil, Nat.add_zero] at hcut
        rw [replayLoop, readRecord_chunk first, if_pos hcut]
        exact ⟨rfl, le_refl _⟩
  | cons r' front ih =>
    rw [payloadBytes_cons] at hretained
    rw [List.length_cons] at hfuel hcut ⊢
    cases h with
    | @cons _ _ chunk bytes _ _ first later =>
      cases fuel with
      | zero => omega
      | succ fuel =>
        rw [replayLoop, readRecord_chunk first]
        by_cases hhere : limits.maxRecordBytes < r'.payload.length ∨
            limits.maxRecords ≤ s.records.length
        · rw [if_pos hhere]
          exact ⟨rfl, Nat.le_add_right _ _⟩
        · rw [if_neg hhere, if_neg (by omega)]
          rw [← nextSequence_push] at later
          have hlength : (s.push r').records.length = s.records.length + 1 := List.length_append
          have hmemory : (s.push r').retained = s.retained + r'.payload.length := rfl
          have hcut' : limits.maxRecordBytes < r.payload.length ∨
              limits.maxRecords ≤ (s.push r').records.length + front.length := by
            rcases hcut with hcut | hcut
            · exact .inl hcut
            · exact .inr (by omega)
          have hfuel' : front.length < fuel := by omega
          show (replayLoop limits fuel (s.push r') bytes).refused = s.refused ∧
            (replayLoop limits fuel (s.push r') bytes).records.length ≤
              s.records.length + (front.length + 1)
          obtain ⟨hrefused, hrecords⟩ := ih later hfuel' (by omega) hcut'
          exact ⟨hrefused, by omega⟩

/-- What is read of a file that is cut off is less than the file. -/
theorem Stored.replayed_cutOff (h : Stored file rs []) (hcut : limits.CutOff rs) :
    (Journal.replayed limits file).refused.ok = true ∧
      (Journal.replayed limits file).records.length < rs.length := by
  obtain ⟨front, r, back, rfl, hretained, hcut⟩ := hcut
  obtain ⟨bytes, hbytes, hchunks⟩ := h.chunks
  obtain ⟨n, hfuel, -⟩ := h.fuel
  rw [List.append_nil] at hbytes
  have hlength : (front ++ r :: back).length = front.length + (back.length + 1) := by
    rw [List.length_append, List.length_cons]
  have hmemory : ({} : Replay).retained + payloadBytes front ≤ limits.maxRetainedBytes := by
    show 0 + payloadBytes front ≤ _
    omega
  have hcut' : limits.maxRecordBytes < r.payload.length ∨
      limits.maxRecords ≤ ({} : Replay).records.length + front.length := by
    show _ ∨ limits.maxRecords ≤ 0 + front.length
    rwa [Nat.zero_add]
  obtain ⟨hrefused, hrecords⟩ := @replayLoop_cut _ {} _ _ _ _ (file.length + 1) hchunks
    (by omega) hmemory hcut'
  rw [Journal.replayed, hbytes]
  refine ⟨?_, ?_⟩
  · rw [hrefused]
    rfl
  · have hzero : ({} : Replay).records.length = 0 := rfl
    omega

/-- What is read of a file that is not refused is all of it, or up to where it is cut off. -/
theorem Stored.all_or_cutOff {rs' : List JournalRecord} (h : Stored file rs [])
    (h' : Stored file rs' tail) (hrefused : (Journal.replayed limits file).refused.ok = true)
    (hrs' : rs' = (Journal.replayed limits file).records) (hadmits : Admits limits {} rs')
    (hretained : payloadBytes rs' ≤ limits.maxRetainedBytes) :
    rs' = rs ∧ tail = [] ∨ tail ≠ [] ∧ limits.CutOff rs := by
  obtain ⟨bytes, hbytes, hchunks⟩ := h.chunks
  obtain ⟨bytes', hbytes', hchunks'⟩ := h'.chunks
  rw [hbytes, List.append_nil] at hbytes'
  obtain ⟨more, rfl⟩ := hchunks.prefix_of hchunks' hbytes'
  cases more with
  | nil =>
    rw [List.append_nil]
    refine .inl ⟨rfl, ?_⟩
    have hlength := h.length
    rw [List.append_nil, h'.length] at hlength
    exact List.length_eq_zero_iff.mp (by rw [List.length_nil] at hlength; omega)
  | cons r back =>
    have htail : tail ≠ [] := by
      rintro rfl
      have hlength := h.length
      rw [h'.length, imageBytes_append, List.length_cons, kRecordHeaderBytes] at hlength
      omega
    refine .inr ⟨htail, rs', r, back, rfl, hretained, ?_⟩
    by_contra hfits
    obtain ⟨hsize, hcount⟩ := not_or.mp hfits
    have happend : rs' ++ r :: back = (rs' ++ [r]) ++ back := by
      rw [List.append_assoc, List.singleton_append]
    have hadmits' : Admits limits {} (rs' ++ [r]) := by
      refine ⟨fun a ha => ?_, ?_⟩
      · rcases List.mem_append.mp ha with ha | ha
        · exact hadmits.bytes a ha
        · rw [List.mem_singleton.mp ha]
          exact not_lt.mp hsize
      · show 0 + (rs' ++ [r]).length ≤ limits.maxRecords
        rw [List.length_append, List.length_singleton]
        omega
    rw [happend] at h
    obtain ⟨_, hfront, -⟩ := h.front
    rcases hfront.replayed_extends hadmits' with hno | hyes
    · rw [hno] at hrefused
      cases hrefused
    · rw [← hrs'] at hyes
      have hlength := hyes.length_le
      rw [List.length_append, List.length_singleton] at hlength
      omega

namespace Journal

/-- A journal that successful appends have written since it was created. -/
inductive Written (limits : JournalLimits) : Journal → Disk → Prop
  | created {d d' : Disk} {j : Journal} (hfile : d.file = none)
      (hopen : openAt limits true d = (.ok j, d')) : Written limits j d'
  | appended {j j' : Journal} {d d' : Disk} {type : RecordType} {tick : Tick} {epoch : Epoch}
      {payload : Bytes} {st : Status} (before : Written limits j d)
      (happend : j.append type tick epoch payload d = (st, j', d')) (hok : st.ok = true) :
    Written limits j' d'

/-- A written journal is what its file says, as long as every length fits its field. -/
theorem Written.holds {j : Journal} {d : Disk} (h : Written limits j d)
    (hlengths : ∀ r ∈ j.records, r.payload.length < 256 ^ 4) : j.Holds d.bytes [] := by
  induction h with
  | @created d d' j hfile hopen =>
    rcases openAt_cases hopen with ⟨⟨st, herror⟩, -⟩ | ⟨j₀, d₀, st, j', -, -, hd, -, -, hreplay, hend⟩
    · cases herror
    · rcases hend with ⟨hst, hr⟩ | ⟨-, st', herror⟩
      · cases hr
        rcases replayFile_cases hreplay with
          ⟨hno, -⟩ | ⟨rs, tail, -, -, -, -, -, -, -, -, -, hok⟩
        · rw [hno] at hst
          cases hst
        · exact (hok hst).2.1
      · cases herror
  | @appended j j' d d' type tick epoch payload st before happend hok ih =>
    rcases append_cases happend with ⟨-, hst, -⟩ | ⟨hcheck, ⟨-, -, hst, -⟩ | ⟨-, -, rfl, rfl⟩⟩
    · rw [hst] at hok
      cases hok
    · rw [hst] at hok
      cases hok
    · rw [records_push] at hlengths
      have hholds := ih fun r hr => hlengths r (List.mem_append_left _ hr)
      have hlast := hlengths (j.nextRecord type tick epoch payload)
        (List.mem_append_right _ (List.mem_singleton_self _))
      exact hholds.push (checkAppend_ok.mp hcheck).2.1 hlast

/-- An open returns all the records, or fails and leaves the file as it was. -/
def OpenPreserves (limits : JournalLimits) (createIfMissing : Bool) (d : Disk)
    (rs : List JournalRecord) : Prop :=
  (∃ j d', openAt limits createIfMissing d = (.ok j, d') ∧ j.records = rs) ∨
    ∃ st d', openAt limits createIfMissing d = (.error st, d') ∧ d'.file = d.file

variable {createIfMissing : Bool} {d : Disk}

/-- An open that comes to a record that is cut off destroys it. -/
theorem not_preserves (hstored : Stored d.bytes rs []) (hvalid : limits.Valid)
    (hfault : d.fault = none) (hseek : d.next.fault = none) (htruncate : d.next.next.fault = none)
    (hcut : limits.CutOff rs) : ¬OpenPreserves limits createIfMissing d rs := by
  have hfile : d.file.isSome = true := Disk.isSome_of_stored hstored
  obtain ⟨hrefused, hfewer⟩ := hstored.replayed_cutOff hcut
  -- what is read takes fewer bytes than the file
  have hshort : (replayed limits d.bytes).offset < d.bytes.length := by
    rcases @replayed_cases limits _ hstored.header with hno | ⟨rs', tail, hread, -, -, hend⟩
    · rw [hno] at hrefused
      cases hrefused
    · have hoffset : (replayed limits d.bytes).offset = imageBytes rs' := by
        rcases hend with ⟨-, heq⟩ | ⟨-, heq⟩
        · rw [heq]
          exact Replay.offset_pushAll
        · rw [heq]
          exact Replay.offset_pushAll
      have hrecords : (replayed limits d.bytes).records = rs' := by
        rcases hend with ⟨-, heq⟩ | ⟨-, heq⟩
        · rw [heq]
          exact Replay.records_pushAll
        · rw [heq]
          exact (Replay.records_pushAll : (Replay.pushAll {} rs').records = _)
      obtain ⟨bytes, hbytes, hchunks⟩ := hstored.chunks
      obtain ⟨bytes', hbytes', hchunks'⟩ := hread.chunks
      rw [hbytes, List.append_nil] at hbytes'
      obtain ⟨more, rfl⟩ := hchunks.prefix_of hchunks' hbytes'
      rw [hrecords, List.length_append] at hfewer
      rw [hoffset, hstored.length, imageBytes_append, kRecordHeaderBytes, List.length_nil]
      omega
  rcases hreplay : replayFile { limits, isOpen := true } d.next with ⟨st, j', d'⟩
  obtain ⟨hcutFile, hcutRecords⟩ := replayFile_cut (j := { limits, isOpen := true }) (d := d.next)
    hstored.header hrefused hshort hseek htruncate hreplay
  have hopen := @openAt_existing limits d createIfMissing hvalid hfile hfault
  rw [hreplay] at hopen
  dsimp only at hopen
  rintro (⟨j, d'', hok, hrecords⟩ | ⟨st', d'', herror, hsame⟩)
  · rw [hok] at hopen
    split at hopen
    · cases hopen
      rw [← hrecords, hcutRecords] at hfewer
      exact lt_irrefl _ hfewer
    · cases hopen
  · rw [herror] at hopen
    split at hopen
    · cases hopen
    · cases hopen
      have hlength := congrArg (fun file => (file.getD []).length) (hcutFile.symm.trans hsame)
      simp only [Option.getD_some] at hlength
      change (d.bytes.take (replayed limits d.bytes).offset).length = d.bytes.length at hlength
      rw [List.length_take] at hlength
      omega

/-- An open preserves a written journal exactly when it does not come to a record that its limits
on sizes and numbers cut off. -/
theorem open_preserves_iff (written : JournalLimits) (j : Journal) (d₀ d : Disk)
    (hwritten : Written written j d₀) (hlengths : ∀ r ∈ j.records, r.payload.length < 256 ^ 4)
    (hfile : d.file = d₀.file) (limits : JournalLimits) (createIfMissing : Bool) :
    OpenPreserves limits createIfMissing d j.records ↔
      ¬(limits.Valid ∧ d.fault = none ∧ d.next.fault = none ∧ d.next.next.fault = none ∧
        limits.CutOff j.records) := by
  have hstored : Stored d.bytes j.records [] := by
    rw [Disk.bytes, hfile]
    exact (hwritten.holds hlengths).stored
  constructor
  · rintro hpreserves ⟨hvalid, hfault, hseek, htruncate, hcut⟩
    exact not_preserves hstored hvalid hfault hseek htruncate hcut hpreserves
  · intro hcut
    rcases hopen : openAt limits createIfMissing d with ⟨r, d'⟩
    rcases openAt_cases hopen with
      ⟨⟨st, rfl⟩, hsame⟩ | ⟨j₀, d₁, st, j', hvalid, hfault, hd, hlimits, -, hreplay, hend⟩
    · refine .inr ⟨st, d', hopen, ?_⟩
      rcases hsame with hnone | ⟨hsame, -⟩
      · have hsome := Disk.isSome_of_stored hstored
        rw [hnone] at hsome
        cases hsome
      · exact hsame
    · have hd₁ : d₁ = d.next := by
        rcases hd with ⟨-, heq⟩ | ⟨hnone, -⟩
        · exact heq
        · have hsome := Disk.isSome_of_stored hstored
          rw [hnone] at hsome
          cases hsome
      rw [hd₁] at hreplay
      rcases Journal.replayFile_cases hreplay with ⟨hst, hsame, -⟩ |
        ⟨rs, tail, hread, hrefused, hrs, hadmits, hretained, -, hsame, hfaults, -, hok⟩
      · rcases hend with ⟨hst', -⟩ | ⟨-, st', rfl⟩
        · rw [hst] at hst'
          cases hst'
        · exact .inr ⟨st', d', hopen, hsame⟩
      · rw [hlimits] at hrefused hrs hadmits hretained
        rcases hstored.all_or_cutOff hread hrefused hrs hadmits hretained with ⟨hall, htail⟩ | ⟨htail, hcutOff⟩
        · rcases hend with ⟨hst, rfl⟩ | ⟨-, st', rfl⟩
          · exact .inl ⟨j', d', hopen, (hok hst).1.trans hall⟩
          · exact .inr ⟨st', d', hopen, hsame htail⟩
        · obtain ⟨hseek, htruncate⟩ := hfaults htail
          exact absurd ⟨hvalid, hfault, hseek, htruncate, hcutOff⟩ hcut

/-- A journal with two records. -/
theorem written_two : ∃ j d, Written {} j d ∧ j.records.length = 2 ∧ d.faults = [] ∧
    ∀ r ∈ j.records, r.payload = [] := by
  have hread : ((openAt {} true {}).1.toOption.map fun j =>
      (j.isOpen, j.limits, j.records, j.fileBytes, j.retainedBytes)) =
        some (true, {}, [], kHeaderBytes, 0) := by
    decide +kernel
  have hfaults : (openAt {} true {}).2.faults = [] := by decide +kernel
  rcases hopen : openAt {} true {} with ⟨r, d⟩
  rw [hopen] at hread hfaults
  cases r with
  | error st => cases hread
  | ok j =>
    obtain ⟨hopened, hlimits, hrecords, hbytes, hretained⟩ :
        j.isOpen = true ∧ j.limits = {} ∧ j.records = [] ∧ j.fileBytes = kHeaderBytes ∧
          j.retainedBytes = 0 := by
      simpa using Option.some.inj hread
    have hfault : d.fault = none := by
      change d.faults = [] at hfaults
      rw [Disk.fault, hfaults]
      rfl
    let r := j.nextRecord .epoch 0 {} []
    have hfirst : (j.checkAppend .epoch []).ok = true := by
      refine checkAppend_ok.mpr ⟨hopened, by decide, ?_⟩
      rw [hlimits, hrecords, hbytes, hretained]
      decide
    have hsecond : ((j.push r).checkAppend .epoch []).ok = true := by
      refine checkAppend_ok.mpr ⟨hopened, by decide, ?_⟩
      rw [limits_push, records_push, fileBytes_push, retainedBytes_push, hlimits, hrecords, hbytes,
        hretained]
      refine ⟨by decide, ?_, ?_, ?_⟩
      · show 1 < 262144
        decide
      · show kHeaderBytes + (kRecordHeaderBytes + 0) + (kRecordHeaderBytes + 0) ≤ _
        decide
      · show 0 + 0 + 0 ≤ _
        decide
    have hnext : (d.next.write r.encode).fault = none := by
      show d.next.fault = none
      change d.faults = [] at hfaults
      rw [Disk.fault, Disk.next, hfaults]
      rfl
    have happend : j.append .epoch 0 {} [] d = _ := append_of_ok hfirst hfault
    have happend' : (j.push r).append .epoch 0 {} [] (d.next.write r.encode) = _ :=
      append_of_ok hsecond hnext
    refine ⟨_, _, ((Written.created rfl hopen).appended happend rfl).appended happend' rfl,
      ?_, ?_, ?_⟩
    · rw [records_push, records_push, hrecords]
      rfl
    · show d.faults.tail.tail = []
      change d.faults = [] at hfaults
      rw [hfaults]
      rfl
    · rw [records_push, records_push, hrecords]
      intro a ha
      rcases List.mem_append.mp ha with ha | ha
      · rw [List.nil_append, List.mem_singleton] at ha
        rw [ha]
        rfl
      · rw [List.mem_singleton.mp ha]
        rfl

/-- A journal with two records opened again with the same limits. -/
theorem two_preserved :
    ∃ j d, Written {} j d ∧ j.records.length = 2 ∧ OpenPreserves {} false d j.records := by
  obtain ⟨j, d, hwritten, hlength, -, hpayload⟩ := written_two
  refine ⟨j, d, hwritten, hlength, ?_⟩
  refine (open_preserves_iff {} j d d hwritten (fun r hr => ?_) rfl {} false).mpr ?_
  · rw [hpayload r hr]
    decide
  · rintro ⟨-, -, -, -, front, r, back, hrecords, -, hcut⟩
    have hr : r.payload = [] := hpayload r (by rw [hrecords]; simp)
    rw [hrecords, List.length_append, List.length_cons] at hlength
    rw [hr] at hcut
    rcases hcut with hcut | hcut
    · exact absurd hcut (by decide)
    · have hbound : 262144 ≤ front.length := hcut
      omega

/-- The same journal opened with limits for one record. -/
theorem second_destroyed :
    ¬∀ (written : JournalLimits) (j : Journal) (d : Disk), Written written j d →
      ∀ (limits : JournalLimits) (createIfMissing : Bool),
        OpenPreserves limits createIfMissing d j.records := by
  intro h
  obtain ⟨j, d, hwritten, hlength, hfaults, hpayload⟩ := written_two
  have hholds : j.Holds d.bytes [] := by
    refine hwritten.holds fun r hr => ?_
    rw [hpayload r hr]
    decide
  have hfault : d.fault = none := by
    rw [Disk.fault, hfaults]
    rfl
  have hseek : d.next.fault = none := by
    rw [Disk.fault, Disk.next, hfaults]
    rfl
  have htruncate : d.next.next.fault = none := by
    rw [Disk.fault, Disk.next, Disk.next, hfaults]
    rfl
  obtain ⟨a, b, hrecords⟩ := List.length_eq_two.mp hlength
  refine not_preserves hholds.stored ⟨by decide, by decide, by decide⟩ hfault hseek htruncate ?_
    (h {} j d hwritten { maxRecords := 1 } false)
  refine ⟨[a], b, [], hrecords, ?_, .inr (le_refl _)⟩
  rw [payloadBytes_cons, payloadBytes_nil, hpayload a (by rw [hrecords]; simp)]
  exact Nat.zero_le _

end Journal

end Backpressure
