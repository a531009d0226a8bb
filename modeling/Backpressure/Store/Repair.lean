import Backpressure.Store.Rewritten

/-!
# Repair

Opening a journal cuts off what it does not read. What it leaves is a well-formed log, whatever the
bytes of the file were before, and another open with the same limits reads the same records and
changes nothing.
-/

namespace Backpressure

variable {previous : Digest128} {next : UInt64} {bytes : Bytes} {rs : List JournalRecord}

namespace Chunks

/-- Intact records are numbered one after the other. -/
theorem sequence (h : Chunks previous next bytes rs) {i : Nat} {r : JournalRecord}
    (hr : rs[i]? = some r) : r.sequence = next + .ofNat i := by
  induction h generalizing i with
  | nil => simp at hr
  | @cons previous next chunk bytes r' rest first later ih =>
    have hnext : r'.sequence = next := (checkRecord_payload first.checked).2.1
    cases i with
    | zero =>
      rw [List.getElem?_cons_zero] at hr
      cases hr
      simpa using hnext
    | succ i =>
      rw [List.getElem?_cons_succ] at hr
      have hcount : UInt64.ofNat (i + 1) = 1 + .ofNat i := by
        rw [Nat.add_comm, UInt64.ofNat_add]
        rfl
      rw [ih hr, hnext, hcount, UInt64.add_assoc]

/-- Every intact record is bound to the one before it. -/
theorem chain (h : Chunks previous next bytes rs) {i : Nat} {r : JournalRecord}
    (hr : rs[i]? = some r) :
    r.chain = chainOf (lastChain previous (rs.take i)) r.sequence r.type r.tick r.epoch r.payload := by
  induction h generalizing i with
  | nil => simp at hr
  | @cons previous next chunk bytes r' rest first later ih =>
    cases i with
    | zero =>
      rw [List.getElem?_cons_zero] at hr
      cases hr
      obtain ⟨-, hsequence, -, hchain⟩ := checkRecord_payload first.checked
      rw [hsequence, List.take_zero]
      exact hchain
    | succ i =>
      rw [List.getElem?_cons_succ] at hr
      exact ih hr

end Chunks

/-- Records numbered from one, each bound to the one before it. -/
structure WellFormedLog (records : List JournalRecord) : Prop where
  numbered : ∀ (i : Nat) (r : JournalRecord), records[i]? = some r → r.sequence = .ofNat (i + 1)
  chained : ∀ (i : Nat) (r : JournalRecord), records[i]? = some r →
    r.chain = chainOf (lastChain {} (records.take i)) r.sequence r.type r.tick r.epoch r.payload

theorem Stored.wellFormed {file tail : Bytes} (h : Stored file rs tail) : WellFormedLog rs := by
  obtain ⟨bytes, -, hchunks⟩ := h.chunks
  refine ⟨fun i r hr => ?_, fun i r hr => hchunks.chain hr⟩
  rw [hchunks.sequence hr, Nat.add_comm, UInt64.ofNat_add]
  rfl

namespace Journal

variable {limits : JournalLimits} {j j' : Journal} {d d' : Disk} {st : Status}

/-- A repair is reported exactly when the replay ended before the file did. -/
theorem repaired_replayFile (h : j.replayFile d = (st, j', d')) (hst : st.ok = true) :
    j'.stats.repaired = decide ((replayed j.limits d.bytes).offset < d.bytes.length) := by
  unfold replayFile at h
  split at h
  · cases h
    cases hst
  · dsimp only at h
    rw [Disk.bytes_next] at h
    split at h
    case isTrue hheader =>
      cases h
      rw [hst] at hheader
      cases hheader
    case isFalse hheader =>
      split at h
      case isTrue hrefused =>
        cases h
        rw [hst] at hrefused
        cases hrefused
      case isFalse hrefused =>
        split at h
        case isTrue hshort =>
          rw [decide_eq_true hshort]
          split at h
          · cases h
            cases hst
          · unfold seekEnd at h
            split at h <;> cases h <;> rfl
        case isFalse hwhole =>
          rw [decide_eq_false hwhole]
          unfold seekEnd at h
          split at h <;> cases h <;> rfl

/-- A file that an open has left is opened again without a change. -/
theorem Live.open_again (h : j.Live d) {createIfMissing : Bool} {d₂ d₃ : Disk}
    {r : Result Journal} (hfile : d₂.file = d.file)
    (hopen : openAt j.limits createIfMissing d₂ = (r, d₃)) :
    d₃.file = d.file ∧ ∀ j₂, r = .ok j₂ → j₂.records = j.records ∧ j₂.stats.repaired = false := by
  have hstored : Stored d₂.bytes j.records [] := by
    rw [Disk.bytes, hfile]
    exact h.holds.stored
  have hsome : d₂.file ≠ none := by
    intro hnone
    have hthere := Disk.isSome_of_stored hstored
    rw [hnone] at hthere
    cases hthere
  rw [← hfile]
  rcases openAt_cases hopen with
    ⟨⟨st, rfl⟩, hsame⟩ | ⟨j₀, d₀, st, j', -, -, hd, hlimits, -, hreplay, hend⟩
  · refine ⟨?_, fun j₂ hj => by cases hj⟩
    rcases hsame with hnone | ⟨hsame, -⟩
    · exact absurd hnone hsome
    · exact hsame
  · have hd₀ : d₀ = d₂.next := by
      rcases hd with ⟨-, heq⟩ | ⟨hnone, -⟩
      · exact heq
      · exact absurd hnone hsome
    rw [hd₀] at hreplay
    rcases hend with ⟨hst, rfl⟩ | ⟨hst, st', rfl⟩
    · have hadmits : Admits j₀.limits {} j.records := by
        rw [hlimits]
        exact h.admits
      obtain ⟨rfl, hrecords, -⟩ := replayFile_whole hreplay hst hstored hadmits
      refine ⟨rfl, fun j₂ hj => ?_⟩
      cases hj
      refine ⟨hrecords, ?_⟩
      have hretained : payloadBytes j.records ≤ j₀.limits.maxRetainedBytes := by
        rw [hlimits]
        exact h.retained
      have hlength := hstored.length
      have hoffset : (Replay.pushAll {} j.records).offset = imageBytes j.records :=
        Replay.offset_pushAll
      rw [List.length_nil, Nat.add_zero] at hlength
      rw [repaired_replayFile hreplay hst, Disk.bytes_next,
        hstored.replayed_all hadmits hretained, hoffset, hlength]
      exact decide_eq_false (lt_irrefl _)
    · refine ⟨?_, fun j₂ hj => by cases hj⟩
      rcases replayFile_cases hreplay with ⟨-, hsame, -⟩ |
        ⟨rs, tail, hread, hrefused, hrs, hadmits, hretained, -, hsame, -⟩
      · exact hsame
      · have hall : rs = j.records := by
          rw [hrs, hlimits, Disk.bytes_next, hstored.replayed_all h.admits h.retained]
          exact Replay.records_pushAll
        have hlength := hread.length
        rw [Disk.bytes_next, hstored.length, hall, List.length_nil] at hlength
        exact hsame (List.eq_nil_of_length_eq_zero (by omega))

/-- Without a failure of the file system it is opened. -/
theorem Live.opens (h : j.Live d) {createIfMissing : Bool} {d₂ : Disk} (hfile : d₂.file = d.file)
    (hfaults : d₂.faults = []) : ∃ j₂, (openAt j.limits createIfMissing d₂).1 = .ok j₂ := by
  have hstored : Stored d₂.bytes j.records [] := by
    rw [Disk.bytes, hfile]
    exact h.holds.stored
  have hfault : d₂.fault = none ∧ d₂.next.fault = none ∧ d₂.next.next.fault = none := by
    simp [Disk.fault, Disk.next, hfaults]
  obtain ⟨j', hreplay, -⟩ := @replayFile_all j.records { limits := j.limits, isOpen := true }
    d₂.next hstored h.admits h.retained hfault.2.1 hfault.2.2
  refine ⟨j', ?_⟩
  rw [openAt_existing h.valid (Disk.isSome_of_stored hstored) hfault.1, hreplay]
  rfl

/-- Whatever the bytes of a journal file are, the records of an open that succeeds are a
well-formed log, and every later open of the file it leaves gives the same records, repairs nothing
and keeps the file; it fails only when the file system does. -/
theorem repair_idempotent (limits : JournalLimits) (createIfMissing : Bool) (d d' : Disk)
    (j : Journal) (h : openAt limits createIfMissing d = (.ok j, d')) :
    WellFormedLog j.records ∧ ∀ (again : Bool) (d₂ : Disk), d₂.file = d'.file →
      (openAt limits again d₂).2.file = d'.file ∧
      (∀ j₂, (openAt limits again d₂).1 = .ok j₂ →
        j₂.records = j.records ∧ j₂.stats.repaired = false) ∧
      (d₂.faults = [] → ∃ j₂, (openAt limits again d₂).1 = .ok j₂) := by
  obtain ⟨hlive, rfl⟩ := openAt_live h
  refine ⟨hlive.holds.stored.wellFormed, fun again d₂ hfile => ?_⟩
  obtain ⟨hsame, hread⟩ := hlive.open_again hfile (Prod.mk.eta (p := openAt j.limits again d₂)).symm
  exact ⟨hsame, hread, hlive.opens hfile⟩

/-- Three bytes behind the header are cut off once. -/
theorem garbage_cut_once : ∃ j d', openAt {} false { file := some (fileHeader ++ [1, 2, 3]) } =
    (.ok j, d') ∧ j.stats.repaired = true ∧ (openAt {} false d').2.file = d'.file ∧
      ∀ j₂, (openAt {} false d').1 = .ok j₂ → j₂.records = j.records ∧ j₂.stats.repaired = false := by
  have hrepaired : (openAt {} false { file := some (fileHeader ++ [1, 2, 3]) }).1.toOption.map
      (fun j => j.stats.repaired) = some true := by
    decide +kernel
  rcases hopen : openAt {} false { file := some (fileHeader ++ [1, 2, 3]) } with ⟨r, d'⟩
  rw [hopen] at hrepaired
  cases r with
  | error st => cases hrepaired
  | ok j =>
    obtain ⟨-, hagain⟩ := repair_idempotent {} false _ d' j hopen
    obtain ⟨hsame, hread, -⟩ := hagain false d' rfl
    exact ⟨j, d', rfl, Option.some.inj hrepaired, hsame, hread⟩

end Journal

end Backpressure
