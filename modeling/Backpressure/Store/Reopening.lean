import Backpressure.Store.Lasting
import Backpressure.Store.Readable

/-!
# Opening again after a crash

A process opens its journal, appends, syncs and rewrites, and crashes at any time. A crash leaves
what was synced and some of the bytes behind it. The header of a new file is not synced, and a file
without a whole header is never opened again.
-/

namespace Backpressure

/-- A process with its file, and its journal if it has one. -/
structure Writer where
  disk : Disk
  journal : Option Journal := none
  deriving DecidableEq, Repr

namespace Writer

inductive Call
  | openAt
  | append (type : RecordType) (tick : Tick) (epoch : Epoch) (payload : Bytes)
  | sync
  | rewrite (records : List JournalRecord)
  | crash (n : Nat)

/-- One call, whatever comes of it. An open lets go of the journal there was before, and what needs
a journal does nothing without one. -/
def step (limits : JournalLimits) (w : Writer) : Call → Writer
  | .openAt =>
    match Journal.openAt limits true w.disk with
    | (.ok j, disk) => { disk, journal := some j }
    | (.error _, disk) => { disk }
  | .append type tick epoch payload =>
    match w.journal with
    | none => w
    | some j =>
      let (_, j, disk) := j.append type tick epoch payload w.disk
      { disk, journal := some j }
  | .sync =>
    match w.journal with
    | none => w
    | some j => { w with disk := (j.sync w.disk).2 }
  | .rewrite records =>
    match w.journal with
    | none => w
    | some j =>
      let (_, j, disk) := j.rewrite records w.disk
      { disk, journal := some j }
  | .crash n => { disk := w.disk.crash n }

def run (limits : JournalLimits) (w : Writer) (calls : List Call) : Writer :=
  calls.foldl (step limits) w

/-- A creation that fails leaves nothing or the whole header, and so does a crash. An append goes
behind the last of records whose lengths fit their field, or the file with it fits into memory;
what is read of a rewrite fits into memory. -/
def Safe (limits : JournalLimits) (w : Writer) : Call → Prop
  | .openAt =>
    w.disk.file = none → w.disk.fault = none → ∀ k, w.disk.next.fault = some k → kHeaderBytes ≤ k
  | .append type _ _ payload => ∀ j, w.journal = some j → (j.checkAppend type payload).ok = true →
      (w.disk.bytes.length = j.fileBytes ∧ (∀ r ∈ j.records, r.payload.length < 2 ^ 32) ∧
        payload.length < 2 ^ 32) ∨
      w.disk.bytes.length + (kRecordHeaderBytes + payload.length) ≤ limits.maxRetainedBytes
  | .sync => True
  | .rewrite records => w.journal ≠ none → ¬Journal.Refuses limits records → w.disk.fault = none →
      ((∀ r ∈ typed records, r.payload.length < 2 ^ 32) ∧
        payloadBytes (typed records) ≤ limits.maxRetainedBytes) ∨
      imageBytes records ≤ limits.maxRetainedBytes
  | .crash n => w.disk.file = none ∨ kHeaderBytes ≤ max n w.disk.synced

/-- Every call of the run is safe where it is made. -/
def SafeRun (limits : JournalLimits) (w : Writer) : List Call → Prop
  | [] => True
  | call :: calls => w.Safe limits call ∧ (w.step limits call).SafeRun limits calls

end Writer

/-- A journal that knows at most the bytes of its file, and that is live if it knows all of them and
the lengths of its records fit their field. -/
structure Journal.Tracks (limits : JournalLimits) (j : Journal) (d : Disk) : Prop where
  limits : j.limits = limits
  present : j.isOpen = true → d.file.isSome = true
  size : j.isOpen = true → j.fileBytes ≤ d.bytes.length
  live : j.isOpen = true → j.fileBytes = d.bytes.length →
    (∀ r ∈ j.records, r.payload.length < 256 ^ 4) → j.Live d

variable {limits : JournalLimits} {j j' : Journal} {d d' : Disk} {st : Status}

theorem Disk.isSome_of_readable (h : Readable limits d.bytes) : d.file.isSome = true := by
  by_contra hnone
  rw [Bool.not_eq_true, Option.isSome_eq_false_iff, Option.isNone_iff_eq_none] at hnone
  have hlong := h.long
  rw [bytes, hnone] at hlong
  exact absurd hlong (by decide)

namespace Journal

theorem Live.tracks (h : j.Live d) : j.Tracks j.limits d where
  limits := rfl
  present := fun _ => Disk.isSome_of_stored h.holds.stored
  size := fun _ => by
    rw [h.holds.length]
    exact Nat.le_add_right _ _
  live := fun _ _ _ => h

theorem Live.of_bytes (h : j.Live d) (hbytes : d'.bytes = d.bytes) : j.Live d' :=
  { h with holds := hbytes ▸ h.holds }

namespace Tracks

theorem of_file (h : j.Tracks limits d) (hfile : d'.file = d.file) : j.Tracks limits d' where
  limits := h.limits
  present := by
    rw [hfile]
    exact h.present
  size := by
    rw [Disk.bytes, hfile]
    exact h.size
  live := fun hopen hsize hlengths => by
    have hbytes : d'.bytes = d.bytes := by rw [Disk.bytes, hfile, Disk.bytes]
    exact (h.live hopen (hbytes ▸ hsize) hlengths).of_bytes hbytes

theorem closed (hlimits : j.limits = limits) (hclosed : j.isOpen = false) : j.Tracks limits d := by
  constructor
  · exact hlimits
  all_goals
    intro hopen
    rw [hclosed] at hopen
    cases hopen

/-- A journal that does not know the size of its file. -/
theorem lost (hlimits : j.limits = limits) (hzero : j.fileBytes = 0) (h : Readable limits d.bytes) :
    j.Tracks limits d where
  limits := hlimits
  present := fun _ => Disk.isSome_of_readable h
  size := fun _ => by
    rw [hzero]
    exact Nat.zero_le _
  live := fun _ hsize => by
    have hlong := h.long
    rw [← hsize, hzero] at hlong
    exact absurd hlong (by decide)

end Tracks

/-! ## One call -/

/-- A length that the length field can hold. -/
theorem lt_of_lt_u32 {n : Nat} (h : n < 2 ^ 32) : n < 256 ^ 4 := h.trans_eq (by norm_num)

section Append

variable {type : RecordType} {tick : Tick} {epoch : Epoch} {payload : Bytes}

/-- A journal behind a record, or a part of it. -/
theorem Tracks.torn (h : j.Tracks limits d) (bytes : Bytes) :
    j.Tracks limits (d.next.write bytes) where
  limits := h.limits
  present := fun _ => rfl
  size := fun hopen => by
    rw [Disk.bytes_write, List.length_append]
    exact (h.size hopen).trans (Nat.le_add_right _ _)
  live := fun hopen hsize hlengths => by
    have hbefore := h.size hopen
    rw [Disk.bytes_write, List.length_append] at hsize
    change _ = d.bytes.length + _ at hsize
    have hnil : bytes = [] := List.length_eq_zero_iff.mp (by omega)
    refine (h.live hopen (by omega) hlengths).of_bytes ?_
    rw [hnil, Disk.bytes_write]
    exact List.append_nil _

theorem Tracks.push (h : j.Tracks limits d) (hcheck : (j.checkAppend type payload).ok = true) :
    (j.push (j.nextRecord type tick epoch payload)).Tracks limits
      (d.next.write (j.nextRecord type tick epoch payload).encode) where
  limits := h.limits
  present := fun _ => rfl
  size := fun hopen => by
    have hbefore := h.size hopen
    rw [fileBytes_push, Disk.bytes_write, List.length_append, JournalRecord.length_encode]
    change _ ≤ d.bytes.length + _
    omega
  live := fun hopen hsize hlengths => by
    rw [fileBytes_push, Disk.bytes_write, List.length_append, JournalRecord.length_encode] at hsize
    change _ = d.bytes.length + _ at hsize
    rw [records_push] at hlengths
    have hlive := h.live hopen (by omega) fun r hr => hlengths r (List.mem_append_left _ hr)
    exact hlive.appended hcheck (hlengths _ (List.mem_append_right _ (List.mem_singleton_self _)))

/-- A safe append keeps the file readable. -/
theorem append_readable (hfile : d.file = none ∨ Readable limits d.bytes) (h : j.Tracks limits d)
    (hsafe : (j.checkAppend type payload).ok = true →
      (d.bytes.length = j.fileBytes ∧ (∀ r ∈ j.records, r.payload.length < 2 ^ 32) ∧
        payload.length < 2 ^ 32) ∨
      d.bytes.length + (kRecordHeaderBytes + payload.length) ≤ limits.maxRetainedBytes)
    (happend : j.append type tick epoch payload d = (st, j', d')) :
    (d'.file = none ∨ Readable limits d'.bytes) ∧ j'.Tracks limits d' := by
  rcases append_cases happend with ⟨-, -, rfl, rfl⟩ | ⟨hcheck, hwrite⟩
  · exact ⟨hfile, h⟩
  · have hopen := (checkAppend_ok.mp hcheck).1
    have hreadable : Readable limits d.bytes := hfile.resolve_left fun hnone => by
      have hsome := h.present hopen
      rw [hnone] at hsome
      cases hsome
    have hwhole : Readable limits (d.bytes ++ (j.nextRecord type tick epoch payload).encode) := by
      rcases hsafe hcheck with ⟨hsize, hlengths, hpayload⟩ | hfits
      · have hlive := h.live hopen hsize.symm fun r hr => lt_of_lt_u32 (hlengths r hr)
        have hlive : (j.push (j.nextRecord type tick epoch payload)).Live (d.next.write _) :=
          hlive.appended hcheck (lt_of_lt_u32 hpayload)
        have hafter := hlive.readable
        rw [limits_push, h.limits] at hafter
        exact hafter
      · refine .of_length ?_ ?_
        · rw [checkHeader_append hreadable.long]
          exact hreadable.header
        · rw [List.length_append, JournalRecord.length_encode]
          exact hfits
    rcases hwrite with ⟨k, -, -, rfl, rfl⟩ | ⟨-, -, rfl, rfl⟩
    · exact ⟨.inr (hwhole.of_append hreadable.long k), h.torn _⟩
    · exact ⟨.inr hwhole, h.push hcheck⟩

end Append

/-- A replay of a readable file leaves a readable file, and a live journal if it succeeds. -/
theorem replayFile_readable (hvalid : limits.Valid) (hlimits : j.limits = limits)
    (hopen : j.isOpen = true) (hreadable : Readable limits d.bytes)
    (h : j.replayFile d = (st, j', d')) :
    Readable limits d'.bytes ∧ (st.ok = true → j'.Live d') := by
  rcases replayFile_cases h with
    ⟨hno, hfile, -⟩ | ⟨rs, tail, -, -, -, hadmits, hretained, hbytes, -, -, -, hok⟩
  · refine ⟨?_, fun hst => ?_⟩
    · rw [Disk.bytes, hfile]
      exact hreadable
    · rw [hno] at hst
      cases hst
  · refine ⟨?_, fun hst => ?_⟩
    · rw [hbytes]
      exact hreadable.take (Nat.le_add_right _ _)
    · obtain ⟨rfl, hholds, hsame, hstill⟩ := hok hst
      rw [← hlimits, ← hsame] at hvalid
      rw [← hsame] at hadmits hretained
      exact ⟨hstill.trans hopen, hvalid, hholds, hadmits, hretained⟩

/-- A safe rewrite keeps the file readable. -/
theorem rewrite_readable {records : List JournalRecord} (hvalid : limits.Valid)
    (hfile : d.file = none ∨ Readable limits d.bytes) (h : j.Tracks limits d)
    (hsafe : ¬Refuses limits records → d.fault = none →
      ((∀ r ∈ typed records, r.payload.length < 2 ^ 32) ∧
        payloadBytes (typed records) ≤ limits.maxRetainedBytes) ∨
      imageBytes records ≤ limits.maxRetainedBytes)
    (hrewrite : j.rewrite records d = (st, j', d')) :
    (d'.file = none ∨ Readable limits d'.bytes) ∧ j'.Tracks limits d' := by
  obtain rfl := h.limits
  rcases rewrite_cases hrewrite with
    ⟨-, -, rfl, rfl⟩ | ⟨image, himage, ⟨-, -, rfl, rfl⟩ | ⟨hfault, hend⟩⟩
  · exact ⟨hfile, h⟩
  · exact ⟨hfile, .closed rfl rfl⟩
  · have hfits : ¬Refuses j.limits records := fun hrefuses => by
      obtain ⟨refused, herror⟩ := (rewriteImage_error_iff hvalid).mpr hrefuses
      rw [himage] at herror
      cases herror
    have hreadable : Readable j.limits image := by
      rcases hsafe hfits hfault with ⟨hlengths, hretained⟩ | hall
      · have hshort : ∀ r ∈ typed records, r.payload.length < 256 ^ 4 := fun r hr =>
          lt_of_lt_u32 (hlengths r hr)
        exact rewriteImage_readable hvalid hshort hretained himage
      · exact rewriteImage_fits hvalid hall himage
    rcases hend with ⟨-, rfl, rfl⟩ | hreplay
    · exact ⟨.inr hreadable, .closed rfl rfl⟩
    · obtain ⟨hafter, hlive⟩ := replayFile_readable (j := { limits := j.limits, isOpen := true })
        (d := (d.next.replace image).next) hvalid rfl rfl hreadable hreplay
      have hlimits : j'.limits = j.limits := by
        have hsame :=
          replayFile_limits { limits := j.limits, isOpen := true } (d.next.replace image).next
        rw [hreplay] at hsame
        exact hsame
      refine ⟨.inr hafter, ?_⟩
      cases hst : st.ok with
      | true => exact hlimits ▸ (hlive hst).tracks
      | false => exact .lost hlimits (fileBytes_of_failed hreplay hst) hafter

/-- A creation that fails leaves no file, or a part of the header. -/
theorem create_cases (hfile : d.file = none) (h : create { limits } d = (st, j', d')) :
    d'.file = none ∨ (∃ k, d.fault = none ∧ d.next.fault = some k ∧ d'.bytes = fileHeader.take k) ∨
      j' = { limits, isOpen := true, fileBytes := kHeaderBytes } ∧ d'.bytes = fileHeader := by
  unfold create at h
  split at h
  · cases h
    exact .inl hfile
  case h_2 hfault =>
    dsimp only at h
    split at h
    case h_1 k hk =>
      cases h
      exact .inr (.inl ⟨k, hfault, hk, List.nil_append _⟩)
    case h_2 =>
      cases h
      exact .inr (.inr ⟨rfl, List.nil_append _⟩)

/-- What makes the handle of an open journal keeps the file readable, if a creation that fails
leaves no part of the header. -/
theorem handle_readable (hfile : d.file = none ∨ Readable limits d.bytes)
    (hsafe : d.file = none → d.fault = none → ∀ k, d.next.fault = some k → kHeaderBytes ≤ k)
    (h : (if d.file.isNone then create { limits } d else openHandle { limits } d) = (st, j', d')) :
    d'.file = none ∨ Readable limits d'.bytes := by
  by_cases hnone : d.file = none
  · rw [hnone, Option.isNone_none, if_pos rfl] at h
    rcases create_cases hnone h with hnone' | ⟨k, hfault, hk, hbytes⟩ | ⟨-, hbytes⟩
    · exact .inl hnone'
    · have hwhole : fileHeader.take k = fileHeader :=
        List.take_of_length_le (length_fileHeader.trans_le (hsafe hnone hfault k hk))
      rw [hbytes, hwhole]
      exact .inr .fresh
    · rw [hbytes]
      exact .inr .fresh
  · rw [if_neg (by rwa [Option.isNone_iff_eq_none])] at h
    unfold openHandle at h
    split at h <;> cases h <;> exact hfile

/-- And so does an open. -/
theorem openAt_readable {r : Result Journal} (hfile : d.file = none ∨ Readable limits d.bytes)
    (hsafe : d.file = none → d.fault = none → ∀ k, d.next.fault = some k → kHeaderBytes ≤ k)
    (h : openAt limits true d = (r, d')) : d'.file = none ∨ Readable limits d'.bytes := by
  unfold openAt at h
  split at h
  · cases h
    exact hfile
  case isFalse hvalid =>
    split at h
    · cases h
      exact hfile
    · rcases hhandle : (if d.file.isNone then create { limits } d
        else openHandle { limits } d) with ⟨st₀, j₀, d₀⟩
      rw [hhandle] at h
      dsimp only at h
      have hbefore := handle_readable hfile hsafe hhandle
      rcases handle_cases hhandle with ⟨hst, -⟩ | ⟨hst, rfl, hopen, -, hd⟩
      · rw [hst, Bool.not_false, if_pos rfl] at h
        cases h
        exact hbefore
      · rw [hst, Bool.not_true, if_neg (by decide)] at h
        rcases hreplay : j₀.replayFile d₀ with ⟨st, j', d''⟩
        rw [hreplay] at h
        dsimp only at h
        have hreadable : Readable j₀.limits d₀.bytes := hbefore.resolve_left fun hnone => by
          rcases hd with ⟨hsome, rfl⟩ | ⟨-, hsome, -⟩
          · rw [Disk.file_next] at hnone
            rw [hnone] at hsome
            cases hsome
          · rw [hnone] at hsome
            cases hsome
        have hafter := (replayFile_readable (JournalLimits.valid_iff.mpr hvalid) rfl hopen hreadable
          hreplay).1
        split at h <;> cases h <;> exact .inr hafter

theorem sync_file : (j.sync d).2.file = d.file := by
  unfold sync Disk.sync
  split
  · rfl
  · split <;> rfl

end Journal

theorem Disk.crash_readable (h : d.file = none ∨ Readable limits d.bytes) {n : Nat}
    (hsafe : d.file = none ∨ kHeaderBytes ≤ max n d.synced) :
    (d.crash n).file = none ∨ Readable limits (d.crash n).bytes := by
  cases hfile : d.file with
  | none =>
    refine .inl ?_
    rw [crash, become, hfile]
    rfl
  | some bytes =>
    refine .inr ?_
    have hreadable : Readable limits bytes := by
      rw [hfile, Disk.bytes, hfile] at h
      exact h.resolve_left (Option.some_ne_none bytes)
    have hsome : d.file ≠ none := by
      rw [hfile]
      exact Option.some_ne_none bytes
    have hcut := hreadable.take (hsafe.resolve_left hsome)
    rw [Disk.bytes, crash, become, hfile]
    exact hcut

namespace Writer

variable {w : Writer} {call : Call} {calls : List Call}

theorem run_append {later : List Call} :
    w.run limits (calls ++ later) = (w.run limits calls).run limits later :=
  List.foldl_append

/-- What an open needs of the file, and what the calls on the journal rely on. -/
structure Recoverable (limits : JournalLimits) (w : Writer) : Prop where
  file : w.disk.file = none ∨ Readable limits w.disk.bytes
  journal : ∀ j, w.journal = some j → j.Tracks limits w.disk

theorem Recoverable.step (hvalid : limits.Valid) (h : w.Recoverable limits)
    (hsafe : w.Safe limits call) : (w.step limits call).Recoverable limits := by
  cases call with
  | openAt =>
    rcases hopen : Journal.openAt limits true w.disk with ⟨r, d⟩
    have hfile := Journal.openAt_readable h.file hsafe hopen
    unfold Writer.step
    dsimp only
    rw [hopen]
    cases r with
    | error st => exact ⟨hfile, fun j hj => absurd hj.symm (Option.some_ne_none j)⟩
    | ok j =>
      obtain ⟨hlive, rfl⟩ := Journal.openAt_live hopen
      refine ⟨hfile, fun j' hj' => ?_⟩
      cases hj'
      exact hlive.tracks
  | append type tick epoch payload =>
    cases hj : w.journal with
    | none =>
      unfold Writer.step
      rw [hj]
      exact h
    | some j =>
      rcases happend : j.append type tick epoch payload w.disk with ⟨st, j', d⟩
      obtain ⟨hfile, htracks⟩ :=
        Journal.append_readable h.file (h.journal j hj) (hsafe j hj) happend
      unfold Writer.step
      rw [hj]
      dsimp only
      rw [happend]
      refine ⟨hfile, fun j'' hj'' => ?_⟩
      cases hj''
      exact htracks
  | sync =>
    cases hj : w.journal with
    | none =>
      unfold Writer.step
      rw [hj]
      exact h
    | some j =>
      have hsame := @Journal.sync_file j w.disk
      have hbytes : (j.sync w.disk).2.bytes = w.disk.bytes := by rw [Disk.bytes, hsame, Disk.bytes]
      unfold Writer.step
      rw [hj]
      refine ⟨?_, fun j' hj' => ?_⟩
      · dsimp only
        rw [hsame, hbytes]
        exact h.file
      · cases hj'
        exact (h.journal j hj).of_file hsame
  | rewrite records =>
    cases hj : w.journal with
    | none =>
      unfold Writer.step
      rw [hj]
      exact h
    | some j =>
      rcases hrewrite : j.rewrite records w.disk with ⟨st, j', d⟩
      obtain ⟨hfile, htracks⟩ := Journal.rewrite_readable hvalid h.file (h.journal j hj)
        (hsafe (hj ▸ Option.some_ne_none j)) hrewrite
      unfold Writer.step
      rw [hj]
      dsimp only
      rw [hrewrite]
      refine ⟨hfile, fun j'' hj'' => ?_⟩
      cases hj''
      exact htracks
  | crash n =>
    exact ⟨Disk.crash_readable h.file hsafe, fun j hj => absurd hj.symm (Option.some_ne_none j)⟩

theorem Recoverable.run (hvalid : limits.Valid) (h : w.Recoverable limits)
    (hsafe : w.SafeRun limits calls) : (w.run limits calls).Recoverable limits := by
  induction calls generalizing w with
  | nil => exact h
  | cons call rest ih => exact ih (h.step hvalid hsafe.1) hsafe.2

/-- An open of a file that is readable, or not there, succeeds when nothing fails. -/
theorem Recoverable.openAt (hvalid : limits.Valid) (h : w.Recoverable limits) :
    ∃ j, (Journal.openAt limits true { w.disk with faults := [] }).1 = .ok j := by
  by_cases hnone : w.disk.file = none
  · obtain ⟨j, d', hopen, -⟩ :=
      Journal.openAt_new (d := { w.disk with faults := [] }) hvalid hnone rfl
    exact ⟨j, by rw [hopen]⟩
  · have hreadable := h.file.resolve_left hnone
    exact Journal.openAt_ok_of_replayed (d := { w.disk with faults := [] }) hvalid
      (Option.isSome_iff_ne_none.mpr hnone) rfl hreadable.header hreadable.whole

/-- After any run of safe calls, whatever fails in it, an open with the same limits succeeds when
nothing fails. -/
theorem safe_run_opens (limits : JournalLimits) (hvalid : limits.Valid) (d : Disk)
    (hnew : d.file = none) (calls : List Call)
    (hsafe : ({ disk := d } : Writer).SafeRun limits calls) :
    ∃ j, (Journal.openAt limits true
      { (({ disk := d } : Writer).run limits calls).disk with faults := [] }).1 = .ok j := by
  have hstart : ({ disk := d } : Writer).Recoverable limits := ⟨.inl hnew, nofun⟩
  exact (hstart.run hvalid hsafe).openAt hvalid

/-- A record that is synced, and one that a crash tears. -/
theorem torn_record_opens : ∃ j, (Journal.openAt {} true
    { (({ disk := {} } : Writer).run {} [.openAt, .append .epoch 0 {} [1, 2], .sync,
      .append .boot 0 {} [3], .crash 100]).disk with faults := [] }).1 = .ok j := by
  have hvalid : ({} : JournalLimits).Valid := ⟨by decide, by decide, by decide⟩
  refine safe_run_opens {} hvalid {} rfl _ ⟨?_, ?_, trivial, ?_, ?_, trivial⟩
  · exact fun _ _ k hk => nomatch hk
  · exact fun _ _ _ => .inr (by decide +kernel)
  · exact fun _ _ _ => .inr (by decide +kernel)
  · exact .inr (by decide +kernel)

/-! ## What no open repairs -/

/-- A process without a journal that has left a part of the header alone. -/
def Stuck (w : Writer) : Prop :=
  w.journal = none ∧ ∃ file, w.disk.file = some file ∧ file.length < kHeaderBytes

theorem Stuck.refused (h : w.Stuck) {d : Disk} (hfile : d.file = w.disk.file) {r : Result Journal}
    (hopen : Journal.openAt limits true d = (r, d')) :
    (∃ st, r = .error st) ∧ d'.file = d.file := by
  obtain ⟨-, file, hsome, hshort⟩ := h
  rw [← hfile] at hsome
  rcases Journal.openAt_cases hopen with ⟨herror, hnone | ⟨hsame, -⟩⟩ |
    ⟨j₀, d₀, st, j', -, -, hd, -, -, hreplay, hend⟩
  · rw [hsome] at hnone
    cases hnone
  · exact ⟨herror, hsame⟩
  · have hbefore : d₀.file = some file := by
      rcases hd with ⟨-, rfl⟩ | ⟨hnone, -⟩
      · exact hsome
      · rw [hsome] at hnone
        cases hnone
    rcases Journal.replayFile_cases hreplay with ⟨hno, hsame, -⟩ | ⟨rs, tail, hstored, -⟩
    · rcases hend with ⟨hst, -⟩ | ⟨-, herror⟩
      · rw [hno] at hst
        cases hst
      · exact ⟨herror, by rw [hsame, hbefore, hsome]⟩
    · have hlong := hstored.long
      rw [Disk.bytes, hbefore, Option.getD_some] at hlong
      omega

theorem Stuck.step (h : w.Stuck) (call : Call) : (w.step limits call).Stuck := by
  obtain ⟨hnone, file, hsome, hshort⟩ := id h
  cases call with
  | openAt =>
    rcases hopen : Journal.openAt limits true w.disk with ⟨r, d⟩
    obtain ⟨⟨st, rfl⟩, hfile⟩ := h.refused rfl hopen
    unfold Writer.step
    dsimp only
    rw [hopen]
    exact ⟨rfl, file, hfile.trans hsome, hshort⟩
  | append | sync | rewrite =>
    unfold Writer.step
    rw [hnone]
    exact h
  | crash n =>
    refine ⟨rfl, file.take (max n w.disk.synced), ?_, ?_⟩
    · show w.disk.file.map _ = _
      rw [hsome]
      rfl
    · rw [List.length_take]
      omega

theorem Stuck.run (h : w.Stuck) (calls : List Call) : (w.run limits calls).Stuck := by
  induction calls generalizing w with
  | nil => exact h
  | cons call rest ih => exact ih (h.step call)

theorem Stuck.crash (hfile : w.disk.file.isSome = true) {n : Nat}
    (hshort : max n w.disk.synced < kHeaderBytes) : (w.step limits (.crash n)).Stuck := by
  obtain ⟨file, hsome⟩ := Option.isSome_iff_exists.mp hfile
  refine ⟨rfl, file.take (max n w.disk.synced), ?_, ?_⟩
  · show w.disk.file.map _ = _
    rw [hsome]
    rfl
  · rw [List.length_take]
    omega

/-- A crash that leaves a part of the header: whatever is called afterwards, no open succeeds. -/
theorem torn_header_lost (limits : JournalLimits) (w : Writer) (hfile : w.disk.file.isSome = true)
    (n : Nat) (hshort : max n w.disk.synced < kHeaderBytes) (later : List Call)
    (faults : List (Option Nat)) (j : Journal) : (Journal.openAt limits true
      { (w.run limits (.crash n :: later)).disk with faults }).1 ≠ .ok j := by
  have hstuck : (w.run limits (.crash n :: later)).Stuck := (Stuck.crash hfile hshort).run later
  rcases hopen : Journal.openAt limits true
    { (w.run limits (.crash n :: later)).disk with faults } with ⟨r, d⟩
  obtain ⟨⟨st, rfl⟩, -⟩ := hstuck.refused (by rfl) hopen
  nofun

/-- A crash of a new journal that leaves five bytes of its header. -/
theorem torn_header_refused :
    ¬∀ (limits : JournalLimits) (d : Disk) (calls : List Call), limits.Valid → d.file = none →
      ∃ j, (Journal.openAt limits true
        { (({ disk := d } : Writer).run limits calls).disk with faults := [] }).1 = .ok j := by
  intro hall
  obtain ⟨j, hj⟩ := hall {} {} [.openAt, .crash 5] ⟨by decide, by decide, by decide⟩ rfl
  have hfile : (({ disk := {} } : Writer).run {} [.openAt]).disk.file.isSome = true := by
    decide +kernel
  have hshort : max 5 (({ disk := {} } : Writer).run {} [.openAt]).disk.synced < kHeaderBytes := by
    decide +kernel
  rw [show [.openAt, .crash 5] = [.openAt] ++ [Call.crash 5] from rfl, run_append] at hj
  exact torn_header_lost {} _ hfile 5 hshort [] [] j hj

end Writer

/-- A rewrite of records that need more memory than a replay may take leaves a file that no open
with its limits reads. -/
theorem Journal.oversized_rewrite_lost {records : List JournalRecord} (hvalid : j.limits.Valid)
    (h : j.rewrite records d = (st, j', d')) (hfault : d.fault = none)
    (hfits : ¬Refuses j.limits records) (htypes : ∀ r ∈ records, r.type ≠ .count)
    (hlengths : ∀ r ∈ records, r.payload.length < 256 ^ 4)
    (hmemory : j.limits.maxRetainedBytes < payloadBytes records) {d₂ : Disk}
    (hfile : d₂.file = d'.file) (again : Bool) (j₂ : Journal) :
    (openAt j.limits again d₂).1 ≠ .ok j₂ := by
  rcases rewrite_cases h with
    ⟨-, ⟨refused, herror⟩, -⟩ | ⟨image, himage, ⟨-, hne, -⟩ | ⟨-, hend⟩⟩
  · exact absurd ((rewriteImage_error_iff hvalid).mp ⟨refused, herror⟩) hfits
  · exact absurd hfault hne
  · obtain ⟨rs, hstored, hdrafts, hadmits⟩ := rewriteImage_stored htypes hlengths himage
    have hneeds : j.limits.maxRetainedBytes < payloadBytes rs := by
      rw [← draftBytes_map, hdrafts, draftBytes_map]
      exact hmemory
    have hno := hstored.replayed_refused hadmits hneeds
    -- neither the rewrite nor the open gets past the replay
    have hstays : ∀ {j₀ : Journal} {d₀ : Disk} {st : Status} {j₁ : Journal} {d₁ : Disk},
        j₀.limits = j.limits → d₀.file = some image → j₀.replayFile d₀ = (st, j₁, d₁) →
          st.ok = false ∧ d₁.file = some image := by
      intro j₀ d₀ st j₁ d₁ hlimits hsome hreplay
      rcases replayFile_cases hreplay with ⟨hst, hsame, -⟩ | ⟨rs', tail, -, hrefused, -⟩
      · exact ⟨hst, hsame.trans hsome⟩
      · rw [hlimits, Disk.bytes, hsome, Option.getD_some, hno] at hrefused
        cases hrefused
    have hplace : d₂.file = some image := by
      rw [hfile]
      rcases hend with ⟨-, -, rfl⟩ | hreplay
      · rfl
      · exact (@hstays { limits := j.limits, isOpen := true } _ _ _ _ rfl rfl hreplay).2
    intro hok
    rcases hopen : openAt j.limits again d₂ with ⟨r, d₃⟩
    rw [hopen] at hok
    rcases openAt_cases hopen with
      ⟨⟨st, rfl⟩, -⟩ | ⟨j₀, d₀, st, j', -, -, hd, hlimits, -, hreplay, hend⟩
    · cases hok
    · have hsome : d₀.file = some image := by
        rcases hd with ⟨-, rfl⟩ | ⟨hnone, -⟩
        · exact hplace
        · rw [hplace] at hnone
          cases hnone
      have hst := (hstays hlimits hsome hreplay).1
      rcases hend with ⟨hst', -⟩ | ⟨-, st', rfl⟩
      · rw [hst] at hst'
        cases hst'
      · cases hok

end Backpressure
