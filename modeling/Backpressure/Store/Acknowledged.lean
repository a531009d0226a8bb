import Backpressure.Store.Holds

/-!
# Acknowledged records

A process appends to its journal, syncs it and opens it again; any of these can fail, and a failing
append may leave a part of its record in the file. The journal goes on behind that part, which a
later replay takes for the end: records are returned for certain only while no append goes behind
a part of a record that is left in the file.
-/

namespace Backpressure

/-- A process and its journal, with the records whose append was successful, and those of them that
a successful sync followed. A journal that was closed keeps its records. -/
structure Session where
  disk : Disk
  journal : Journal := {}
  appended : List JournalRecord := []
  acked : List JournalRecord := []
  deriving DecidableEq, Repr

namespace Session

inductive Call
  | append (type : RecordType) (tick : Tick) (epoch : Epoch) (payload : Bytes)
  | sync
  | openAt (limits : JournalLimits) (createIfMissing : Bool)

/-- One call, whatever comes of it. -/
def step (w : Session) : Call → Session
  | .append type tick epoch payload =>
    let (st, journal, disk) := w.journal.append type tick epoch payload w.disk
    { w with
      disk, journal
      appended :=
        if st.ok then w.appended ++ [w.journal.nextRecord type tick epoch payload]
        else w.appended }
  | .sync =>
    let (st, disk) := w.journal.sync w.disk
    { w with disk, acked := if st.ok then w.appended else w.acked }
  | .openAt limits createIfMissing =>
    match Journal.openAt limits createIfMissing w.disk with
    | (.ok journal, disk) => { w with disk, journal }
    | (.error _, disk) => { w with disk, journal := { w.journal with isOpen := false } }

def run (w : Session) (calls : List Call) : Session := calls.foldl step w

/-- An append that will succeed finds no part of a record in the file, and its payload has a length
that the length field can hold; an open has limits for the records that the journal had. -/
def Clean (w : Session) : Call → Prop
  | .append type _ _ payload =>
    (w.journal.checkAppend type payload).ok = true → w.disk.fault = none →
      payload.length < 256 ^ 4 ∧ w.disk.bytes.length = w.journal.fileBytes
  | .sync => True
  | .openAt limits _ => Admits limits {} w.journal.records

/-- Every call of the run is clean where it is made. -/
def CleanRun (w : Session) : List Call → Prop
  | [] => True
  | call :: calls => w.Clean call ∧ (w.step call).CleanRun calls

/-- What holds after clean calls. -/
structure Inv (w : Session) : Prop where
  holds : w.journal.isOpen = true → ∃ tail, w.journal.Holds w.disk.bytes tail
  stored : w.journal.records ≠ [] → ∃ tail, Stored w.disk.bytes w.journal.records tail
  appended : w.appended.Sublist w.journal.records
  acked : w.acked.Sublist w.appended

theorem Inv.start (d : Disk) : Inv { disk := d } where
  holds := fun h => by cases h
  stored := fun h => absurd rfl h
  appended := List.Sublist.slnil
  acked := List.Sublist.slnil

/-- What an open makes of a file whose records its limits admit: it fails and the records stay, or
it returns them before whatever else it reads. -/
theorem openAt_keeps {limits : JournalLimits} {createIfMissing : Bool} {rs : List JournalRecord}
    {d d' : Disk} {r : Result Journal}
    (hstored : rs ≠ [] → ∃ tail, Stored d.bytes rs tail) (hadmits : Admits limits {} rs)
    (h : Journal.openAt limits createIfMissing d = (r, d')) :
    (∃ st, r = .error st) ∧ (rs ≠ [] → ∃ tail, Stored d'.bytes rs tail) ∨
      ∃ j, r = .ok j ∧ rs <+: j.records ∧ j.Holds d'.bytes [] := by
  have hnone : d.file = none → rs = [] := by
    intro hfile
    by_contra hne
    obtain ⟨tail, ht⟩ := hstored hne
    have hlong := ht.long
    rw [Disk.bytes, hfile] at hlong
    exact absurd hlong (by decide)
  rcases Journal.openAt_cases h with ⟨herror, hfile⟩ | ⟨j₀, d₀, st, j', -, -, hd, hlimits, -, hreplay, hend⟩
  · refine .inl ⟨herror, fun hne => ?_⟩
    rcases hfile with hfile | ⟨hfile, -⟩
    · exact absurd (hnone hfile) hne
    · rw [Disk.bytes, hfile]
      exact hstored hne
  · have hstored₀ : rs ≠ [] → ∃ tail, Stored d₀.bytes rs tail := by
      intro hne
      rcases hd with ⟨-, rfl⟩ | ⟨hfile, -, -⟩
      · exact hstored hne
      · exact absurd (hnone hfile) hne
    rcases Journal.replayFile_cases hreplay with
      ⟨hst, hfile, -⟩ | ⟨rs', tail, hread, hrefused, hrs', -, -, hbytes, -, -, -, hok⟩
    · rcases hend with ⟨hst', -⟩ | ⟨-, hr⟩
      · rw [hst] at hst'
        cases hst'
      · refine .inl ⟨hr, fun hne => ?_⟩
        rw [Disk.bytes, hfile]
        exact hstored₀ hne
    · have hprefix : rs <+: rs' := by
        by_cases hne : rs = []
        · rw [hne]
          exact List.nil_prefix
        · obtain ⟨tail', ht⟩ := hstored₀ hne
          rw [hlimits] at hrefused hrs'
          rcases ht.replayed_extends hadmits with hno | hyes
          · rw [hno] at hrefused
            cases hrefused
          · rw [hrs']
            exact hyes
      rcases hend with ⟨hst, hr⟩ | ⟨-, hr⟩
      · obtain ⟨hrecords, hholds, -, -⟩ := hok hst
        exact .inr ⟨j', hr, hrecords ▸ hprefix, hholds⟩
      · refine .inl ⟨hr, fun hne => ?_⟩
        obtain ⟨tail', ht⟩ := hstored₀ hne
        exact ⟨_, hbytes ▸ ht.take (imageBytes_mono hprefix)⟩

/-- One clean call keeps what holds. -/
theorem Inv.step {w : Session} {call : Call} (h : w.Inv) (hclean : w.Clean call) :
    (w.step call).Inv := by
  cases call with
  | append type tick epoch payload =>
    unfold Session.step
    rcases happend : w.journal.append type tick epoch payload w.disk with ⟨st, j, d⟩
    dsimp only
    rw [happend]
    dsimp only
    rcases Journal.append_cases happend with ⟨-, hst, rfl, rfl⟩ | ⟨hcheck, hwrite⟩
    · rw [hst, if_neg (by decide)]
      exact ⟨h.holds, h.stored, h.appended, h.acked⟩
    · have hchecks := Journal.checkAppend_ok.mp hcheck
      obtain ⟨tail, hholds⟩ := h.holds hchecks.1
      rcases hwrite with ⟨k, -, hst, rfl, rfl⟩ | ⟨hfault, hst, rfl, rfl⟩
      · rw [hst, if_neg (by decide)]
        have hafter := hholds.write ((w.journal.nextRecord type tick epoch payload).encode.take k)
        exact ⟨fun _ => ⟨_, hafter⟩, fun _ => ⟨_, hafter.stored⟩, h.appended, h.acked⟩
      · obtain ⟨hpayload, hlength⟩ := hclean hcheck hfault
        have htail : tail = [] := by
          have hsum := hholds.length
          exact List.length_eq_zero_iff.mp (by omega)
        rw [htail] at hholds
        have hafter : (w.journal.push (w.journal.nextRecord type tick epoch payload)).Holds _ [] :=
          hholds.push hchecks.2.1 hpayload
        rw [hst, if_pos rfl]
        refine ⟨fun _ => ⟨_, hafter⟩, fun _ => ⟨_, hafter.stored⟩, ?_, ?_⟩
        · exact h.appended.append (List.Sublist.refl _)
        · exact h.acked.trans (List.sublist_append_left _ _)
  | sync =>
    unfold Session.step
    have hfile : (w.journal.sync w.disk).2.bytes = w.disk.bytes := by
      unfold Journal.sync Disk.sync
      split
      · rfl
      · split <;> rfl
    refine ⟨?_, ?_, h.appended, ?_⟩
    · show _ → ∃ tail, w.journal.Holds (w.journal.sync w.disk).2.bytes tail
      rw [hfile]
      exact h.holds
    · show _ → ∃ tail, Stored (w.journal.sync w.disk).2.bytes w.journal.records tail
      rw [hfile]
      exact h.stored
    · dsimp only
      split
      · exact List.Sublist.refl _
      · exact h.acked
  | openAt limits createIfMissing =>
    unfold Session.step
    dsimp only
    rcases hopen : Journal.openAt limits createIfMissing w.disk with ⟨r, d⟩
    rcases openAt_keeps h.stored hclean hopen with ⟨⟨st, rfl⟩, hstored⟩ | ⟨j, rfl, hprefix, hholds⟩
    · exact ⟨fun hclosed => (by cases hclosed), hstored, h.appended, h.acked⟩
    · exact ⟨fun _ => ⟨_, hholds⟩, fun _ => ⟨_, hholds.stored⟩,
        h.appended.trans hprefix.sublist, h.acked⟩

/-- Clean runs keep what holds. -/
theorem Inv.run {w : Session} {calls : List Call} (h : w.Inv) (hclean : w.CleanRun calls) :
    (w.run calls).Inv := by
  induction calls generalizing w with
  | nil => exact h
  | cons call calls ih => exact ih (h.step hclean.1) hclean.2

/-- After every clean run, the next open with limits for the records returns every record that was
appended and synced, in order and unchanged. -/
theorem acked_returned (d : Disk) (calls : List Call)
    (hclean : ({ disk := d } : Session).CleanRun calls) (limits : JournalLimits)
    (createIfMissing : Bool) (j : Journal) (d' : Disk)
    (hadmits : Admits limits {} (({ disk := d } : Session).run calls).journal.records)
    (hopen : Journal.openAt limits createIfMissing (({ disk := d } : Session).run calls).disk =
      (.ok j, d')) :
    (({ disk := d } : Session).run calls).acked.Sublist j.records := by
  have hinv := (Inv.start d).run hclean
  rcases openAt_keeps hinv.stored hadmits hopen with ⟨⟨st, herror⟩, -⟩ | ⟨j', hj, hprefix, -⟩
  · cases herror
  · cases hj
    exact (hinv.acked.trans hinv.appended).trans hprefix.sublist

theorem synced_returned :
    ∃ j d', Journal.openAt {} false (({ disk := {} } : Session).run
        [.openAt {} true, .append .epoch 0 {} [], .sync]).disk = (.ok j, d') ∧
      (({ disk := {} } : Session).run
        [.openAt {} true, .append .epoch 0 {} [], .sync]).acked.Sublist j.records ∧
      (({ disk := {} } : Session).run
        [.openAt {} true, .append .epoch 0 {} [], .sync]).acked.length = 1 := by
  have hread : ((Journal.openAt {} false (({ disk := {} } : Session).run
      [.openAt {} true, .append .epoch 0 {} [], .sync]).disk).1.toOption).isSome = true := by
    decide +kernel
  rcases hopen : Journal.openAt {} false (({ disk := {} } : Session).run
    [.openAt {} true, .append .epoch 0 {} [], .sync]).disk with ⟨r, d'⟩
  rw [hopen] at hread
  cases r with
  | error st => cases hread
  | ok j =>
    have hclean : ({ disk := {} } : Session).CleanRun
        [.openAt {} true, .append .epoch 0 {} [], .sync] := by
      refine ⟨?_, ?_, ?_, ?_⟩
      · exact ⟨fun r hr => absurd hr List.not_mem_nil, by decide +kernel⟩
      · exact fun _ _ => ⟨by decide +kernel, by decide +kernel⟩
      · exact trivial
      · exact trivial
    have hadmits : Admits {} {} (({ disk := {} } : Session).run
        [.openAt {} true, .append .epoch 0 {} [], .sync]).journal.records :=
      ⟨by decide +kernel, by decide +kernel⟩
    exact ⟨j, d', rfl, acked_returned {} _ hclean {} false j d' hadmits hopen, by decide +kernel⟩

/-- An append of 4096 bytes fails behind its first byte, and a short one is made behind that. -/
def tornCalls : List Call :=
  [.openAt {} true, .append .epoch 0 {} (List.replicate 4096 0),
    .append .epoch 0 {} (List.replicate 16 0), .sync]

/-- The operation on the file that fails behind one byte is the write of the first append. -/
def tornDisk : Disk := { faults := [none, none, none, none, some 1] }

/-- Where one byte of a failed append is left, the record appended behind it and synced is lost. -/
theorem acked_lost :
    ¬∀ (d : Disk) (calls : List Call) (limits : JournalLimits) (createIfMissing : Bool) (j : Journal)
      (d' : Disk), Journal.openAt limits createIfMissing (({ disk := d } : Session).run calls).disk =
        (.ok j, d') → (({ disk := d } : Session).run calls).acked.Sublist j.records := by
  intro h
  have hread : ((Journal.openAt {} false (({ disk := tornDisk } : Session).run
      tornCalls).disk).1.toOption.map fun j => j.records.length) = some 0 := by
    decide +kernel
  have hacked : (({ disk := tornDisk } : Session).run tornCalls).acked.length = 1 := by
    decide +kernel
  rcases hopen : Journal.openAt {} false (({ disk := tornDisk } : Session).run tornCalls).disk with
    ⟨r, d'⟩
  rw [hopen] at hread
  cases r with
  | error st => cases hread
  | ok j =>
    have hnone : j.records.length = 0 := Option.some.inj hread
    have hlength := (h _ _ _ _ j d' hopen).length_le
    rw [hacked, hnone] at hlength
    exact absurd hlength (by decide)

end Session

end Backpressure
