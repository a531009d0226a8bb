import Backpressure.Store.Mutators

/-!
# What a crash leaves

What was synced stays in the file, whatever a crash does to the rest. A property of the records of
a file lasts when every reading that goes on behind the synced records has it: crashes, opens and
appends of records that have it keep it.
-/

namespace Backpressure

variable {file tail tail' : Bytes} {rs rs' : List JournalRecord} {G : List JournalRecord → Prop}
  {d d' : Disk}

/-- Records that are read of a file are the first of all its records. -/
theorem Stored.prefix_all (h : Stored file rs []) (h' : Stored file rs' tail') : rs' <+: rs := by
  obtain ⟨bytes, hbytes, hchunks⟩ := h.chunks
  obtain ⟨bytes', hbytes', hchunks'⟩ := h'.chunks
  rw [hbytes, List.append_nil] at hbytes'
  exact hchunks.prefix_of hchunks' hbytes'

/-- What is read of the first bytes of a file is read of the file. -/
theorem Stored.of_take {n : Nat} (h : Stored (file.take n) rs tail) :
    Stored file rs (tail ++ file.drop n) := by
  have hwhole := h.append (file.drop n)
  rwa [List.take_append_drop] at hwhole

namespace Disk

/-- What a crash leaves: everything that was synced, and some of the bytes behind it. -/
def crash (d : Disk) (n : Nat) : Disk :=
  let file := d.file.map fun bytes => bytes.take (max n d.synced)
  d.become file (file.getD []).length

/-- The synced records, and every reading that goes on behind them, have the property. -/
def Lasts (d : Disk) (G : List JournalRecord → Prop) : Prop :=
  ∃ front tail, Stored d.bytes front tail ∧ imageBytes front ≤ d.synced ∧
    ∀ rs tail', Stored d.bytes rs tail' → front <+: rs → G rs

namespace Lasts

theorem mono {G' : List JournalRecord → Prop} (h : d.Lasts G) (hG : ∀ rs, G rs → G' rs) :
    d.Lasts G' := by
  obtain ⟨front, tail, hstored, hsynced, hall⟩ := h
  exact ⟨front, tail, hstored, hsynced, fun rs tail' hrs hfront => hG rs (hall rs tail' hrs hfront)⟩

theorem of_same (h : d.Lasts G) (hbytes : d'.bytes = d.bytes)
    (hsynced : min d.synced d.bytes.length ≤ d'.synced) : d'.Lasts G := by
  obtain ⟨front, tail, hstored, hfront, hall⟩ := h
  have hlength := hstored.length
  unfold Lasts
  rw [hbytes]
  exact ⟨front, tail, hstored, by omega, hall⟩

/-- The records of a file without a torn end. -/
theorem records (h : d.Lasts G) (hstored : Stored d.bytes rs []) : G rs := by
  obtain ⟨front, tail, hfront, -, hall⟩ := h
  exact hall rs [] hstored (hstored.prefix_all hfront)

/-- A file that is synced as a whole. -/
theorem settled (hstored : Stored d.bytes rs []) (hsynced : d.bytes.length ≤ d.synced) (hG : G rs) :
    d.Lasts G := by
  have hlength := hstored.length
  refine ⟨rs, [], hstored, by rw [List.length_nil] at hlength; omega, fun rs' tail' hrs' hprefix => ?_⟩
  rw [← hprefix.eq_of_length_le (hstored.prefix_all hrs').length_le]
  exact hG

theorem crash (h : d.Lasts G) (n : Nat) : (d.crash n).Lasts G := by
  have hbytes : (d.crash n).bytes = d.bytes.take (max n d.synced) := by
    unfold Disk.crash bytes
    dsimp only [become]
    cases d.file with
    | none => exact List.take_nil.symm
    | some bytes => rfl
  obtain ⟨front, tail, hstored, hsynced, hall⟩ := h
  have hcut := hstored.take (n := max n d.synced) (by omega)
  refine ⟨front, _, hbytes ▸ hcut, ?_, fun rs tail' hrs hprefix => ?_⟩
  · have hlength : (d.crash n).synced = (d.crash n).bytes.length := rfl
    rw [hlength, hbytes, hcut.length]
    omega
  · rw [hbytes] at hrs
    exact hall rs _ hrs.of_take hprefix

/-- Some bytes of a further record behind the last one. -/
theorem write {r : JournalRecord} {chunk : Bytes} (h : d.Lasts G) (hstored : Stored d.bytes rs [])
    (hchunk : Chunk (lastChain {} rs) (afterSequence 1 rs) chunk r) (hnext : G (rs ++ [r])) (k : Nat) :
    (d.write (chunk.take k)).Lasts G := by
  obtain ⟨front, tail, hfront, hsynced, hall⟩ := h
  refine ⟨front, _, hfront.append _, hsynced, fun rs' tail' hrs' hprefix => ?_⟩
  have hwhole := hrs'.append (chunk.drop k)
  rw [bytes_write, List.append_assoc, List.take_append_drop] at hwhole
  rcases List.prefix_concat_iff.mp ((hstored.snoc hchunk).prefix_all hwhole) with rfl | ⟨more, rfl⟩
  · exact hnext
  · obtain ⟨bytes, hold, -⟩ := hstored.front
    exact hall rs' _ hold hprefix

/-- An open whose limits admit what is stored. -/
theorem openAt {limits : JournalLimits} {createIfMissing : Bool} {r : Result Journal}
    (h : d.Lasts G) (hadmits : ∀ rs tail, Stored d.bytes rs tail → Admits limits {} rs)
    (hopen : Journal.openAt limits createIfMissing d = (r, d')) : d'.Lasts G := by
  obtain ⟨front, tail, hfront, hsynced, hall⟩ := h
  have hfile := isSome_of_stored hfront
  have hsame : ∀ {n : Disk}, n.file = d.file → n.synced = d.synced → n.Lasts G := by
    intro n hfile hsynced'
    refine of_same ⟨front, tail, hfront, hsynced, hall⟩ ?_ (hsynced' ▸ min_le_left _ _)
    rw [bytes, bytes, hfile]
  rcases Journal.openAt_cases hopen with ⟨-, hnone | ⟨hfile', hsynced'⟩⟩ |
    ⟨j₀, d₀, st, j', -, -, hd, hlimits, -, hreplay, -⟩
  · rw [hnone] at hfile
    cases hfile
  · exact hsame hfile' hsynced'
  · obtain ⟨-, rfl⟩ | ⟨hnone, -, -⟩ := hd
    · rcases Journal.replayFile_cases hreplay with
        ⟨-, hfile', hsynced'⟩ | ⟨rs, _, -, hrefused, hrs, -, -, hbytes, -, -, hsynced', -⟩
      · exact hsame hfile' hsynced'
      · have hprefix : front <+: rs := by
          rw [hrs]
          rw [hlimits, bytes_next] at hrefused ⊢
          rcases hfront.replayed_extends (hadmits front tail hfront) with hno | hyes
          · rw [hno] at hrefused
            cases hrefused
          · exact hyes
        have hcut := imageBytes_mono hprefix
        rw [bytes_next] at hbytes
        have hsynced' : min d.synced (imageBytes rs) ≤ d'.synced := hsynced'
        refine ⟨front, _, hbytes ▸ hfront.take hcut, by omega, fun rs' tail' hrs' hprefix' => ?_⟩
        rw [hbytes] at hrs'
        exact hall rs' _ hrs'.of_take hprefix'
    · rw [hnone] at hfile
      cases hfile

end Lasts

end Disk

/-- What a sync can do. -/
theorem Journal.sync_cases {j : Journal} {st : Status} (h : j.sync d = (st, d')) :
    d'.bytes = d.bytes ∧ min d.synced d.bytes.length ≤ d'.synced ∧
      (st.ok = true → d'.synced = d.bytes.length) := by
  unfold Journal.sync at h
  split at h
  · cases h
    exact ⟨rfl, min_le_left _ _, nofun⟩
  · unfold Disk.sync at h
    split at h
    · cases h
      exact ⟨rfl, min_le_left _ _, nofun⟩
    · cases h
      exact ⟨rfl, min_le_left _ _, nofun⟩
    · cases h
      exact ⟨rfl, min_le_right _ _, fun _ => rfl⟩

namespace DurableStore

variable {s s' : DurableStore} {st : Status} {type : RecordType} {now : Tick} {epoch : Epoch}
  {payload : Result Bytes} {f : DurableStore → DurableStore}

/-- A write that is not the last of its file: refused before it is made, or made. -/
def Tried (s : DurableStore) (type : RecordType) (now : Tick) (epoch : Epoch) (payload : Result Bytes)
    (f : DurableStore → DurableStore) (d : Disk) (st : Status) (s' : DurableStore) (d' : Disk) : Prop :=
  st.ok = false ∧ s' = s ∧ d' = d ∨ Wrote s type now epoch payload true (succeed f) d st s' d'

/-- A synced write behind the last record of a file: what lasts goes on to last, and a write that
succeeds is the last record of a file that is synced as a whole. -/
theorem Tried.lasts {bytes : Bytes} (h : Tried s type now epoch payload f d st s' d')
    (hholds : s.journal.Holds d.bytes []) (htype : type ≠ .count) (hpayload : payload = .ok bytes)
    (hlength : bytes.length < 256 ^ 4) (hf : ∀ s, (f s).journal = s.journal) :
    (∀ G : List JournalRecord → Prop, d.Lasts G → (∀ r : JournalRecord, r.type = type → r.epoch = epoch →
        r.payload = bytes → G (s.journal.records ++ [r])) → d'.Lasts G) ∧
      (∃ tail, s'.journal.Holds d'.bytes tail) ∧
      (st.ok = true → s'.journal.Holds d'.bytes [] ∧ d'.bytes.length ≤ d'.synced ∧
        ∃ r : JournalRecord, r.type = type ∧ r.epoch = epoch ∧ r.payload = bytes ∧
          s'.journal.records = s.journal.records ++ [r]) := by
  rcases h with ⟨hno, rfl, rfl⟩ | hwrote
  · refine ⟨fun G hG _ => hG, ⟨[], hholds⟩, fun hst => ?_⟩
    rw [hno] at hst
    cases hst
  · subst hpayload
    have hpushed : (s.logged type now epoch bytes).journal.Holds
        (d.bytes ++ (s.journal.nextRecord type now epoch bytes).encode) [] := hholds.push htype hlength
    have htorn : ∀ (k : Nat) (G : List JournalRecord → Prop), d.Lasts G →
        (∀ r : JournalRecord, r.type = type → r.epoch = epoch → r.payload = bytes →
          G (s.journal.records ++ [r])) →
        (d.next.write ((s.journal.nextRecord type now epoch bytes).encode.take k)).Lasts G := by
      intro k G hG hnext
      refine Disk.Lasts.write (d := d.next) hG hholds.stored (hholds.chunk htype hlength) ?_ k
      exact hnext _ rfl rfl rfl
    have hwhole : ∀ G : List JournalRecord → Prop, d.Lasts G →
        (∀ r : JournalRecord, r.type = type → r.epoch = epoch → r.payload = bytes →
          G (s.journal.records ++ [r])) →
        (d.next.write (s.journal.nextRecord type now epoch bytes).encode).Lasts G := by
      intro G hG hnext
      have hall := htorn (s.journal.nextRecord type now epoch bytes).encode.length G hG hnext
      rwa [List.take_length] at hall
    cases hwrote with
    | unencoded herror => cases herror
    | refused _ hno =>
      refine ⟨fun G hG _ => hG, ⟨[], hholds⟩, fun hst => ?_⟩
      rw [hno] at hst
      cases hst
    | torn hbytes =>
      cases hbytes
      exact ⟨htorn _, ⟨_, hholds.write _⟩, nofun⟩
    | unsynced hbytes _ _ _ hsync hno =>
      cases hbytes
      obtain ⟨hsame, hsynced, -⟩ := Journal.sync_cases hsync
      refine ⟨fun G hG hnext => (hwhole G hG hnext).of_same hsame hsynced, ⟨[], ?_⟩, fun hst => ?_⟩
      · rw [hsame]
        exact hpushed
      · rw [hno] at hst
        cases hst
    | written hbytes _ _ hsync =>
      cases hbytes
      rcases hsync with ⟨hno, -⟩ | ⟨-, st', hok, hsync⟩
      · cases hno
      · obtain ⟨hsame, hsynced, hall⟩ := Journal.sync_cases hsync
        have hafter : ((succeed f (s.logged type now epoch bytes)).2).journal.Holds d'.bytes [] := by
          rw [succeed, hf, hsame]
          exact hpushed
        refine ⟨fun G hG hnext => (hwhole G hG hnext).of_same hsame hsynced, ⟨[], hafter⟩,
          fun _ => ⟨hafter, ?_, s.journal.nextRecord type now epoch bytes, rfl, rfl, rfl, ?_⟩⟩
        · rw [hsame]
          exact (hall hok).ge
        · rw [succeed, hf]
          rfl

/-- What is in memory after a write. -/
theorem Tried.state (h : Tried s type now epoch payload f d st s' d') (hpayload : ∃ bytes, payload = .ok bytes) :
    st.ok = true ∧ (∃ j, s' = f { s with journal := j }) ∨
      st.ok = false ∧ ∃ j, s' = { s with journal := j } := by
  rcases h with ⟨hno, rfl, -⟩ | hwrote
  · exact .inr ⟨hno, _, rfl⟩
  · cases hwrote with
    | unencoded herror =>
      obtain ⟨bytes, hbytes⟩ := hpayload
      rw [hbytes] at herror
      cases herror
    | refused _ hno => exact .inr ⟨hno, _, rfl⟩
    | torn => exact .inr ⟨rfl, _, rfl⟩
    | unsynced _ _ _ _ _ hno => exact .inr ⟨hno, _, rfl⟩
    | written => exact .inl ⟨rfl, _, rfl⟩

/-- An open of a store whose limits admit what is stored. -/
theorem lasts_openAt {G : List JournalRecord → Prop} {config : DurableConfig} {r : Result DurableStore}
    (h : openAt config d = (r, d')) (hlasts : d.Lasts G)
    (hadmits : ∀ rs tail, Stored d.bytes rs tail → Admits config.journalLimits {} rs) : d'.Lasts G := by
  unfold openAt at h
  split at h
  · cases h
    exact hlasts
  · split at h
    all_goals
      rename_i hopen
      cases h
      exact hlasts.openAt hadmits hopen

/-! ## The writes of an open -/

theorem establishEpoch_tried (h : s.establishEpoch now d = (st, s', d')) :
    ∃ (next : Epoch) (bytes : Bytes), ByteWriter.take 32 (ByteWriter.u64 next.value) = .ok bytes ∧
      bytes.length < 256 ^ 4 ∧
      Tried s .epoch now next (ByteWriter.take 32 (ByteWriter.u64 next.value)) (fun s =>
        { s with state := { s.state with previousEpoch := s.state.epoch, epoch := next } }) d st s' d' := by
  have htake : ∀ next : Epoch, ByteWriter.take 32 (ByteWriter.u64 next.value) =
      .ok (Lib.LittleEndian.encode 8 next.value.toNat) := fun next =>
    (Appends.u64 next.value).take (by simp)
  unfold establishEpoch at h
  split at h
  case h_1 refused hnext =>
    cases h
    have hno : st.ok = false := by
      split at hnext
      · unfold Epoch.next at hnext
        split at hnext
        · cases hnext
          rfl
        · cases hnext
      · cases hnext
    exact ⟨{}, _, htake {}, by simp, .inl ⟨hno, rfl, rfl⟩⟩
  case h_2 next hnext => exact ⟨next, _, htake next, by simp, .inr (write_cases h)⟩

theorem recordBoot_tried {i : Incarnation} (h : s.recordBoot i now d = (st, s', d')) :
    ∃ bytes : Bytes, ByteWriter.take 64 (encodeIncarnation i) = .ok bytes ∧ bytes.length < 256 ^ 4 ∧
      Tried s .boot now s.state.epoch (ByteWriter.take 64 (encodeIncarnation i)) (fun s =>
        { s with
          state := { s.state with boot := i.boot, incarnation := i, bootRecorded := true } })
        d st s' d' := by
  obtain ⟨bytes, hlength, hwrite, -⟩ := incarnation_codec i
  refine ⟨bytes, hwrite.take (by omega), by omega, ?_⟩
  unfold recordBoot withEpoch at h
  split at h
  · cases h
    exact .inl ⟨rfl, rfl, rfl⟩
  · split at h
    · cases h
      exact .inl ⟨rfl, rfl, rfl⟩
    · exact .inr (write_cases h)

end DurableStore

end Backpressure
