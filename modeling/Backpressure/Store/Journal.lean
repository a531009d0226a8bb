import Backpressure.Core.ByteIo
import Backpressure.Model.Generation

/-!
# The journal

`journal.hpp`, `journal.cpp` and the replacement of a file in `fsutil.hpp`: an append-only file of
length-delimited, checksummed and chained records, read back from its start. The disk holds the
file, how much of it the last sync covers, and what the next file operations meet. Sizes are
natural numbers.

Three things are idealised. `fwrite` is taken as unbuffered: what it has written is in the file, and
an error shows at the write and not at a later flush. `fread` returns what is in the file, and
asking for the size of a file does not fail. A rename is durable when it returns.
-/

namespace Backpressure

open Lib (LittleEndian.encode LittleEndian.decode)

inductive RecordType
  | epoch | boot | policy | fencePut | fenceRemove | topologyBinding | lineage | revalidation
  | attemptBegin | attemptCommit | attemptAbort | compaction | count
  deriving DecidableEq, Repr

namespace RecordType

/-- The `u16` of the record header; it starts at one. -/
def toNat (t : RecordType) : Nat := t.ctorIdx + 1

/-- The type of a stored `u16`; zero and everything from `Count` on are refused. -/
def ofRaw : Nat → Option RecordType
  | 1 => some .epoch
  | 2 => some .boot
  | 3 => some .policy
  | 4 => some .fencePut
  | 5 => some .fenceRemove
  | 6 => some .topologyBinding
  | 7 => some .lineage
  | 8 => some .revalidation
  | 9 => some .attemptBegin
  | 10 => some .attemptCommit
  | 11 => some .attemptAbort
  | 12 => some .compaction
  | _ => none

theorem ofRaw_toNat {t : RecordType} (h : t ≠ .count) : ofRaw t.toNat = some t := by
  cases t with
  | count => exact absurd rfl h
  | _ => rfl

theorem toNat_lt (t : RecordType) : t.toNat < 256 ^ 2 := by cases t <;> decide

end RecordType

structure JournalLimits where
  maxRecordBytes : Nat := 4096
  maxRecords : Nat := 262144
  maxFileBytes : Nat := 1073741824
  maxRetainedBytes : Nat := 268435456
  deriving DecidableEq, Repr

structure JournalRecord where
  sequence : UInt64 := 0
  type : RecordType := .epoch
  tick : Tick := kNoTick
  epoch : Epoch := {}
  chain : Digest128 := {}
  payload : Bytes := []
  deriving DecidableEq, Repr

structure JournalStats where
  records : Nat := 0
  bytes : Nat := 0
  truncatedTailRecords : Nat := 0
  sequence : UInt64 := 0
  chain : Digest128 := {}
  repaired : Bool := false
  deriving DecidableEq, Repr

/-- An append-only journal over a single file; closed while it has no handle. -/
structure Journal where
  limits : JournalLimits := {}
  isOpen : Bool := false
  records : List JournalRecord := []
  stats : JournalStats := {}
  fileBytes : Nat := 0
  retainedBytes : Nat := 0
  deriving DecidableEq, Repr

/-! ## The disk -/

/-- The file, the length that a crash leaves of it at least, what the next file operations meet
(success, or a failure at some point of the operation), and the files and lengths there were
before. -/
structure Disk where
  file : Option Bytes := none
  synced : Nat := 0
  faults : List (Option Nat) := []
  past : List (Option Bytes × Nat) := []
  deriving DecidableEq, Repr

namespace Disk

def bytes (d : Disk) : Bytes := d.file.getD []

/-- What the next operation meets. -/
def fault (d : Disk) : Option Nat := d.faults.head?.getD none

def next (d : Disk) : Disk := { d with faults := d.faults.tail }

/-- The next file, and how much of it a crash leaves. -/
def become (d : Disk) (file : Option Bytes) (synced : Nat) : Disk :=
  { d with file, synced, past := (d.file, d.synced) :: d.past }

/-- Bytes put behind the end of the file. -/
def write (d : Disk) (bytes : Bytes) : Disk := d.become (some (d.bytes ++ bytes)) d.synced

/-- A new file in the place of the old one. -/
def replace (d : Disk) (bytes : Bytes) : Disk := d.become (some bytes) bytes.length

/-- `sync_handle`. -/
def sync (d : Disk) : Status × Disk :=
  match d.fault with
  | some 0 => (.error .ioError "fflush" 0, d.next)
  | some _ => (.error .ioError "fsync" 0, d.next)
  | none => (.success, d.next.become d.file d.bytes.length)

/-- `write_file_atomic`: whatever fails, the target stays as it was. -/
def writeFileAtomic (d : Disk) (bytes : Bytes) : Status × Disk :=
  match d.fault with
  | some 0 => (.error .ioError "open temp for write" 0, d.next)
  | some 1 => (.error .ioError "short write" 0, d.next)
  | some 2 => (.error .ioError "fflush" 0, d.next)
  | some 3 => (.error .ioError "fsync" 0, d.next)
  | some _ => (.error .ioError "atomic rename" 0, d.next)
  | none => (.success, d.next.replace bytes)

end Disk

/-! ## The format -/

def kHeaderBytes : Nat := 32
def kRecordHeaderBytes : Nat := 52
def kFormatVersion : Nat := 1
def kHeaderMagicCrcSeed : UInt32 := 0x42414650

/-- The bytes of `BPFABJ01`. -/
def kMagic : Bytes := [0x42, 0x50, 0x46, 0x41, 0x42, 0x4A, 0x30, 0x31]

/-- The number in a field of a header. -/
def field (header : Bytes) (offset width : Nat) : Nat :=
  LittleEndian.decode ((header.drop offset).take width)

/-- The file header before its checksum. -/
def headerFields : Bytes :=
  kMagic ++ LittleEndian.encode 2 kFormatVersion ++ LittleEndian.encode 2 0 ++
    LittleEndian.encode 4 kHeaderBytes ++ LittleEndian.encode 8 0 ++ LittleEndian.encode 4 0

def fileHeader : Bytes :=
  headerFields ++ LittleEndian.encode 4 (crc32Update kHeaderMagicCrcSeed headerFields).toNat

/-- The digest that binds a record to the one before it. -/
def chainOf (previous : Digest128) (sequence : UInt64) (type : RecordType) (tick : Tick)
    (epoch : Epoch) (payload : Bytes) : Digest128 :=
  let b := ((({} : DigestBuilder).domain 0x90).updateDigest previous).updateU64 sequence.toNat
  let b := digestEpoch ((b.updateU16 type.toNat).updateU64 tick.toNat) epoch
  (b.update payload).finish

namespace JournalRecord

/-- The record header behind its length and checksum. -/
def body (r : JournalRecord) : Bytes :=
  LittleEndian.encode 8 r.sequence.toNat ++ LittleEndian.encode 2 r.type.toNat ++
    LittleEndian.encode 2 0 ++ LittleEndian.encode 8 r.tick.toNat ++
    LittleEndian.encode 8 r.epoch.value.toNat ++ LittleEndian.encode 8 r.chain.hi.toNat ++
    LittleEndian.encode 8 r.chain.lo.toNat

def header (r : JournalRecord) : Bytes :=
  LittleEndian.encode 4 r.payload.length ++
    LittleEndian.encode 4 (crc32Update (crc32 r.body) r.payload).toNat ++ r.body

/-- The bytes of a record. -/
def encode (r : JournalRecord) : Bytes := r.header ++ r.payload

end JournalRecord

/-! ## Replay -/

/-- The checks of a record whose header and payload were read. -/
def checkRecord (previous : Digest128) (next : UInt64) (header payload : Bytes) :
    Option JournalRecord :=
  if crc32Update (crc32 (header.drop 8)) payload ≠ .ofNat (field header 4 4) then none
  else match RecordType.ofRaw (field header 16 2) with
  | none => none
  | some type =>
    let r : JournalRecord :=
      { sequence := .ofNat (field header 8 8)
        type
        tick := .ofNat (field header 20 8)
        epoch := ⟨.ofNat (field header 28 8)⟩
        chain := ⟨.ofNat (field header 36 8), .ofNat (field header 44 8)⟩
        payload }
    if chainOf previous r.sequence r.type r.tick r.epoch payload ≠ r.chain then none
    else if r.sequence ≠ next then none
    else some r

/-- What has been read of a file. -/
structure Replay where
  records : List JournalRecord := []
  retained : Nat := 0
  sequence : UInt64 := 0
  previous : Digest128 := {}
  offset : Nat := kHeaderBytes
  torn : Nat := 0
  refused : Status := .success
  deriving DecidableEq, Repr

/-- What the next bytes hold. -/
inductive ReadStep
  | finished
  | torn
  | refused (r : JournalRecord)
  | record (r : JournalRecord) (rest : Bytes)

/-- The sequence number that the next record must have. -/
def nextSequence (records : List JournalRecord) : UInt64 :=
  match records.getLast? with
  | none => 1
  | some r => r.sequence + 1

/-- One iteration of the replay. -/
def readRecord (limits : JournalLimits) (s : Replay) (bytes : Bytes) : ReadStep :=
  if bytes = [] then .finished
  else if bytes.length < kRecordHeaderBytes then .torn
  else
    let header := bytes.take kRecordHeaderBytes
    let length := field header 0 4
    if limits.maxRecordBytes < length then .torn
    else if limits.maxRecords ≤ s.records.length then .torn
    else
      let payload := (bytes.drop kRecordHeaderBytes).take length
      if payload.length ≠ length then .torn
      else match checkRecord s.previous (nextSequence s.records) header payload with
      | none => .torn
      | some r =>
        if limits.maxRetainedBytes < s.retained + payload.length then .refused r
        else .record r (bytes.drop (kRecordHeaderBytes + length))

/-- The replay with one more record. -/
def Replay.push (s : Replay) (r : JournalRecord) : Replay :=
  { s with
    records := s.records ++ [r]
    retained := s.retained + r.payload.length
    sequence := r.sequence
    previous := r.chain
    offset := s.offset + (kRecordHeaderBytes + r.payload.length) }

/-- Read records until the bytes end, are damaged, or do not fit. -/
def replayLoop (limits : JournalLimits) : Nat → Replay → Bytes → Replay
  | 0, s, _ => s
  | fuel + 1, s, bytes =>
    match readRecord limits s bytes with
    | .finished => s
    | .torn => { s with torn := s.torn + 1 }
    | .refused r =>
      { s with
        retained := s.retained + r.payload.length
        sequence := r.sequence
        refused := .error .limitExceeded "journal retained bytes" (s.retained + r.payload.length) }
    | .record r rest => replayLoop limits fuel (s.push r) rest

/-- The checks of the file header. -/
def checkHeader (file : Bytes) : Status :=
  let header := file.take kHeaderBytes
  if header.length ≠ kHeaderBytes then .error .truncatedInput "journal header" 0
  else if header.take 8 ≠ kMagic then .error .malformedInput "journal magic" 0
  else if field header 8 2 ≠ kFormatVersion then
    .error .versionMismatch "journal version" (field header 8 2)
  else if crc32Update kHeaderMagicCrcSeed (header.take 28) ≠ .ofNat (field header 28 4) then
    .error .integrityMismatch "journal header crc" 0
  else .success

namespace Journal

/-- What a replay leaves of the bytes behind the file header; every record takes more than one
of them. -/
def replayed (limits : JournalLimits) (file : Bytes) : Replay :=
  replayLoop limits (file.length + 1) {} (file.drop kHeaderBytes)

/-- The journal with what was read. -/
def load (j : Journal) (s : Replay) : Journal :=
  { j with
    records := s.records
    retainedBytes := s.retained
    stats :=
      { records := s.records.length
        bytes := s.offset
        truncatedTailRecords := s.torn
        sequence := s.sequence
        chain := s.previous } }

/-- The end of `replay_file`: position at the end of the file. -/
def seekEnd (j : Journal) (offset : Nat) (d : Disk) : Status × Journal × Disk :=
  match d.fault with
  | some _ => (.error .ioError "seek end" 0, j, d.next)
  | none => (.success, { j with fileBytes := offset }, d.next)

/-- Read the file into a journal without records; what is behind the last intact record is cut
off. -/
def replayFile (j : Journal) (d : Disk) : Status × Journal × Disk :=
  match d.fault with
  | some _ => (.error .ioError "seek start" 0, j, d.next)
  | none =>
    let d := d.next
    let st := checkHeader d.bytes
    if !st.ok then (st, j, d)
    else
      let s := replayed j.limits d.bytes
      if !s.refused.ok then
        (s.refused,
          { j with
            records := s.records, retainedBytes := s.retained
            stats := { j.stats with
              sequence := s.sequence, truncatedTailRecords := s.torn } }, d)
      else if s.offset < d.bytes.length then
        match d.fault with
        | some _ => (.error .ioError "truncate" 0, j.load s, d.next)
        | none =>
          { j.load s with stats := { (j.load s).stats with repaired := true } }.seekEnd s.offset
            (d.next.become (some (d.bytes.take s.offset)) (min d.synced s.offset))
      else (j.load s).seekEnd s.offset d

/-- `fopen` of a file that is there. -/
def openHandle (j : Journal) (d : Disk) : Status × Journal × Disk :=
  match d.fault with
  | some _ => (.error .ioError "open journal" 0, { j with isOpen := false }, d.next)
  | none => (.success, { j with isOpen := true }, d.next)

/-- Create the file and write its header. -/
def create (j : Journal) (d : Disk) : Status × Journal × Disk :=
  match d.fault with
  | some _ => (.error .ioError "create journal" 0, j, d.next)
  | none =>
    let d := d.next.become (some []) 0
    match d.fault with
    | some k =>
      let context := if k < kHeaderBytes then "write journal header" else "flush journal header"
      (.error .ioError context 0, { j with isOpen := true }, d.next.write (fileHeader.take k))
    | none => (.success, { j with isOpen := true, fileBytes := kHeaderBytes }, d.next.write fileHeader)

/-- `Journal::open`. -/
def openAt (limits : JournalLimits) (createIfMissing : Bool) (d : Disk) : Result Journal × Disk :=
  if limits.maxRecordBytes < 16 ∨ limits.maxRecords = 0 ∨ limits.maxFileBytes < kHeaderBytes then
    (fail .invalidArgument "journal limits" 0, d)
  else if d.file.isNone ∧ !createIfMissing then (fail .notFound "journal missing" 0, d)
  else
    let (st, j, d) := if d.file.isNone then create { limits } d else openHandle { limits } d
    if !st.ok then (.error st, d)
    else
      let (st, j, d) := j.replayFile d
      if st.ok then (.ok j, d) else (fail st.code st.context 0, d)

/-- The record that an append writes. -/
def nextRecord (j : Journal) (type : RecordType) (tick : Tick) (epoch : Epoch) (payload : Bytes) :
    JournalRecord :=
  { sequence := j.stats.sequence + 1
    type, tick, epoch, payload
    chain := chainOf j.stats.chain (j.stats.sequence + 1) type tick epoch payload }

/-- The journal with one more record. -/
def push (j : Journal) (r : JournalRecord) : Journal :=
  { j with
    records := j.records ++ [r]
    stats := { j.stats with
      sequence := r.sequence
      chain := r.chain
      records := j.records.length + 1
      bytes := j.fileBytes + (kRecordHeaderBytes + r.payload.length) }
    fileBytes := j.fileBytes + (kRecordHeaderBytes + r.payload.length)
    retainedBytes := j.retainedBytes + r.payload.length }

/-- The checks of an append. -/
def checkAppend (j : Journal) (type : RecordType) (payload : Bytes) : Status :=
  if !j.isOpen then .error .notReady "journal closed" 0
  else if type = .count then .error .invalidArgument "record type" 0
  else if j.limits.maxRecordBytes < payload.length then
    .error .oversizedInput "record payload" payload.length
  else if j.limits.maxRecords ≤ j.records.length then
    .error .limitExceeded "journal records" j.records.length
  else if j.limits.maxFileBytes < j.fileBytes + (kRecordHeaderBytes + payload.length) then
    .error .limitExceeded "journal file bytes" j.fileBytes
  else if j.limits.maxRetainedBytes < j.retainedBytes + payload.length then
    .error .limitExceeded "journal retained bytes" j.retainedBytes
  else .success

/-- `Journal::append`; a failing write leaves some of the bytes in the file. -/
def append (j : Journal) (type : RecordType) (tick : Tick) (epoch : Epoch) (payload : Bytes)
    (d : Disk) : Status × Journal × Disk :=
  let st := j.checkAppend type payload
  if !st.ok then (st, j, d)
  else
    let r := j.nextRecord type tick epoch payload
    match d.fault with
    | some k => (.error .ioError "journal append" 0, j, d.next.write (r.encode.take k))
    | none => (.success, j.push r, d.next.write r.encode)

/-- `Journal::sync`. -/
def sync (j : Journal) (d : Disk) : Status × Disk :=
  if !j.isOpen then (.error .notReady "journal closed" 0, d) else d.sync

/-- The bytes of a rewritten journal. -/
def encodeAll (limits : JournalLimits) :
    List JournalRecord → UInt64 → Digest128 → Bytes → Result Bytes
  | [], _, _, buffer => .ok buffer
  | record :: rest, sequence, previous, buffer =>
    if limits.maxRecordBytes < record.payload.length then
      fail .oversizedInput "rewrite payload" record.payload.length
    else
      let r := { record with
        sequence := sequence + 1
        chain := chainOf previous (sequence + 1) record.type record.tick record.epoch record.payload }
      if limits.maxFileBytes < (buffer ++ r.encode).length then
        fail .limitExceeded "rewrite file bytes" (buffer ++ r.encode).length
      else encodeAll limits rest r.sequence r.chain (buffer ++ r.encode)

/-- What `Journal::rewrite` checks before it touches the file. -/
def rewriteImage (j : Journal) (records : List JournalRecord) : Result Bytes :=
  if j.limits.maxRecords < records.length then
    fail .limitExceeded "rewrite records" records.length
  else encodeAll j.limits records 0 {} fileHeader

/-- `Journal::rewrite`. -/
def rewrite (j : Journal) (records : List JournalRecord) (d : Disk) : Status × Journal × Disk :=
  match j.rewriteImage records with
  | .error st => (st, j, d)
  | .ok image =>
    -- the handle is closed and the records forgotten before the new file is in place
    let j : Journal := { limits := j.limits }
    let (st, d) := d.writeFileAtomic image
    if !st.ok then (st, j, d)
    else
      let (st, j, d) := j.openHandle d
      if !st.ok then (st, j, d) else j.replayFile d

end Journal

end Backpressure
