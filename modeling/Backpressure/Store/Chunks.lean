import Backpressure.Store.Journal
import Mathlib.Algebra.BigOperators.Group.List.Basic
import Mathlib.Algebra.GroupWithZero.Nat
import Mathlib.Data.List.Induction

/-!
# Intact records in a file

A file read by `replay_file` is a header, the bytes of intact records one after the other, and
what is behind them. `Chunk` says what makes the bytes of one record intact in its place; every
append writes such bytes, and the replay reads them back as far as its limits go.
-/

namespace Backpressure

open Lib (LittleEndian.encode LittleEndian.decode)

/-! ## Fields of a header -/

theorem field_here (w n : Nat) (rest : Bytes) :
    field (LittleEndian.encode w n ++ rest) 0 w = n % 256 ^ w := by
  have htake : (LittleEndian.encode w n ++ rest).take w = LittleEndian.encode w n :=
    List.take_left' (Lib.LittleEndian.length_encode w n)
  rw [field, List.drop_zero, htake, Lib.LittleEndian.decode_encode]

theorem field_skip {a rest : Bytes} {offset w : Nat} (h : a.length ≤ offset) :
    field (a ++ rest) offset w = field rest (offset - a.length) w := by
  rw [field, field, List.drop_append, List.drop_eq_nil_of_le h, List.nil_append]

theorem field_take {bytes : Bytes} {offset w n : Nat} (h : offset + w ≤ n) :
    field (bytes.take n) offset w = field bytes offset w := by
  rw [field, field, List.drop_take, List.take_take, min_eq_left (by omega)]

theorem ofNat_mod_u64 (v : UInt64) : UInt64.ofNat (v.toNat % 256 ^ 8) = v := by
  have hlt : v.toNat < 256 ^ 8 := v.toNat_lt.trans_eq (by norm_num)
  rw [Nat.mod_eq_of_lt hlt]
  exact UInt64.ofNat_toNat

theorem ofNat_mod_u32 (v : UInt32) : UInt32.ofNat (v.toNat % 256 ^ 4) = v := by
  have hlt : v.toNat < 256 ^ 4 := v.toNat_lt.trans_eq (by norm_num)
  rw [Nat.mod_eq_of_lt hlt]
  exact UInt32.ofNat_toNat

namespace JournalRecord

variable (r : JournalRecord)

@[simp] theorem length_body : r.body.length = 44 := by
  simp [body]

@[simp] theorem length_header : r.header.length = kRecordHeaderBytes := by
  simp [header, kRecordHeaderBytes]

@[simp] theorem length_encode : r.encode.length = kRecordHeaderBytes + r.payload.length := by
  simp [encode]

theorem take_encode : r.encode.take kRecordHeaderBytes = r.header :=
  List.take_left' r.length_header

theorem drop_encode : r.encode.drop kRecordHeaderBytes = r.payload :=
  List.drop_left' r.length_header

theorem field_length : field r.header 0 4 = r.payload.length % 256 ^ 4 := by
  rw [header, List.append_assoc, field_here]

theorem field_crc :
    UInt32.ofNat (field r.header 4 4) = crc32Update (crc32 r.body) r.payload := by
  rw [header, List.append_assoc, field_skip (by simp), Lib.LittleEndian.length_encode, Nat.sub_self,
    field_here, ofNat_mod_u32]

theorem drop_header : r.header.drop 8 = r.body := by
  rw [header, List.drop_left' (by simp)]

/-- Behind length and checksum the header is the body. -/
theorem field_header {offset w : Nat} : field r.header (8 + offset) w = field r.body offset w := by
  rw [header, field_skip (by simp)]
  simp

theorem field_sequence : UInt64.ofNat (field r.header 8 8) = r.sequence := by
  rw [@field_header r 0, body]
  simp only [List.append_assoc]
  rw [field_here, ofNat_mod_u64]

theorem field_type : field r.header 16 2 = r.type.toNat := by
  rw [@field_header r 8, body]
  simp only [List.append_assoc]
  rw [field_skip (by simp), Lib.LittleEndian.length_encode, Nat.sub_self, field_here,
    Nat.mod_eq_of_lt r.type.toNat_lt]

theorem field_tick : UInt64.ofNat (field r.header 20 8) = r.tick := by
  rw [@field_header r 12, body]
  simp only [List.append_assoc]
  rw [field_skip (by simp), field_skip (by simp), field_skip (by simp)]
  simp only [Lib.LittleEndian.length_encode]
  rw [field_here, ofNat_mod_u64]

theorem field_epoch : UInt64.ofNat (field r.header 28 8) = r.epoch.value := by
  rw [@field_header r 20, body]
  simp only [List.append_assoc]
  rw [field_skip (by simp), field_skip (by simp), field_skip (by simp), field_skip (by simp)]
  simp only [Lib.LittleEndian.length_encode]
  rw [field_here, ofNat_mod_u64]

theorem field_chain_hi : UInt64.ofNat (field r.header 36 8) = r.chain.hi := by
  rw [@field_header r 28, body]
  simp only [List.append_assoc]
  rw [field_skip (by simp), field_skip (by simp), field_skip (by simp), field_skip (by simp),
    field_skip (by simp)]
  simp only [Lib.LittleEndian.length_encode]
  rw [field_here, ofNat_mod_u64]

theorem field_chain_lo : UInt64.ofNat (field r.header 44 8) = r.chain.lo := by
  rw [@field_header r 36, body]
  simp only [List.append_assoc]
  rw [field_skip (by simp), field_skip (by simp), field_skip (by simp), field_skip (by simp),
    field_skip (by simp), field_skip (by simp)]
  simp only [Lib.LittleEndian.length_encode]
  rw [← List.append_nil (LittleEndian.encode 8 r.chain.lo.toNat), field_here, ofNat_mod_u64]

end JournalRecord

/-! ## Intact records -/

/-- The bytes of one intact record in its place. -/
structure Chunk (previous : Digest128) (next : UInt64) (chunk : Bytes) (r : JournalRecord) :
    Prop where
  long : kRecordHeaderBytes ≤ chunk.length
  size : field chunk 0 4 = r.payload.length
  payload : chunk.drop kRecordHeaderBytes = r.payload
  checked : checkRecord previous next (chunk.take kRecordHeaderBytes) r.payload = some r

theorem checkRecord_payload {previous : Digest128} {next : UInt64} {header payload : Bytes}
    {r : JournalRecord} (h : checkRecord previous next header payload = some r) :
    r.payload = payload ∧ r.sequence = next ∧ r.type ≠ .count ∧
      r.chain = chainOf previous next r.type r.tick r.epoch payload := by
  unfold checkRecord at h
  split at h
  · cases h
  · split at h
    · cases h
    case h_2 type htype =>
      dsimp only at h
      split at h
      · cases h
      case isFalse hchain =>
        split at h
        · cases h
        case isFalse hsequence =>
          cases h
          obtain rfl := not_not.mp hsequence
          refine ⟨rfl, rfl, fun hcount => ?_, (not_not.mp hchain).symm⟩
          dsimp only at hcount
          rw [hcount] at htype
          unfold RecordType.ofRaw at htype
          split at htype <;> cases htype

namespace Chunk

variable {previous : Digest128} {next : UInt64} {chunk rest : Bytes} {r : JournalRecord}

theorem length (h : Chunk previous next chunk r) :
    chunk.length = kRecordHeaderBytes + r.payload.length := by
  have hlong := h.long
  rw [← h.payload, List.length_drop]
  omega

/-- A record in its place is intact as long as its length fits its field. -/
theorem encode (hchain : r.chain = chainOf previous next r.type r.tick r.epoch r.payload)
    (hsequence : r.sequence = next) (htype : r.type ≠ .count)
    (hlength : r.payload.length < 256 ^ 4) : Chunk previous next r.encode r where
  long := by
    rw [r.length_encode]
    omega
  size := by
    rw [← @field_take _ 0 4 kRecordHeaderBytes (by decide), r.take_encode, r.field_length,
      Nat.mod_eq_of_lt hlength]
  payload := r.drop_encode
  checked := by
    rw [r.take_encode, checkRecord, if_neg (by rw [r.drop_header, r.field_crc]; simp), r.field_type,
      RecordType.ofRaw_toNat htype]
    dsimp only
    rw [r.field_sequence, r.field_tick, r.field_epoch, r.field_chain_hi, r.field_chain_lo]
    rw [if_neg (not_not.mpr (hsequence ▸ hchain.symm)), if_neg (not_not.mpr hsequence)]

/-- The bytes say which record they begin with. -/
theorem unique {chunk' rest' : Bytes} {r' : JournalRecord} (h : Chunk previous next chunk r)
    (h' : Chunk previous next chunk' r') (heq : chunk ++ rest = chunk' ++ rest') :
    chunk = chunk' ∧ r = r' := by
  have hfield : field chunk 0 4 = field chunk' 0 4 := by
    have hlong := h.long
    have hlong' := h'.long
    have hfront : (chunk ++ rest).take kRecordHeaderBytes = chunk.take kRecordHeaderBytes :=
      List.take_append_of_le_length hlong
    have hfront' : (chunk' ++ rest').take kRecordHeaderBytes = chunk'.take kRecordHeaderBytes :=
      List.take_append_of_le_length hlong'
    rw [← @field_take chunk 0 4 kRecordHeaderBytes (by decide),
      ← @field_take chunk' 0 4 kRecordHeaderBytes (by decide), ← hfront, ← hfront', heq]
  rw [h.size, h'.size] at hfield
  have hlength : chunk.length = chunk'.length := by rw [h.length, h'.length, hfield]
  obtain ⟨rfl, -⟩ := List.append_inj heq hlength
  refine ⟨rfl, ?_⟩
  have hpayload : r.payload = r'.payload := h.payload.symm.trans h'.payload
  have hchecked := h.checked
  rw [hpayload] at hchecked
  exact Option.some.inj (hchecked.symm.trans h'.checked)

end Chunk

/-- The bytes of intact records one after the other. -/
inductive Chunks : Digest128 → UInt64 → Bytes → List JournalRecord → Prop
  | nil {previous : Digest128} {next : UInt64} : Chunks previous next [] []
  | cons {previous : Digest128} {next : UInt64} {chunk bytes : Bytes} {r : JournalRecord}
      {rs : List JournalRecord} (first : Chunk previous next chunk r)
      (later : Chunks r.chain (r.sequence + 1) bytes rs) :
    Chunks previous next (chunk ++ bytes) (r :: rs)

/-- The chain after the records. -/
def lastChain (previous : Digest128) (rs : List JournalRecord) : Digest128 :=
  rs.foldl (fun _ r => r.chain) previous

/-- The sequence number after the records. -/
def afterSequence (next : UInt64) (rs : List JournalRecord) : UInt64 :=
  rs.foldl (fun _ r => r.sequence + 1) next

/-- The payload bytes of the records. -/
def payloadBytes (rs : List JournalRecord) : Nat := (rs.map fun r => r.payload.length).sum

@[simp] theorem payloadBytes_nil : payloadBytes [] = 0 := rfl

@[simp] theorem payloadBytes_cons {r : JournalRecord} {rs : List JournalRecord} :
    payloadBytes (r :: rs) = r.payload.length + payloadBytes rs := by
  simp [payloadBytes]

@[simp] theorem payloadBytes_append {rs rs' : List JournalRecord} :
    payloadBytes (rs ++ rs') = payloadBytes rs + payloadBytes rs' := by
  simp [payloadBytes]

theorem nextSequence_eq (rs : List JournalRecord) : nextSequence rs = afterSequence 1 rs := by
  unfold nextSequence afterSequence
  induction rs using List.reverseRecOn with
  | nil => rfl
  | append_singleton rest r =>
    rw [List.getLast?_append, List.foldl_append]
    rfl

namespace Chunks

variable {previous : Digest128} {next : UInt64} {bytes bytes' : Bytes} {rs rs' : List JournalRecord}

theorem append (h : Chunks previous next bytes rs)
    (h' : Chunks (lastChain previous rs) (afterSequence next rs) bytes' rs') :
    Chunks previous next (bytes ++ bytes') (rs ++ rs') := by
  induction h with
  | nil => exact h'
  | cons first _ ih =>
    rw [List.append_assoc]
    exact .cons first (ih h')

theorem snoc {chunk : Bytes} {r : JournalRecord} (h : Chunks previous next bytes rs)
    (h' : Chunk (lastChain previous rs) (afterSequence next rs) chunk r) :
    Chunks previous next (bytes ++ chunk) (rs ++ [r]) := by
  have hone := Chunks.cons h' .nil
  rw [List.append_nil] at hone
  exact h.append hone

theorem length (h : Chunks previous next bytes rs) :
    bytes.length = rs.length * kRecordHeaderBytes + payloadBytes rs := by
  induction h with
  | nil => simp
  | cons first _ ih =>
    rw [List.length_append, first.length, ih, List.length_cons, payloadBytes_cons, Nat.add_mul]
    omega

/-- Records that begin a journal take a beginning of its bytes. -/
theorem split {front back : List JournalRecord} (h : Chunks previous next bytes (front ++ back)) :
    ∃ bytes₁ bytes₂, bytes = bytes₁ ++ bytes₂ ∧ Chunks previous next bytes₁ front ∧
      Chunks (lastChain previous front) (afterSequence next front) bytes₂ back := by
  induction front generalizing previous next bytes with
  | nil => exact ⟨[], bytes, rfl, .nil, h⟩
  | cons r rest ih =>
    cases h with
    | cons first later =>
      obtain ⟨bytes₁, bytes₂, rfl, hfront, hback⟩ := ih later
      exact ⟨_, bytes₂, (List.append_assoc ..).symm, .cons first hfront, hback⟩

/-- Of two readings of the same bytes one goes on where the other ends. -/
theorem prefix_of {tail : Bytes} (h : Chunks previous next bytes rs)
    (h' : Chunks previous next bytes' rs') (heq : bytes = bytes' ++ tail) : rs' <+: rs := by
  induction h' generalizing bytes rs with
  | nil => exact List.nil_prefix
  | @cons previous next chunk' bytes' r' rs' first' later' ih =>
    cases h with
    | nil =>
      have hlong := first'.long
      have hlength := congrArg List.length heq
      simp only [List.length_nil, List.length_append] at hlength
      have hheader : kRecordHeaderBytes = 52 := rfl
      omega
    | @cons _ _ chunk bytes r rs first later =>
      rw [List.append_assoc] at heq
      obtain ⟨rfl, rfl⟩ := first.unique first' heq
      obtain ⟨more, rfl⟩ := ih later (List.append_cancel_left heq)
      exact ⟨more, rfl⟩

end Chunks

end Backpressure
