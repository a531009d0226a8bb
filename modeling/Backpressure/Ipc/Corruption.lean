import Backpressure.Core.Checksum
import Backpressure.Ipc.Frame

/-!
# One corrupted byte

Magic, version, declared length and checksum of a frame are all checked against something else. The
flags are checked against nothing, and the type only against the range of the declared types: the
checksum is that of the payload alone.
-/

namespace Backpressure

open Lib (LittleEndian.encode LittleEndian.decode LittleEndian.length_encode
  LittleEndian.encode_decode LittleEndian.decode_lt)

variable {frame frame' : Frame} {bytes : Bytes} {i maxPayload : Nat} {b : UInt8}

/-- The fields in front of the type. -/
def frontFields : Bytes := LittleEndian.encode 4 kFrameMagic ++ LittleEndian.encode 2 kFrameVersion

/-- The fields behind the flags. -/
def backFields (payload : Bytes) : Bytes :=
  LittleEndian.encode 4 payload.length ++ LittleEndian.encode 4 (crc32 payload).toNat

@[simp] theorem length_frontFields : frontFields.length = 6 := by
  simp [frontFields]

@[simp] theorem length_backFields (payload : Bytes) : (backFields payload).length = 8 := by
  simp [backFields]

theorem frameHeader_eq (frame : Frame) : frameHeader frame = frontFields ++
    (LittleEndian.encode 2 frame.type.toNat ++
      (LittleEndian.encode 4 frame.flags.toNat ++ backFields frame.payload)) := by
  simp only [frameHeader, frontFields, backFields, List.append_assoc]

/-- The two bytes of a type. -/
theorem encode_type (t : MessageType) :
    LittleEndian.encode 2 t.toNat = [UInt8.ofNat t.toNat, 0] := by
  cases t <;> rfl

/-- A byte that changes nothing is the byte that was there. -/
theorem eq_of_set_eq {l : Bytes} (hi : i < l.length) (h : l.set i b = l) : b = l[i] := by
  have hget : (l.set i b)[i]? = l[i]? := by rw [h]
  rw [List.getElem?_set_self hi, List.getElem?_eq_getElem hi] at hget
  exact Option.some.inj hget

/-- The checks of a frame say nothing about this byte at this place. -/
def Unprotected (i : Nat) (b : UInt8) : Prop :=
  8 ≤ i ∧ i < 12 ∨ i = 6 ∧ (MessageType.ofRaw b.toNat).isSome = true

/-- A byte of the payload is covered by the checksum. -/
theorem payload_protected (hi : i < frame.payload.length) (hne : b ≠ frame.payload[i])
    (h : frameHeader frame = frameHeader frame') : frame'.payload ≠ frame.payload.set i b := by
  intro hpayload
  have hcrc : (crc32 frame.payload).toNat = (crc32 frame'.payload).toNat := by
    rw [← crc_frameHeader frame [], ← crc_frameHeader frame' [], h]
  rw [hpayload] at hcrc
  exact crc32_set_ne hi hne (UInt32.toNat_inj.mp hcrc).symm

/-- Of the bytes of a header that is still one, only the type and the flags can have changed. -/
theorem unprotected_of_header (hi : i < (frameHeader frame).length)
    (hne : b ≠ (frameHeader frame)[i]) (htype : frame'.type ≠ .count)
    (hpayload : frame'.payload = frame.payload)
    (h : (frameHeader frame).set i b = frameHeader frame') : Unprotected i b := by
  have hplace (l : Bytes) (hl : frameHeader frame = l) (hlt : i < l.length) : b ≠ l[i] := by
    subst hl
    exact hne
  rw [length_frameHeader, kFrameHeaderBytes] at hi
  rw [frameHeader_eq frame'] at h
  rw [frameHeader_eq frame, hpayload] at h
  have hbytes := hplace _ (frameHeader_eq frame)
  by_cases hfront : i < 6
  · -- magic and version are constants
    rw [List.set_append_left _ _ (by simpa using hfront)] at h
    obtain ⟨hsame, -⟩ := List.append_inj h (by simp)
    have heq := eq_of_set_eq (by simpa using hfront) hsame
    refine absurd ?_ (hbytes (by simp; omega))
    rw [List.getElem_append_left (by simpa using hfront)]
    exact heq
  · rw [List.set_append_right _ _ (by simpa using hfront), length_frontFields] at h
    obtain ⟨-, h⟩ := List.append_inj h rfl
    by_cases htypes : i < 8
    · rw [List.set_append_left _ _ (by simp; omega)] at h
      obtain ⟨htypeBytes, -⟩ := List.append_inj h (by simp)
      rw [encode_type, encode_type] at htypeBytes
      rcases (show i = 6 ∨ i = 7 by omega) with rfl | rfl
      · obtain ⟨hlow, -⟩ := List.cons.inj htypeBytes
        refine .inr ⟨rfl, ?_⟩
        rw [hlow, UInt8.toNat_ofNat', Nat.mod_eq_of_lt (by cases frame'.type <;> decide),
          MessageType.ofRaw_toNat htype]
        rfl
      · -- the numbers of all types fit in the low byte
        have hhigh : b = 0 := (List.cons.inj (List.cons.inj htypeBytes).2).1
        refine absurd ?_ (hbytes (by simp))
        rw [List.getElem_append_right (by simp), List.getElem_append_left (by simp)]
        simp only [length_frontFields, encode_type]
        exact hhigh
    · rw [List.set_append_right _ _ (by simp; omega), LittleEndian.length_encode] at h
      obtain ⟨-, h⟩ := List.append_inj h (by simp)
      by_cases hflags : i < 12
      · exact .inl ⟨by omega, hflags⟩
      · -- length and checksum are those of the payload
        rw [List.set_append_right _ _ (by simp; omega), LittleEndian.length_encode] at h
        obtain ⟨-, hsame⟩ := List.append_inj h (by simp)
        have heq := eq_of_set_eq (by simp; omega) hsame
        refine absurd ?_ (hbytes (by simp; omega))
        rw [List.getElem_append_right (by simp; omega), List.getElem_append_right (by simp; omega),
          List.getElem_append_right (by simp; omega)]
        simp only [length_frontFields, LittleEndian.length_encode]
        exact heq

/-- A header with a byte that nothing protects is the header of another frame. -/
theorem header_of_unprotected (h : Unprotected i b) (htype : frame.type ≠ .count) :
    ∃ frame' : Frame, frame'.type ≠ .count ∧ frame'.payload = frame.payload ∧
      (frameHeader frame).set i b = frameHeader frame' := by
  rcases h with ⟨hlow, hhigh⟩ | ⟨rfl, hsome⟩
  · let field := (LittleEndian.encode 4 frame.flags.toNat).set (i - 8) b
    have hlength : field.length = 4 := by simp [field]
    have hlt : LittleEndian.decode field < 2 ^ 32 := by
      have h := LittleEndian.decode_lt field
      rw [hlength] at h
      exact h
    refine ⟨{ frame with flags := .ofNat (LittleEndian.decode field) }, htype, rfl, ?_⟩
    have hflags : LittleEndian.encode 4 (UInt32.ofNat (LittleEndian.decode field)).toNat = field := by
      rw [UInt32.toNat_ofNat_of_lt' hlt]
      have h := LittleEndian.encode_decode field
      rwa [hlength] at h
    rw [frameHeader_eq, frameHeader_eq, hflags, List.set_append_right _ _ (by simp; omega),
      List.set_append_right _ _ (by simp; omega), List.set_append_left _ _ (by simp; omega)]
    simp only [length_frontFields, LittleEndian.length_encode]
    congr 4
  · obtain ⟨t, ht⟩ := Option.isSome_iff_exists.mp hsome
    obtain ⟨hcount, hnumber⟩ := MessageType.ofRaw_eq_some ht
    refine ⟨{ frame with type := t }, hcount, rfl, ?_⟩
    rw [frameHeader_eq, frameHeader_eq, List.set_append_right _ _ (by simp),
      List.set_append_left _ _ (by simp), encode_type, encode_type]
    simp only [length_frontFields, hnumber, UInt8.ofNat_toNat]
    rfl

/-- A frame with one byte replaced is refused exactly when the byte is protected: unless it is one
of the flags, or the number of another type in the low byte of the type. Of payloads whose length
does not fit its field nothing is decoded. -/
theorem corruption_refused_iff (frame : Frame) (maxPayload : Nat) (bytes : Bytes)
    (h : encodeFrame frame maxPayload = .ok bytes) (i : Nat) (b : UInt8) (hi : i < bytes.length)
    (hne : b ≠ bytes[i]) : (∃ st, decodeFrame (bytes.set i b) maxPayload = .error st) ↔
      ¬(Unprotected i b ∧ frame.payload.length < 2 ^ 32) := by
  obtain ⟨rfl, htype, hmax⟩ := length_encodeFrame h
  have haccepted : (∃ frame', decodeFrame ((frameHeader frame ++ frame.payload).set i b)
      maxPayload = .ok frame') ↔ Unprotected i b ∧ frame.payload.length < 2 ^ 32 := by
    constructor
    · rintro ⟨frame', hdecode⟩
      obtain ⟨heq, htype', -⟩ := length_encodeFrame (encodeFrame_of_decodeFrame hdecode)
      have hlength := congrArg List.length heq
      rw [List.length_set, List.length_append, List.length_append, length_frameHeader,
        length_frameHeader] at hlength
      have hnarrow : frame'.payload.length < 2 ^ 32 := by
        unfold decodeFrame at hdecode
        rw [fail, guard_eq_ok] at hdecode
        obtain ⟨-, hdecode⟩ := hdecode
        split at hdecode
        · cases hdecode
        case h_2 type flags length hheader =>
          rw [fail, guard_eq_ok] at hdecode
          obtain ⟨-, hdecode⟩ := hdecode
          obtain ⟨-, rfl⟩ := checkFrame_ok hdecode
          obtain ⟨-, -, -, -, -, -, hdeclared, -⟩ := decodeFrameHeader_ok hheader
          have hdeclaredLt := getU32_lt ((List.take kFrameHeaderBytes
            ((frameHeader frame ++ frame.payload).set i b)).drop 12)
          rw [hdeclared] at hdeclaredLt
          exact lt_of_le_of_lt (List.length_take_le _ _) hdeclaredLt
      refine ⟨?_, by omega⟩
      by_cases hheader : i < kFrameHeaderBytes
      · rw [List.set_append_left _ _ (by rwa [length_frameHeader])] at heq
        obtain ⟨hhead, hpayload⟩ := List.append_inj heq (by simp)
        rw [List.getElem_append_left (by rwa [length_frameHeader])] at hne
        exact unprotected_of_header (by rwa [length_frameHeader]) hne htype' hpayload.symm hhead
      · rw [List.set_append_right _ _ (by rw [length_frameHeader]; omega)] at heq
        obtain ⟨hhead, hpayload⟩ := List.append_inj heq (by simp)
        have hplace : i - (frameHeader frame).length < frame.payload.length := by
          rw [List.length_append] at hi
          rw [length_frameHeader] at hi ⊢
          omega
        rw [List.getElem_append_right (by rw [length_frameHeader]; omega)] at hne
        exact absurd hpayload.symm (payload_protected hplace hne hhead)
    · rintro ⟨hunprotected, hnarrow⟩
      obtain ⟨frame', htype', hpayload, hhead⟩ := header_of_unprotected hunprotected htype
      have hheader : i < kFrameHeaderBytes := by
        unfold kFrameHeaderBytes
        rcases hunprotected with ⟨-, hlt⟩ | ⟨rfl, -⟩ <;> omega
      refine ⟨frame', ?_⟩
      rw [List.set_append_left _ _ (by rwa [length_frameHeader]), hhead, ← hpayload]
      exact decodeFrame_frameHeader htype' (by rwa [hpayload]) (by rw [hpayload]; exact hnarrow)
  rw [← haccepted]
  cases hdecode : decodeFrame ((frameHeader frame ++ frame.payload).set i b) maxPayload with
  | error st => simp
  | ok frame' => simp

/-- A byte of the checksum of an empty heartbeat. -/
theorem heartbeat_checksum_protected : ∃ bytes st,
    encodeFrame { type := .heartbeat } kMaxFramePayload = .ok bytes ∧
      decodeFrame (bytes.set 16 1) kMaxFramePayload = .error st := by
  have hencode : encodeFrame { type := .heartbeat } kMaxFramePayload =
      .ok (frameHeader { type := .heartbeat } ++ []) := rfl
  obtain ⟨st, hrefused⟩ := (corruption_refused_iff { type := .heartbeat } kMaxFramePayload _ hencode 16 1
    (by decide) (by decide)).mpr fun h => by
      rcases h.1 with ⟨-, hlt⟩ | ⟨heq, -⟩
      · exact absurd hlt (by decide)
      · exact absurd heq (by decide)
  exact ⟨_, st, hencode, hrefused⟩

/-- A corrupted heartbeat is a shutdown. -/
theorem heartbeat_becomes_shutdown :
    ¬∀ (frame : Frame) (maxPayload : Nat) (bytes : Bytes), encodeFrame frame maxPayload = .ok bytes →
      ∀ (i : Nat) (b : UInt8) (hi : i < bytes.length), b ≠ bytes[i] →
        ∃ st, decodeFrame (bytes.set i b) maxPayload = .error st := by
  intro h
  have hdecode : decodeFrame ((frameHeader { type := .heartbeat } ++ []).set 6 8) kMaxFramePayload =
      .ok { type := .shutdown } := by
    decide +kernel
  obtain ⟨st, hrefused⟩ := h { type := .heartbeat } kMaxFramePayload _ rfl 6 8 (by decide) (by decide)
  rw [hdecode] at hrefused
  cases hrefused

end Backpressure
