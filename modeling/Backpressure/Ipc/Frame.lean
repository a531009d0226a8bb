import Backpressure.Core.ByteIo
import Backpressure.Core.Digest

/-!
# Frames

`frame.hpp` and the codec of `frame.cpp`: a header of twenty bytes with the type, the flags, the
length and the checksum of the payload, and the payload behind it. A position in a header is a
number of bytes to drop.
-/

namespace Backpressure

open Lib (LittleEndian.encode LittleEndian.decode LittleEndian.length_encode
  LittleEndian.decode_encode_of_lt LittleEndian.encode_decode LittleEndian.decode_take_lt)

inductive MessageType
  | hello | helloAck | publish | publishAck | result | heartbeat | retire | shutdown | error | count
  deriving DecidableEq, Repr

namespace MessageType

/-- The `u16` of the header; it starts at one. -/
def toNat (t : MessageType) : Nat := t.ctorIdx + 1

/-- The type of a stored `u16`; zero and everything from `Count` on are refused. -/
def ofRaw : Nat → Option MessageType
  | 1 => some .hello
  | 2 => some .helloAck
  | 3 => some .publish
  | 4 => some .publishAck
  | 5 => some .result
  | 6 => some .heartbeat
  | 7 => some .retire
  | 8 => some .shutdown
  | 9 => some .error
  | _ => none

theorem ofRaw_toNat {t : MessageType} (h : t ≠ .count) : ofRaw t.toNat = some t := by
  cases t with
  | count => exact absurd rfl h
  | _ => rfl

/-- Only declared types are read, each from its own number. -/
theorem ofRaw_eq_some {raw : Nat} {t : MessageType} (h : ofRaw raw = some t) :
    t ≠ .count ∧ t.toNat = raw := by
  unfold ofRaw at h
  split at h
  all_goals cases h
  all_goals exact ⟨by decide, rfl⟩

theorem toNat_lt (t : MessageType) : t.toNat < 256 ^ 2 := by cases t <;> decide

end MessageType

def kFrameMagic : Nat := 0x46504242
def kFrameVersion : Nat := 1
def kFrameHeaderBytes : Nat := 20
def kMaxFramePayload : Nat := 1048576

structure Frame where
  type : MessageType := .hello
  flags : UInt32 := 0
  payload : Bytes := []
  deriving DecidableEq, Repr

def getU32 (p : Bytes) : Nat := LittleEndian.decode (p.take 4)

def getU16 (p : Bytes) : Nat := LittleEndian.decode (p.take 2)

/-- The header that `encode_frame` puts in front of the payload. -/
def frameHeader (frame : Frame) : Bytes :=
  LittleEndian.encode 4 kFrameMagic ++ LittleEndian.encode 2 kFrameVersion ++
    LittleEndian.encode 2 frame.type.toNat ++ LittleEndian.encode 4 frame.flags.toNat ++
    LittleEndian.encode 4 frame.payload.length ++ LittleEndian.encode 4 (crc32 frame.payload).toNat

def encodeFrame (frame : Frame) (maxPayload : Nat) : Result Bytes :=
  if frame.type = .count then fail .invalidArgument "frame type" 0
  else if maxPayload < frame.payload.length then
    fail .oversizedInput "frame payload" frame.payload.length
  else .ok (frameHeader frame ++ frame.payload)

/-- The type, the flags and the declared length. -/
def decodeFrameHeader (header : Bytes) (maxPayload : Nat) : Result (MessageType × UInt32 × Nat) :=
  if header.length ≠ kFrameHeaderBytes then fail .truncatedInput "frame header" header.length
  else if getU32 header ≠ kFrameMagic then fail .malformedInput "frame magic" 0
  else if getU16 (header.drop 4) ≠ kFrameVersion then
    fail .versionMismatch "frame version" (getU16 (header.drop 4))
  else match MessageType.ofRaw (getU16 (header.drop 6)) with
  | none => fail .malformedInput "frame message type" (getU16 (header.drop 6))
  | some type =>
    let length := getU32 (header.drop 12)
    if maxPayload < length then fail .oversizedInput "frame payload" length
    else .ok (type, .ofNat (getU32 (header.drop 8)), length)

/-- The last step of both decoders: the checksum of a payload that was read. -/
def checkFrame (header : Bytes) (type : MessageType) (flags : UInt32) (payload : Bytes) :
    Result Frame :=
  if (crc32 payload).toNat ≠ getU32 (header.drop 16) then
    fail .integrityMismatch "frame crc" (getU32 (header.drop 16))
  else .ok { type, flags, payload }

def decodeFrame (bytes : Bytes) (maxPayload : Nat) : Result Frame :=
  if bytes.length < kFrameHeaderBytes then fail .truncatedInput "frame" bytes.length
  else match decodeFrameHeader (bytes.take kFrameHeaderBytes) maxPayload with
  | .error st => .error st
  | .ok (type, flags, length) =>
    if bytes.length ≠ kFrameHeaderBytes + length then
      fail .malformedInput "frame length mismatch" bytes.length
    else checkFrame bytes type flags ((bytes.drop kFrameHeaderBytes).take length)

/-! ## The fields of a header -/

section Fields

variable {frame : Frame} {header payload bytes : Bytes} {type : MessageType} {flags : UInt32}
  {length maxPayload : Nat}

@[simp] theorem length_frameHeader : (frameHeader frame).length = kFrameHeaderBytes := by
  simp [frameHeader, kFrameHeaderBytes]

theorem length_encodeFrame (h : encodeFrame frame maxPayload = .ok bytes) :
    bytes = frameHeader frame ++ frame.payload ∧ frame.type ≠ .count ∧
      frame.payload.length ≤ maxPayload := by
  unfold encodeFrame at h
  rw [fail, fail, guard_eq_ok, guard_eq_ok] at h
  obtain ⟨htype, hlength, hbytes⟩ := h
  exact ⟨(Except.ok.inj hbytes).symm, htype, not_lt.mp hlength⟩

theorem getU32_encode {n : Nat} (rest : Bytes) (hn : n < 256 ^ 4) :
    getU32 (LittleEndian.encode 4 n ++ rest) = n := by
  rw [getU32, List.take_left' (LittleEndian.length_encode 4 n), LittleEndian.decode_encode_of_lt hn]

theorem getU16_encode {n : Nat} (rest : Bytes) (hn : n < 256 ^ 2) :
    getU16 (LittleEndian.encode 2 n ++ rest) = n := by
  rw [getU16, List.take_left' (LittleEndian.length_encode 2 n), LittleEndian.decode_encode_of_lt hn]

theorem encode_getU32 {p : Bytes} (h : 4 ≤ p.length) : LittleEndian.encode 4 (getU32 p) = p.take 4 := by
  have hlength : (p.take 4).length = 4 := List.length_take_of_le h
  have hencode := LittleEndian.encode_decode (p.take 4)
  rwa [hlength] at hencode

theorem encode_getU16 {p : Bytes} (h : 2 ≤ p.length) : LittleEndian.encode 2 (getU16 p) = p.take 2 := by
  have hlength : (p.take 2).length = 2 := List.length_take_of_le h
  have hencode := LittleEndian.encode_decode (p.take 2)
  rwa [hlength] at hencode

theorem getU32_lt (p : Bytes) : getU32 p < 256 ^ 4 := LittleEndian.decode_take_lt 4 p

/-- What follows the bytes of a field. -/
theorem drop_field {w n : Nat} (rest : Bytes) (k : Nat) :
    (LittleEndian.encode w n ++ rest).drop (w + k) = rest.drop k := by
  rw [← List.drop_drop, List.drop_left' (LittleEndian.length_encode w n)]

variable (frame) in
theorem magic_frameHeader (rest : Bytes) : getU32 (frameHeader frame ++ rest) = kFrameMagic := by
  simp only [frameHeader, List.append_assoc]
  exact getU32_encode _ (by decide)

variable (frame) in
theorem version_frameHeader (rest : Bytes) :
    getU16 ((frameHeader frame ++ rest).drop 4) = kFrameVersion := by
  simp only [frameHeader, List.append_assoc]
  rw [drop_field _ 0]
  exact getU16_encode _ (by decide)

variable (frame) in
theorem type_frameHeader (rest : Bytes) :
    getU16 ((frameHeader frame ++ rest).drop 6) = frame.type.toNat := by
  simp only [frameHeader, List.append_assoc]
  rw [drop_field _ 2, drop_field _ 0]
  exact getU16_encode _ frame.type.toNat_lt

variable (frame) in
theorem flags_frameHeader (rest : Bytes) :
    getU32 ((frameHeader frame ++ rest).drop 8) = frame.flags.toNat := by
  simp only [frameHeader, List.append_assoc]
  rw [drop_field _ 4, drop_field _ 2, drop_field _ 0]
  exact getU32_encode _ frame.flags.toNat_lt

theorem length_field_frameHeader (rest : Bytes) (hmax : frame.payload.length < 256 ^ 4) :
    getU32 ((frameHeader frame ++ rest).drop 12) = frame.payload.length := by
  simp only [frameHeader, List.append_assoc]
  rw [drop_field _ 8, drop_field _ 6, drop_field _ 4, drop_field _ 0]
  exact getU32_encode _ hmax

variable (frame) in
theorem crc_frameHeader (rest : Bytes) :
    getU32 ((frameHeader frame ++ rest).drop 16) = (crc32 frame.payload).toNat := by
  simp only [frameHeader, List.append_assoc]
  rw [drop_field _ 12, drop_field _ 10, drop_field _ 8, drop_field _ 4, drop_field _ 0]
  exact getU32_encode _ (crc32 frame.payload).toNat_lt

/-- Twenty bytes are the fields that are read from them. -/
theorem fields_of_header (hlength : header.length = kFrameHeaderBytes) :
    LittleEndian.encode 4 (getU32 header) ++ LittleEndian.encode 2 (getU16 (header.drop 4)) ++
      LittleEndian.encode 2 (getU16 (header.drop 6)) ++ LittleEndian.encode 4 (getU32 (header.drop 8)) ++
      LittleEndian.encode 4 (getU32 (header.drop 12)) ++
      LittleEndian.encode 4 (getU32 (header.drop 16)) = header := by
  have hbytes : kFrameHeaderBytes = 20 := rfl
  have hstep (k w : Nat) : (header.drop k).take w ++ header.drop (k + w) = header.drop k := by
    rw [← List.drop_drop, List.take_append_drop]
  have hlast : (header.drop 16).take 4 = header.drop 16 :=
    List.take_of_length_le (by rw [List.length_drop]; omega)
  rw [encode_getU32 (by omega), encode_getU16 (by rw [List.length_drop]; omega),
    encode_getU16 (by rw [List.length_drop]; omega), encode_getU32 (by rw [List.length_drop]; omega),
    encode_getU32 (by rw [List.length_drop]; omega), encode_getU32 (by rw [List.length_drop]; omega),
    hlast]
  simp only [List.append_assoc]
  rw [hstep 12 4, hstep 8 4, hstep 6 2, hstep 4 2, List.take_append_drop]

/-! ## Round trips -/

/-- The header of a frame that may be sent is read back. -/
theorem decodeFrameHeader_frameHeader (htype : frame.type ≠ .count)
    (hlength : frame.payload.length ≤ maxPayload) (hmax : frame.payload.length < 256 ^ 4) :
    decodeFrameHeader (frameHeader frame) maxPayload =
      .ok (frame.type, frame.flags, frame.payload.length) := by
  have hmagic := magic_frameHeader frame []
  have hversion := version_frameHeader frame []
  have hraw := type_frameHeader frame []
  have hflags := flags_frameHeader frame []
  have hdeclared := length_field_frameHeader [] hmax
  rw [List.append_nil] at hmagic hversion hraw hflags hdeclared
  unfold decodeFrameHeader
  rw [if_neg (not_not.mpr length_frameHeader), if_neg (not_not.mpr hmagic),
    if_neg (not_not.mpr hversion), hraw, MessageType.ofRaw_toNat htype]
  dsimp only
  rw [hdeclared, if_neg (not_lt.mpr hlength), hflags, UInt32.ofNat_toNat]

/-- What an accepted header says. -/
theorem decodeFrameHeader_ok (h : decodeFrameHeader header maxPayload = .ok (type, flags, length)) :
    header.length = kFrameHeaderBytes ∧ getU32 header = kFrameMagic ∧
      getU16 (header.drop 4) = kFrameVersion ∧ getU16 (header.drop 6) = type.toNat ∧ type ≠ .count ∧
      getU32 (header.drop 8) = flags.toNat ∧ getU32 (header.drop 12) = length ∧
      length ≤ maxPayload := by
  unfold decodeFrameHeader at h
  rw [fail, fail, fail, guard_eq_ok, guard_eq_ok, guard_eq_ok] at h
  obtain ⟨hbytes, hmagic, hversion, h⟩ := h
  split at h
  case h_1 => cases h
  case h_2 type' hraw =>
    dsimp only at h
    rw [fail, guard_eq_ok] at h
    obtain ⟨hlength, h⟩ := h
    cases h
    obtain ⟨hcount, hnumber⟩ := MessageType.ofRaw_eq_some hraw
    refine ⟨not_not.mp hbytes, not_not.mp hmagic, not_not.mp hversion, hnumber.symm, hcount, ?_, rfl,
      not_lt.mp hlength⟩
    exact (UInt32.toNat_ofNat_of_lt' (getU32_lt _)).symm

/-- An accepted header is the header of the frame that it announces. -/
theorem header_eq_frameHeader
    (h : decodeFrameHeader header maxPayload = .ok (type, flags, payload.length))
    (hcrc : getU32 (header.drop 16) = (crc32 payload).toNat) :
    header = frameHeader { type, flags, payload } := by
  obtain ⟨hbytes, hmagic, hversion, hraw, -, hflags, hdeclared, -⟩ := decodeFrameHeader_ok h
  have hfields := fields_of_header hbytes
  rw [hmagic, hversion, hraw, hflags, hdeclared, hcrc] at hfields
  exact hfields.symm

theorem checkFrame_ok (h : checkFrame header type flags payload = .ok frame) :
    getU32 (header.drop 16) = (crc32 payload).toNat ∧ frame = { type, flags, payload } := by
  unfold checkFrame at h
  rw [fail, guard_eq_ok] at h
  exact ⟨(not_not.mp h.1).symm, (Except.ok.inj h.2).symm⟩

variable (frame) in
theorem checkFrame_frameHeader (rest : Bytes) :
    checkFrame (frameHeader frame ++ rest) frame.type frame.flags frame.payload = .ok frame := by
  unfold checkFrame
  rw [if_neg (not_not.mpr (crc_frameHeader frame rest).symm)]

/-- The bytes of a frame that may be sent are read back. -/
theorem decodeFrame_frameHeader (htype : frame.type ≠ .count)
    (hlength : frame.payload.length ≤ maxPayload) (hmax : frame.payload.length < 256 ^ 4) :
    decodeFrame (frameHeader frame ++ frame.payload) maxPayload = .ok frame := by
  have hheader : (frameHeader frame ++ frame.payload).take kFrameHeaderBytes = frameHeader frame :=
    List.take_left' length_frameHeader
  have hrest : (frameHeader frame ++ frame.payload).drop kFrameHeaderBytes = frame.payload :=
    List.drop_left' length_frameHeader
  have hbytes : (frameHeader frame ++ frame.payload).length =
      kFrameHeaderBytes + frame.payload.length := by
    rw [List.length_append, length_frameHeader]
  unfold decodeFrame
  rw [if_neg (by omega), hheader, decodeFrameHeader_frameHeader htype hlength hmax]
  dsimp only
  rw [if_neg (not_not.mpr hbytes), hrest, List.take_length]
  exact checkFrame_frameHeader frame frame.payload

/-- The bytes that are decoded are those of the frame. -/
theorem encodeFrame_of_decodeFrame (h : decodeFrame bytes maxPayload = .ok frame) :
    encodeFrame frame maxPayload = .ok bytes := by
  unfold decodeFrame at h
  rw [fail, guard_eq_ok] at h
  obtain ⟨-, h⟩ := h
  split at h
  case h_1 => cases h
  case h_2 type flags length hheader =>
    rw [fail, guard_eq_ok] at h
    obtain ⟨hbytes, h⟩ := h
    obtain ⟨hcrc, rfl⟩ := checkFrame_ok h
    obtain ⟨-, -, -, -, htype, -, -, hmax⟩ := decodeFrameHeader_ok hheader
    -- the declared length is all that follows the header
    have hall : (bytes.drop kFrameHeaderBytes).take length = bytes.drop kFrameHeaderBytes :=
      List.take_of_length_le (by rw [List.length_drop]; omega)
    have hlength : (bytes.drop kFrameHeaderBytes).length = length := by
      rw [List.length_drop]
      omega
    rw [hall] at hcrc ⊢
    have hsame : ((bytes.take kFrameHeaderBytes).drop 16).take 4 = (bytes.drop 16).take 4 := by
      rw [List.drop_take, List.take_take]
      rfl
    have hcrc' : getU32 ((bytes.take kFrameHeaderBytes).drop 16) =
        (crc32 (bytes.drop kFrameHeaderBytes)).toNat := by
      rw [← hcrc, getU32, getU32, hsame]
    have heq := header_eq_frameHeader (hlength.symm ▸ hheader) hcrc'
    rw [encodeFrame, if_neg htype, if_neg (not_lt.mpr (hlength.trans_le hmax)), ← heq,
      List.take_append_drop]

end Fields

/-- Decoding undoes encoding on every frame of a declared type whose length fits, and whatever is
decoded is the encoding of its frame. -/
theorem frame_codec_bijective (maxPayload : Nat) :
    (maxPayload ≤ 2 ^ 32 - 1 → ∀ frame : Frame, frame.type ≠ .count →
      frame.payload.length ≤ maxPayload →
      ∃ bytes, encodeFrame frame maxPayload = .ok bytes ∧
        decodeFrame bytes maxPayload = .ok frame) ∧
    ∀ bytes frame, decodeFrame bytes maxPayload = .ok frame →
      encodeFrame frame maxPayload = .ok bytes := by
  constructor
  · intro hmax frame htype hlength
    refine ⟨frameHeader frame ++ frame.payload, ?_, ?_⟩
    · rw [encodeFrame, if_neg htype, if_neg (not_lt.mpr hlength)]
    · exact decodeFrame_frameHeader htype hlength (by omega)
  · intro bytes frame h
    exact encodeFrame_of_decodeFrame h

/-- A publish with a payload under the default bound. -/
theorem publish_codec :
    let frame : Frame := { type := .publish, flags := 3, payload := [1, 2, 254, 255] }
    ∃ bytes, encodeFrame frame kMaxFramePayload = .ok bytes ∧ bytes.length = 24 ∧
      decodeFrame bytes kMaxFramePayload = .ok frame := by
  intro frame
  obtain ⟨bytes, hencode, hdecode⟩ := (frame_codec_bijective kMaxFramePayload).1 (by decide) frame
    (by decide) (by decide)
  refine ⟨bytes, hencode, ?_, hdecode⟩
  have hlength : (encodeFrame frame kMaxFramePayload).toOption.map List.length = some 24 := by
    decide +kernel
  rw [hencode] at hlength
  exact Option.some.inj hlength

end Backpressure
