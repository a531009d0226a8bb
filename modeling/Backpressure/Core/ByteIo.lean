import Backpressure.Core.Digest

/-!
# Bounded binary encoding

`byteio.hpp` and `byteio.cpp`: every encoder enforces a hard capacity, every decoder refuses
truncated and trailing input. `Appends` says which bytes an encoder writes, `Reads` what a
decoder makes of them; both compose along the program.
-/

namespace Backpressure

open Lib (LittleEndian.encode LittleEndian.decode)

/-- Append-only bounded encoder. -/
structure ByteWriter where
  maxBytes : Nat
  buffer : Bytes := []

/-- A write to the encoder; it fails when the capacity is exceeded. -/
abbrev Encoder := StateT ByteWriter (Except Status) Unit

namespace ByteWriter

def remaining (w : ByteWriter) : Nat := w.maxBytes - w.buffer.length

def put (bytes : Bytes) : Encoder := fun w =>
  if w.remaining < bytes.length then
    .error (.error .oversizedInput "writer capacity" bytes.length)
  else .ok ((), { w with buffer := w.buffer ++ bytes })

def u8 (v : UInt8) : Encoder := put (LittleEndian.encode 1 v.toNat)
def u16 (v : UInt16) : Encoder := put (LittleEndian.encode 2 v.toNat)
def u32 (v : UInt32) : Encoder := put (LittleEndian.encode 4 v.toNat)
def u64 (v : UInt64) : Encoder := put (LittleEndian.encode 8 v.toNat)
def boolean (v : Bool) : Encoder := u8 (if v then 1 else 0)

def digest (v : Digest128) : Encoder := do
  u64 v.hi
  u64 v.lo

/-- The bytes that an encoder of the given capacity leaves. -/
def take (maxBytes : Nat) (e : Encoder) : Result Bytes := do
  let done ← e.run { maxBytes }
  return done.2.buffer

end ByteWriter

/-- Bounds-checked decoder over an immutable view: what is left of it, and what is read. -/
structure ByteReader where
  data : Bytes
  offset : Nat := 0

abbrev Decoder (α : Type) := StateT ByteReader (Except Status) α

namespace ByteReader

/-- The next bytes as a number. -/
def word (width : Nat) (what : String) : Decoder Nat := fun r =>
  if r.data.length < width then .error (.error .truncatedInput what r.offset)
  else .ok (LittleEndian.decode (r.data.take width),
    { data := r.data.drop width, offset := r.offset + width })

/-- `BPFAB_TRY` of a check between two reads. -/
def refuse (c : Prop) [Decidable c] (code : ErrorCode) (context : String) (detail : Nat) :
    Decoder Unit := fun r => if c then .error (.error code context detail) else .ok ((), r)

/-- `BPFAB_TRY_DECL` of a value that does not come from the reader. -/
def accept {α : Type} (x : Result α) : Decoder α := fun r => x.map fun a => (a, r)

def u8 : Decoder UInt8 := return .ofNat (← word 1 "u8")
def u16 : Decoder UInt16 := return .ofNat (← word 2 "u16")
def u32 : Decoder UInt32 := return .ofNat (← word 4 "u32")
def u64 : Decoder UInt64 := return .ofNat (← word 8 "u64")

def boolean : Decoder Bool := do
  let raw ← u8
  refuse (1 < raw.toNat) .malformedInput "boolean" raw.toNat
  return raw == 1

def digest : Decoder Digest128 := do
  let hi ← u64
  let lo ← u64
  return ⟨hi, lo⟩

/-- Fails when bytes remain unread. -/
def expectEnd : Decoder Unit := fun r =>
  if r.data ≠ [] then .error (.error .malformedInput "trailing bytes" r.data.length) else .ok ((), r)

/-- The value that a decoder reads from the bytes. -/
def decode {α : Type} (d : Decoder α) (bytes : Bytes) : Result α := do
  let done ← d.run { data := bytes }
  return done.1

end ByteReader

/-! ## What an encoder writes -/

/-- The encoder appends the bytes whenever the capacity allows it. -/
def Appends (e : Encoder) (bytes : Bytes) : Prop :=
  ∀ w : ByteWriter, w.buffer.length + bytes.length ≤ w.maxBytes →
    e.run w = .ok ((), { w with buffer := w.buffer ++ bytes })

namespace Appends

variable {e e' : Encoder} {a b : Bytes}

theorem put (bytes : Bytes) : Appends (ByteWriter.put bytes) bytes := fun w h => by
  have hfits : ¬w.remaining < bytes.length := by
    unfold ByteWriter.remaining
    omega
  exact if_neg hfits

theorem seq (h : Appends e a) (h' : Appends e' b) : Appends (e >>= fun _ => e') (a ++ b) := by
  intro w hw
  rw [List.length_append] at hw
  have hroom : (w.buffer ++ a).length + b.length ≤ w.maxBytes := by
    rw [List.length_append]
    omega
  have hnext := h' { w with buffer := w.buffer ++ a } hroom
  rw [StateT.run_bind, h w (by omega)]
  change e'.run { w with buffer := w.buffer ++ a } = _
  rw [hnext, List.append_assoc]

theorem u8 (v : UInt8) : Appends (ByteWriter.u8 v) (LittleEndian.encode 1 v.toNat) := put _
theorem u16 (v : UInt16) : Appends (ByteWriter.u16 v) (LittleEndian.encode 2 v.toNat) := put _
theorem u32 (v : UInt32) : Appends (ByteWriter.u32 v) (LittleEndian.encode 4 v.toNat) := put _
theorem u64 (v : UInt64) : Appends (ByteWriter.u64 v) (LittleEndian.encode 8 v.toNat) := put _

theorem boolean (v : Bool) : Appends (ByteWriter.boolean v) (LittleEndian.encode 1 v.toNat) := by
  cases v <;> exact u8 _

theorem digest (v : Digest128) : Appends (ByteWriter.digest v)
    (LittleEndian.encode 8 v.hi.toNat ++ LittleEndian.encode 8 v.lo.toNat) :=
  (u64 v.hi).seq (u64 v.lo)

theorem take {maxBytes : Nat} (h : Appends e a) (hmax : a.length ≤ maxBytes) :
    ByteWriter.take maxBytes e = .ok a := by
  have hrun := h { maxBytes } (by simpa using hmax)
  unfold ByteWriter.take
  rw [hrun]
  rfl

end Appends

/-! ## What a decoder reads -/

/-- The decoder reads the value from the bytes and leaves what follows them. -/
def Reads {α : Type} (d : Decoder α) (bytes : Bytes) (a : α) : Prop :=
  ∀ (rest : Bytes) (offset : Nat), d.run { data := bytes ++ rest, offset } =
    .ok (a, { data := rest, offset := offset + bytes.length })

namespace Reads

variable {α β : Type} {d : Decoder α} {f : α → Decoder β} {a b : Bytes} {x : α} {y : β}

theorem bind (h : Reads d a x) (h' : Reads (f x) b y) : Reads (d >>= f) (a ++ b) y := by
  intro rest offset
  rw [StateT.run_bind, List.append_assoc, h (b ++ rest) offset]
  change (f x).run { data := b ++ rest, offset := offset + a.length } = _
  rw [h' rest, List.length_append, Nat.add_assoc]

/-- A step that reads nothing. -/
theorem step (h : Reads d [] x) (h' : Reads (f x) b y) : Reads (d >>= f) b y := by
  have hseq := h.bind h'
  rwa [List.nil_append] at hseq

theorem pure (x : α) : Reads (Pure.pure x) [] x := fun _ _ => rfl

theorem map {g : α → β} (h : Reads d a x) : Reads (do let v ← d; return g v) a (g x) := by
  have hseq : Reads (do let v ← d; return g v) (a ++ []) (g x) := h.bind (pure (g x))
  rwa [List.append_nil] at hseq

theorem refuse {c : Prop} [Decidable c] {code : ErrorCode} {context : String} {detail : Nat}
    (h : ¬c) : Reads (ByteReader.refuse c code context detail) [] () := fun _ _ => if_neg h

theorem accept {r : Result α} (h : r = .ok x) : Reads (ByteReader.accept r) [] x := fun _ _ => by
  subst h
  rfl

theorem word (width n : Nat) (what : String) (h : n < 256 ^ width) :
    Reads (ByteReader.word width what) (LittleEndian.encode width n) n := by
  intro rest offset
  have hlen : ¬(LittleEndian.encode width n ++ rest).length < width := by simp
  refine (if_neg hlen).trans ?_
  rw [List.take_left' (Lib.LittleEndian.length_encode _ _),
    List.drop_left' (Lib.LittleEndian.length_encode _ _),
    Lib.LittleEndian.decode_encode_of_lt h, Lib.LittleEndian.length_encode]

theorem u8 (v : UInt8) : Reads ByteReader.u8 (LittleEndian.encode 1 v.toNat) v := by
  have hread : Reads ByteReader.u8 _ (UInt8.ofNat v.toNat) :=
    (word 1 v.toNat "u8" v.toNat_lt).map
  rwa [UInt8.ofNat_toNat] at hread

theorem u16 (v : UInt16) : Reads ByteReader.u16 (LittleEndian.encode 2 v.toNat) v := by
  have hread : Reads ByteReader.u16 _ (UInt16.ofNat v.toNat) :=
    (word 2 v.toNat "u16" v.toNat_lt).map
  rwa [UInt16.ofNat_toNat] at hread

theorem u32 (v : UInt32) : Reads ByteReader.u32 (LittleEndian.encode 4 v.toNat) v := by
  have hread : Reads ByteReader.u32 _ (UInt32.ofNat v.toNat) :=
    (word 4 v.toNat "u32" v.toNat_lt).map
  rwa [UInt32.ofNat_toNat] at hread

theorem u64 (v : UInt64) : Reads ByteReader.u64 (LittleEndian.encode 8 v.toNat) v := by
  have hread : Reads ByteReader.u64 _ (UInt64.ofNat v.toNat) :=
    (word 8 v.toNat "u64" v.toNat_lt).map
  rwa [UInt64.ofNat_toNat] at hread

theorem boolean (v : Bool) : Reads ByteReader.boolean (LittleEndian.encode 1 v.toNat) v := by
  cases v
  · exact (u8 0).bind ((refuse (by decide)).step (pure false))
  · exact (u8 1).bind ((refuse (by decide)).step (pure true))

theorem digest (v : Digest128) : Reads ByteReader.digest
    (LittleEndian.encode 8 v.hi.toNat ++ LittleEndian.encode 8 v.lo.toNat) v := by
  have hlast : Reads (do let lo ← ByteReader.u64; return Digest128.mk v.hi lo) _ v :=
    (u64 v.lo).map
  exact (u64 v.hi).bind hlast

theorem decode (h : Reads d a x) : ByteReader.decode d a = .ok x := by
  have hrun := h [] 0
  rw [List.append_nil] at hrun
  unfold ByteReader.decode
  rw [hrun]
  rfl

end Reads

end Backpressure
