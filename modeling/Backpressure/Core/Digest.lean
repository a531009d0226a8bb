import Backpressure.Core.Status
import Backpressure.Lib.LittleEndian

/-!
# Digests and integrity checks

`digest.hpp` and `digest.cpp`: the 128-bit digest built from mixed words, and CRC-32
(IEEE 802.3, reflected). All arithmetic is modulo `2 ^ 64`, respectively `2 ^ 32`.
-/

namespace Backpressure

abbrev Bytes := List UInt8

/-- 128-bit digest; zero means "unset". -/
@[ext] structure Digest128 where
  hi : UInt64 := 0
  lo : UInt64 := 0
  deriving DecidableEq, Repr

namespace Digest128

def isZero (d : Digest128) : Bool := d.hi == 0 && d.lo == 0

def fold64 (d : Digest128) : UInt64 :=
  d.hi ^^^ (d.lo + (0x9E3779B97F4A7C15 : UInt64) + (d.hi <<< 6) + (d.hi >>> 2))

end Digest128

def mix64 (z : UInt64) : UInt64 :=
  let z := (z ^^^ (z >>> 30)) * 0xBF58476D1CE4E5B9
  let z := (z ^^^ (z >>> 27)) * 0x94D049BB133111EB
  z ^^^ (z >>> 31)

structure DigestBuilder where
  h1 : UInt64 := 0x243F6A8885A308D3
  h2 : UInt64 := 0x13198A2E03707344
  len : UInt64 := 0

namespace DigestBuilder

def mixWord (b : DigestBuilder) (w : UInt64) : DigestBuilder :=
  let h1 := mix64 (b.h1 ^^^ (w + 0x9E3779B97F4A7C15))
  let h2 := mix64 (b.h2 + w + 0x165667B19E3779F9)
  { b with h1 := h1 ^^^ (h2 >>> 29), h2 := h2 ^^^ (h1 <<< 17) }

/-- The words of the bytes, eight at a time, and a separated tail. -/
def absorb (b : DigestBuilder) : Bytes → DigestBuilder
  | [] => b
  | b₀ :: b₁ :: b₂ :: b₃ :: b₄ :: b₅ :: b₆ :: b₇ :: rest =>
    absorb (b.mixWord (.ofNat (Lib.LittleEndian.decode [b₀, b₁, b₂, b₃, b₄, b₅, b₆, b₇]))) rest
  | tail =>
    (b.mixWord (.ofNat (Lib.LittleEndian.decode tail))).mixWord
      (0xFF00000000000000 ||| .ofNat tail.length)

def update (b : DigestBuilder) (bytes : Bytes) : DigestBuilder :=
  let b' := b.absorb bytes
  { b' with len := b'.len + .ofNat bytes.length }

def updateU8 (b : DigestBuilder) (v : Nat) : DigestBuilder := b.update (Lib.LittleEndian.encode 1 v)
def updateU16 (b : DigestBuilder) (v : Nat) : DigestBuilder := b.update (Lib.LittleEndian.encode 2 v)
def updateU32 (b : DigestBuilder) (v : Nat) : DigestBuilder := b.update (Lib.LittleEndian.encode 4 v)
def updateU64 (b : DigestBuilder) (v : Nat) : DigestBuilder := b.update (Lib.LittleEndian.encode 8 v)
def updateBool (b : DigestBuilder) (v : Bool) : DigestBuilder := b.updateU8 v.toNat

def updateDigest (b : DigestBuilder) (d : Digest128) : DigestBuilder :=
  (b.updateU64 d.hi.toNat).updateU64 d.lo.toNat

/-- Mixes a separator so that field boundaries are part of the hash. -/
def domain (b : DigestBuilder) (tag : UInt64) : DigestBuilder :=
  b.mixWord (0x00FF000000000000 ||| tag)

def finish (b : DigestBuilder) : Digest128 :=
  let copy := (b.updateU64 b.len.toNat).domain 0x5A
  let d : Digest128 :=
    { hi := mix64 (copy.h1 ^^^ (copy.h2 + 0x9E3779B97F4A7C15))
      lo := mix64 (copy.h2 ^^^ (copy.h1 + 0x165667B19E3779F9)) }
  if d.isZero then { d with lo := 1 } else d

/-- No finished digest is the unset one. -/
theorem finish_isZero (b : DigestBuilder) : b.finish.isZero = false := by
  simp only [finish]
  split
  · simp [Digest128.isZero]
  · simp_all

end DigestBuilder

/-- One entry of the CRC table: eight reflected shifts. -/
def crc32Entry (i : UInt32) : UInt32 :=
  (List.range 8).foldl (fun c _ => if c &&& 1 ≠ 0 then (0xEDB88320 : UInt32) ^^^ (c >>> 1) else c >>> 1) i

def crc32Update (seed : UInt32) (bytes : Bytes) : UInt32 :=
  ~~~ bytes.foldl (fun crc b => crc32Entry ((crc ^^^ b.toUInt32) &&& 0xFF) ^^^ (crc >>> 8)) (~~~ seed)

def crc32 (bytes : Bytes) : UInt32 := crc32Update 0 bytes

end Backpressure
