import Mathlib.Data.Nat.ModEq
import Mathlib.Tactic.Ring
import Mathlib.Tactic.NormNum

/-!
# Fixed-width little-endian bytes

A natural number as its `w` lowest bytes, least significant first, and back.
Everything above `256 ^ w` is dropped by the encoder, which is what a narrowing
cast before a fixed-width store does.
-/

namespace Lib.LittleEndian

/-- The `w` low bytes of `n`, least significant first. -/
def encode : Nat → Nat → List UInt8
  | 0, _ => []
  | w + 1, n => UInt8.ofNat n :: encode w (n / 256)

/-- The number whose little-endian bytes are the list. -/
def decode : List UInt8 → Nat
  | [] => 0
  | b :: bs => b.toNat + 256 * decode bs

@[simp] theorem length_encode (w n : Nat) : (encode w n).length = w := by
  induction w generalizing n with
  | zero => rfl
  | succ w ih => simp only [encode, List.length_cons, ih]

theorem decode_encode (w n : Nat) : decode (encode w n) = n % 256 ^ w := by
  induction w generalizing n with
  | zero => simp [encode, decode, Nat.mod_one]
  | succ w ih =>
    have low : (UInt8.ofNat n).toNat = n % 256 := by simp
    rw [encode, decode, ih, low, pow_succ', Nat.mod_mul]

theorem decode_encode_of_lt {w n : Nat} (h : n < 256 ^ w) : decode (encode w n) = n := by
  rw [decode_encode, Nat.mod_eq_of_lt h]

/-- Bytes are the encoding of the number they stand for. -/
theorem encode_decode (bs : List UInt8) : encode bs.length (decode bs) = bs := by
  induction bs with
  | nil => rfl
  | cons b bs ih =>
    have hb : b.toNat < 256 := b.toNat_lt
    have low : UInt8.ofNat (b.toNat + 256 * decode bs) = b := by
      apply UInt8.toNat_inj.mp
      simp only [UInt8.toNat_ofNat']
      omega
    have high : (b.toNat + 256 * decode bs) / 256 = decode bs := by omega
    rw [decode, List.length_cons, encode, low, high, ih]

theorem decode_lt (bs : List UInt8) : decode bs < 256 ^ bs.length := by
  induction bs with
  | nil => simp [decode]
  | cons b bs ih =>
    have hb : b.toNat < 256 := b.toNat_lt
    rw [decode, List.length_cons, pow_succ']
    omega

/-- Reading `w` bytes never gives more than `w` bytes hold. -/
theorem decode_take_lt (w : Nat) (bs : List UInt8) : decode (bs.take w) < 256 ^ w :=
  (decode_lt _).trans_le (Nat.pow_le_pow_right (by norm_num) (List.length_take_le w bs))

end Lib.LittleEndian
