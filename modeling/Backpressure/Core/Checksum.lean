import Backpressure.Core.Digest
import Mathlib.Data.Nat.Bitwise

/-!
# What the checksum tells apart

One byte moves the CRC register by a table entry whose high byte names the index, so that the step
loses nothing: neither the register nor the byte. Bytes that differ in one place have different
checksums.
-/

namespace Backpressure

/-! ## The table -/

/-- One reflected shift. -/
def crcShift (c : UInt32) : UInt32 :=
  if c &&& 1 ≠ 0 then (0xEDB88320 : UInt32) ^^^ (c >>> 1) else c >>> 1

theorem crc32Entry_eq (i : UInt32) :
    crc32Entry i = (List.range 8).foldl (fun c _ => crcShift c) i := rfl

/-- The low bit of a register. -/
theorem low_bit (c : UInt32) : c &&& 1 = 0 ∨ c &&& 1 = 1 := by
  have h : (c &&& 1).toNat = c.toNat % 2 := by
    rw [UInt32.toNat_and]
    exact Nat.and_one_is_mod _
  rcases Nat.mod_two_eq_zero_or_one c.toNat with hc | hc
  · exact .inl (UInt32.toNat_inj.mp (h.trans hc))
  · exact .inr (UInt32.toNat_inj.mp (h.trans hc))

theorem and_xor_one (a b : UInt32) : (a ^^^ b) &&& 1 = (a &&& 1) ^^^ (b &&& 1) := by
  apply UInt32.toNat_inj.mp
  simp only [UInt32.toNat_and, UInt32.toNat_xor]
  exact Nat.and_xor_distrib_right

/-- A shift is linear in exclusive or. -/
theorem crcShift_xor (a b : UInt32) : crcShift (a ^^^ b) = crcShift a ^^^ crcShift b := by
  have hcancel (p x y : UInt32) : x ^^^ y = (p ^^^ x) ^^^ (p ^^^ y) := by
    rw [UInt32.xor_comm p x, UInt32.xor_assoc, ← UInt32.xor_assoc p p, UInt32.xor_self,
      UInt32.zero_xor]
  unfold crcShift
  rw [and_xor_one, UInt32.shiftRight_xor]
  rcases low_bit a with ha | ha <;> rcases low_bit b with hb | hb <;> rw [ha, hb]
  · rfl
  · show (0xEDB88320 : UInt32) ^^^ (a >>> 1 ^^^ b >>> 1) = a >>> 1 ^^^ ((0xEDB88320 : UInt32) ^^^ b >>> 1)
    rw [← UInt32.xor_assoc, UInt32.xor_comm 0xEDB88320, UInt32.xor_assoc]
  · show (0xEDB88320 : UInt32) ^^^ (a >>> 1 ^^^ b >>> 1) = ((0xEDB88320 : UInt32) ^^^ a >>> 1) ^^^ b >>> 1
    rw [UInt32.xor_assoc]
  · exact hcancel _ _ _

theorem crc32Entry_xor (a b : UInt32) : crc32Entry (a ^^^ b) = crc32Entry a ^^^ crc32Entry b := by
  have hfold (l : List Nat) : ∀ a b, l.foldl (fun c _ => crcShift c) (a ^^^ b) =
      l.foldl (fun c _ => crcShift c) a ^^^ l.foldl (fun c _ => crcShift c) b := by
    induction l with
    | nil => exact fun _ _ => rfl
    | cons _ l ih =>
      intro a b
      rw [List.foldl_cons, List.foldl_cons, List.foldl_cons, crcShift_xor, ih]
  rw [crc32Entry_eq, crc32Entry_eq, crc32Entry_eq, hfold]

/-- The high byte of an entry is zero for the first entry alone. -/
theorem zero_of_high : ∀ i : Fin 256, crc32Entry (.ofNat i) >>> 24 = 0 → i = 0 := by
  decide +kernel

/-- The high byte of an entry names its index. -/
theorem index_of_high {i j : UInt32} (hi : i.toNat < 256) (hj : j.toNat < 256)
    (h : crc32Entry i >>> 24 = crc32Entry j >>> 24) : i = j := by
  have hlt : (i ^^^ j).toNat < 256 := by
    rw [UInt32.toNat_xor]
    exact Nat.xor_lt_two_pow (n := 8) hi hj
  have hzero : crc32Entry (.ofNat (⟨(i ^^^ j).toNat, hlt⟩ : Fin 256)) >>> 24 = 0 := by
    rw [UInt32.ofNat_toNat, crc32Entry_xor, UInt32.shiftRight_xor, h, UInt32.xor_self]
  have hnat := congrArg Fin.val (zero_of_high _ hzero)
  exact UInt32.xor_eq_zero_iff.mp (UInt32.toNat_inj.mp hnat)

/-! ## The step -/

/-- The register after one more byte. -/
def crcStep (crc : UInt32) (b : UInt8) : UInt32 :=
  crc32Entry ((crc ^^^ b.toUInt32) &&& 0xFF) ^^^ (crc >>> 8)

/-- The index of the table that a step reads. -/
theorem toNat_index (crc : UInt32) (b : UInt8) :
    ((crc ^^^ b.toUInt32) &&& 0xFF).toNat = (crc.toNat % 256) ^^^ b.toNat := by
  have hb : b.toNat % 256 = b.toNat := Nat.mod_eq_of_lt b.toNat_lt
  rw [UInt32.toNat_and, UInt32.toNat_xor, UInt8.toNat_toUInt32]
  show (crc.toNat ^^^ b.toNat) &&& (2 ^ 8 - 1) = _
  rw [Nat.and_two_pow_sub_one_eq_mod, Nat.xor_mod_two_pow]
  show (crc.toNat % 256) ^^^ (b.toNat % 256) = _
  rw [hb]

/-- Two equal steps have read the same entry and shifted the same bytes down. -/
theorem of_crcStep_eq {c c' : UInt32} {b b' : UInt8} (h : crcStep c b = crcStep c' b') :
    (c.toNat % 256) ^^^ b.toNat = (c'.toNat % 256) ^^^ b'.toNat ∧ c.toNat / 256 = c'.toNat / 256 := by
  have hlow (c : UInt32) (b : UInt8) : ((c ^^^ b.toUInt32) &&& 0xFF).toNat < 256 := by
    rw [toNat_index]
    exact Nat.xor_lt_two_pow (n := 8) (Nat.mod_lt _ (by decide)) b.toNat_lt
  have hshift (c : UInt32) : (c >>> 8).toNat = c.toNat / 256 := by
    rw [UInt32.toNat_shiftRight]
    exact Nat.shiftRight_eq_div_pow _ 8
  have hgone (c : UInt32) : (c >>> 8) >>> 24 = 0 := by
    apply UInt32.toNat_inj.mp
    rw [UInt32.toNat_shiftRight, hshift]
    show (c.toNat / 256) >>> 24 = 0
    rw [Nat.shiftRight_eq_div_pow]
    have hc := c.toNat_lt
    omega
  unfold crcStep at h
  have hhigh := congrArg (fun x : UInt32 => x >>> 24) h
  simp only [UInt32.shiftRight_xor, hgone, UInt32.xor_zero] at hhigh
  have hindex := index_of_high (hlow c b) (hlow c' b') hhigh
  refine ⟨?_, ?_⟩
  · rw [← toNat_index, ← toNat_index, hindex]
  · rw [hindex, UInt32.xor_right_inj] at h
    rw [← hshift, ← hshift, h]

theorem crcStep_injective (b : UInt8) : Function.Injective fun crc => crcStep crc b := by
  intro c c' h
  obtain ⟨hlow, hhigh⟩ := of_crcStep_eq h
  have hmod : c.toNat % 256 = c'.toNat % 256 := Nat.xor_left_injective hlow
  apply UInt32.toNat_inj.mp
  omega

theorem crcStep_byte_injective (crc : UInt32) : Function.Injective (crcStep crc) := by
  intro b b' h
  exact UInt8.toNat_inj.mp (Nat.xor_right_injective (of_crcStep_eq h).1)

/-! ## One changed byte -/

/-- A fold that loses neither its state nor an element tells lists apart that differ in one
place. -/
theorem foldl_set_ne {σ α : Type*} {step : σ → α → σ} (hstate : ∀ a, Function.Injective fun s => step s a)
    (helement : ∀ s, Function.Injective (step s)) {l : List α} {i : Nat} {a : α} (hi : i < l.length)
    (hne : a ≠ l[i]) (s : σ) : (l.set i a).foldl step s ≠ l.foldl step s := by
  induction l generalizing i s with
  | nil => cases hi
  | cons x l ih =>
    cases i with
    | zero =>
      rw [List.set_cons_zero, List.foldl_cons, List.foldl_cons]
      have hfold (l : List α) : Function.Injective fun s => l.foldl step s := by
        induction l with
        | nil => exact fun _ _ h => h
        | cons y l ih => exact fun s s' h => hstate y (ih h)
      intro h
      exact hne (helement s (hfold l h))
    | succ i =>
      rw [List.set_cons_succ, List.foldl_cons, List.foldl_cons]
      exact ih (Nat.lt_of_succ_lt_succ hi) hne _

/-- Another byte in one place gives another checksum. -/
theorem crc32_set_ne {bytes : Bytes} {i : Nat} {b : UInt8} (hi : i < bytes.length)
    (hne : b ≠ bytes[i]) : crc32 (bytes.set i b) ≠ crc32 bytes := by
  intro h
  unfold crc32 crc32Update at h
  exact foldl_set_ne crcStep_injective crcStep_byte_injective hi hne (~~~0) (UInt32.not_inj.mp h)

end Backpressure
