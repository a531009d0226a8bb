import Backpressure.Core.Digest

/-!
# What a digest is fed

Every update of a digest builder mixes some words, which do not depend on the builder, and counts
the bytes they stand for. A digest is a function of the words of all its updates.
-/

namespace Backpressure

open Lib (LittleEndian.encode LittleEndian.decode LittleEndian.length_encode
  LittleEndian.decode_encode LittleEndian.decode_encode_of_lt)

/-- The words that `absorb` mixes for some bytes. -/
def wordsOf : Bytes → List UInt64
  | [] => []
  | b₀ :: b₁ :: b₂ :: b₃ :: b₄ :: b₅ :: b₆ :: b₇ :: rest =>
    .ofNat (LittleEndian.decode [b₀, b₁, b₂, b₃, b₄, b₅, b₆, b₇]) :: wordsOf rest
  | tail => [.ofNat (LittleEndian.decode tail), 0xFF00000000000000 ||| .ofNat tail.length]

namespace DigestBuilder

/-- Some words are mixed and some bytes are counted. -/
def feed (b : DigestBuilder) (words : List UInt64) (bytes : UInt64) : DigestBuilder where
  h1 := (words.foldl mixWord b).h1
  h2 := (words.foldl mixWord b).h2
  len := b.len + bytes

theorem absorb_eq (b : DigestBuilder) (bytes : Bytes) :
    b.absorb bytes = (wordsOf bytes).foldl mixWord b := by
  induction bytes using wordsOf.induct generalizing b with
  | case1 => rfl
  | case2 b₀ b₁ b₂ b₃ b₄ b₅ b₆ b₇ rest ih =>
    rw [absorb, wordsOf, List.foldl_cons]
    exact ih _
  | case3 tail hne hshort =>
    rw [absorb, wordsOf] <;> first | rfl | assumption

/-- What mixes a word does not look at the count of bytes. -/
theorem mixWord_len (b : DigestBuilder) (w n : UInt64) :
    mixWord { b with len := n } w = { b.mixWord w with len := n } := by
  simp only [mixWord]

theorem foldl_mixWord_len (ws : List UInt64) (b : DigestBuilder) (n : UInt64) :
    ws.foldl mixWord { b with len := n } = { ws.foldl mixWord b with len := n } := by
  induction ws generalizing b with
  | nil => rfl
  | cons w ws ih => rw [List.foldl_cons, List.foldl_cons, mixWord_len, ih]

theorem len_foldl_mixWord (ws : List UInt64) (b : DigestBuilder) :
    (ws.foldl mixWord b).len = b.len := by
  induction ws generalizing b with
  | nil => rfl
  | cons w ws ih => rw [List.foldl_cons, ih, mixWord]

theorem feed_feed (b : DigestBuilder) (ws vs : List UInt64) (n m : UInt64) :
    (b.feed ws n).feed vs m = b.feed (ws ++ vs) (n + m) := by
  have hfirst : b.feed ws n = { ws.foldl mixWord b with len := b.len + n } := rfl
  have hmixed : vs.foldl mixWord (b.feed ws n) =
      { (ws ++ vs).foldl mixWord b with len := b.len + n } := by
    rw [hfirst, foldl_mixWord_len, List.foldl_append]
  have hlen : (b.feed ws n).len + m = b.len + (n + m) := UInt64.add_assoc _ _ _
  unfold feed at hmixed hlen ⊢
  rw [hmixed, hlen]

theorem feed_nil (b : DigestBuilder) {n : UInt64} (hn : b.len = n) :
    b = { h1 := b.h1, h2 := b.h2, len := n + 0 } := by
  rw [UInt64.add_zero, ← hn]

theorem mixWord_eq_feed (b : DigestBuilder) (w : UInt64) : b.mixWord w = b.feed [w] 0 := by
  have hlen : (b.mixWord w).len = b.len := by rw [mixWord]
  unfold feed
  rw [List.foldl_cons, List.foldl_nil]
  exact feed_nil _ hlen

theorem update_eq_feed (b : DigestBuilder) (bytes : Bytes) :
    b.update bytes = b.feed (wordsOf bytes) (.ofNat bytes.length) := by
  unfold DigestBuilder.update feed
  rw [absorb_eq]
  dsimp only
  rw [len_foldl_mixWord]

/-- The change of a builder that these words and so many bytes make. -/
def Feeds (f : DigestBuilder → DigestBuilder) (ws : List UInt64) (n : UInt64) : Prop :=
  ∀ b, f b = b.feed ws n

namespace Feeds

variable {f g : DigestBuilder → DigestBuilder} {ws vs : List UInt64} {n m : UInt64}

/-- One change after the other. -/
theorem seq (hf : Feeds f ws n) (hg : Feeds g vs m) : Feeds (fun b => g (f b)) (ws ++ vs) (n + m) := by
  intro b
  show g (f b) = _
  rw [hf b, hg, feed_feed]

theorem update (bytes : Bytes) :
    Feeds (fun b => b.update bytes) (wordsOf bytes) (.ofNat bytes.length) :=
  fun b => b.update_eq_feed bytes

theorem domain (tag : UInt64) : Feeds (fun b => b.domain tag) [0x00FF000000000000 ||| tag] 0 :=
  fun b => b.mixWord_eq_feed _

/-- A value of fewer than eight bytes is a word and a mark. -/
theorem wordsOf_encode {w : Nat} (hw : 0 < w) (hshort : w < 8) (v : Nat) :
    wordsOf (LittleEndian.encode w v) =
      [.ofNat (v % 256 ^ w), 0xFF00000000000000 ||| .ofNat w] := by
  have hlength := LittleEndian.length_encode w v
  have hdecode := LittleEndian.decode_encode w v
  revert hlength hdecode
  generalize LittleEndian.encode w v = bytes
  intro hlength hdecode
  rw [wordsOf, hdecode, hlength]
  · rintro rfl
    simp at hlength
    omega
  · rintro b₀ b₁ b₂ b₃ b₄ b₅ b₆ b₇ rest rfl
    simp at hlength
    omega

theorem wordsOf_encode_eight {v : Nat} (hv : v < 256 ^ 8) :
    wordsOf (LittleEndian.encode 8 v) = [.ofNat v] := by
  have hdecode := LittleEndian.decode_encode_of_lt hv
  simp only [LittleEndian.encode] at hdecode ⊢
  rw [wordsOf, hdecode]
  rfl

theorem u8 {v : Nat} (hv : v < 256) :
    Feeds (fun b => b.updateU8 v) [.ofNat v, 0xFF00000000000001] 1 := by
  have h := update (LittleEndian.encode 1 v)
  rwa [wordsOf_encode (by decide) (by decide), LittleEndian.length_encode, Nat.pow_one,
    Nat.mod_eq_of_lt hv] at h

theorem u16 (v : UInt16) :
    Feeds (fun b => b.updateU16 v.toNat) [.ofNat v.toNat, 0xFF00000000000002] 2 := by
  have h := update (LittleEndian.encode 2 v.toNat)
  rwa [wordsOf_encode (by decide) (by decide), LittleEndian.length_encode,
    show v.toNat % 256 ^ 2 = v.toNat from Nat.mod_eq_of_lt v.toNat_lt] at h

/-- A count is narrowed to four bytes. -/
theorem u32 (v : Nat) :
    Feeds (fun b => b.updateU32 v) [.ofNat (v % 4294967296), 0xFF00000000000004] 4 := by
  have h := update (LittleEndian.encode 4 v)
  rwa [wordsOf_encode (by decide) (by decide), LittleEndian.length_encode] at h

theorem u64 (v : UInt64) : Feeds (fun b => b.updateU64 v.toNat) [v] 8 := by
  have h := update (LittleEndian.encode 8 v.toNat)
  rwa [wordsOf_encode_eight (by simpa using v.toNat_lt), LittleEndian.length_encode,
    UInt64.ofNat_toNat] at h

theorem digest (d : Digest128) : Feeds (fun b => b.updateDigest d) [d.hi, d.lo] 16 :=
  (u64 d.hi).seq (u64 d.lo)

theorem bool (v : Bool) : Feeds (fun b => b.updateBool v) [.ofNat v.toNat, 0xFF00000000000001] 1 :=
  u8 (by cases v <;> decide)

/-- One update after the other. -/
theorem foldl {α : Type} {step : DigestBuilder → α → DigestBuilder} {words : α → List UInt64}
    {k : Nat} (h : ∀ x, Feeds (fun b => step b x) (words x) (.ofNat k)) (xs : List α) :
    Feeds (fun b => xs.foldl step b) (xs.flatMap words) (.ofNat (xs.length * k)) := by
  induction xs with
  | nil =>
    rw [List.length_nil, Nat.zero_mul]
    exact fun b => feed_nil b rfl
  | cons x xs ih =>
    have hcount : UInt64.ofNat ((x :: xs).length * k) = .ofNat k + .ofNat (xs.length * k) := by
      rw [← UInt64.ofNat_add, List.length_cons, Nat.add_mul, Nat.one_mul, Nat.add_comm]
    rw [hcount]
    exact (h x).seq ih

end Feeds

/-- The last mixing of a builder. -/
def sealed (b : DigestBuilder) : Digest128 :=
  let d : Digest128 :=
    { hi := mix64 (b.h1 ^^^ (b.h2 + 0x9E3779B97F4A7C15))
      lo := mix64 (b.h2 ^^^ (b.h1 + 0x165667B19E3779F9)) }
  if d.isZero then { d with lo := 1 } else d

end DigestBuilder

/-- The digest of a whole stream of words. -/
def digestOfWords (words : List UInt64) : Digest128 := (words.foldl DigestBuilder.mixWord {}).sealed

namespace DigestBuilder

theorem finish_eq (b : DigestBuilder) :
    b.finish = ((b.updateU64 b.len.toNat).domain 0x5A).sealed := by
  unfold finish sealed
  rfl

theorem sealed_feed (b : DigestBuilder) (ws : List UInt64) (n : UInt64) :
    (b.feed ws n).sealed = (ws.foldl mixWord b).sealed := by
  unfold feed sealed
  rfl

/-- A finished builder is the digest of what it was fed, the number of bytes, and a separator. -/
theorem Feeds.finish {f : DigestBuilder → DigestBuilder} {ws : List UInt64} {n : UInt64}
    (h : Feeds f ws n) : (f {}).finish = digestOfWords (ws ++ [n, 0x00FF00000000005A]) := by
  have hlen : (f {}).len = n := by
    rw [h]
    exact UInt64.zero_add n
  have hlast := (u64 n).seq (domain 0x5A)
  have hfed : ((f {}).updateU64 n.toNat).domain 0x5A = _ := hlast (f {})
  rw [finish_eq, hlen, hfed, h {}, feed_feed, sealed_feed]
  rfl

end DigestBuilder

end Backpressure
