import Backpressure.Lib.Spill
import Backpressure.Model.Lineage

/-!
# The chain of custody

`Provenance::push` of `signal.cpp` keeps the last hops and folds the hops it evicts into a running
digest. Where no digest collides, `chain_digest` commits to every hop that was ever pushed.
-/

namespace Backpressure

/-- What a full chain folds the hop it evicts into: the digest of those dropped before, and their
number. -/
def evict (dropped : Digest128 × UInt64) (h : ProvenanceHop) : Digest128 × UInt64 :=
  let b := ((DigestBuilder.domain {} 0x72).updateDigest dropped.1).updateU64 dropped.2.toNat
  ((ProvenanceHop.digestInto b h).finish, dropped.2 + 1)

namespace Provenance

/-- A full chain makes room at its front. -/
def push (p : Provenance) (hop : ProvenanceHop) : Provenance :=
  if h : p.hops.length < kMaxChain then
    { p with
      hops := p.hops ++ [hop]
      bounded := by rw [List.length_append, List.length_singleton]; omega }
  else
    let dropped := evict (p.droppedPrefix, p.evictions) (p.hops.headD {})
    { hops := p.hops.tail ++ [hop]
      droppedPrefix := dropped.1
      evictions := dropped.2
      bounded := by
        have hbounded := p.bounded
        unfold kMaxChain at h hbounded ⊢
        rw [List.length_append, List.length_tail, List.length_singleton]
        omega }

/-- The chain after some hops, from the empty one. -/
def pushed (hops : List ProvenanceHop) : Provenance := hops.foldl push {}

/-! ## The window and the running digest -/

/-- The hops kept, and what those before them were folded into. -/
def window (p : Provenance) : List ProvenanceHop × Digest128 × UInt64 :=
  (p.hops, p.droppedPrefix, p.evictions)

theorem window_push (p : Provenance) (hop : ProvenanceHop) :
    (p.push hop).window = Lib.Spill.push kMaxChain evict p.window hop := by
  unfold push Lib.Spill.push window
  split
  case isTrue => rfl
  case isFalse hfull =>
    dsimp only
    cases hhops : p.hops with
    | nil =>
      rw [hhops] at hfull
      exact absurd (by decide) hfull
    | cons first rest => rfl

theorem window_pushed (hops : List ProvenanceHop) : (pushed hops).window =
    (hops.drop (hops.length - kMaxChain),
      (hops.take (hops.length - kMaxChain)).foldl evict ({}, 0)) := by
  rw [← Lib.Spill.foldl_push]
  unfold pushed
  exact (List.foldl_hom window fun p hop => (window_push p hop).symm).symm

/-- The number of the dropped hops is the number of evictions. -/
theorem evictions_foldl (hops : List ProvenanceHop) (dropped : Digest128 × UInt64) :
    (hops.foldl evict dropped).2 = dropped.2 + .ofNat hops.length := by
  induction hops generalizing dropped with
  | nil => exact (UInt64.add_zero _).symm
  | cons h rest ih =>
    have hcount : UInt64.ofNat (h :: rest).length = 1 + .ofNat rest.length := by
      rw [List.length_cons, Nat.add_comm, UInt64.ofNat_add]
      rfl
    rw [List.foldl_cons, ih, hcount, ← UInt64.add_assoc]
    rfl

theorem length_pushed (hops : List ProvenanceHop) :
    (pushed hops).hops.length = min hops.length kMaxChain := by
  have hwindow := congrArg (fun w => w.1.length) (window_pushed hops)
  simp only [window, List.length_drop] at hwindow
  omega

/-! ## Telling histories apart -/

/-- The whole stream of words that an eviction digests. -/
def evictionWords (dropped : Digest128 × UInt64) (h : ProvenanceHop) : List UInt64 :=
  [0x00FF000000000072, dropped.1.hi, dropped.1.lo, dropped.2] ++ h.words ++ [104, 0x00FF00000000005A]

open DigestBuilder.Feeds in
theorem evict_eq (dropped : Digest128 × UInt64) (h : ProvenanceHop) :
    evict dropped h = (digestOfWords (evictionWords dropped h), dropped.2 + 1) := by
  have hall := (((domain 0x72).seq (digest dropped.1)).seq (u64 dropped.2)).seq (hop h)
  have hcount : (0 + 16 + 8 + 80 : UInt64) = 104 := by decide
  rw [hcount] at hall
  exact congrArg (·, dropped.2 + 1) hall.finish

theorem evictionWords_injective {dropped dropped' : Digest128 × UInt64} {h h' : ProvenanceHop}
    (heq : evictionWords dropped h = evictionWords dropped' h') : dropped = dropped' ∧ h = h' := by
  obtain ⟨⟨hi, lo⟩, evictions⟩ := dropped
  obtain ⟨⟨hi', lo'⟩, evictions'⟩ := dropped'
  simp only [evictionWords, List.cons_append, List.nil_append, List.cons.injEq, true_and] at heq
  obtain ⟨rfl, rfl, rfl, hrest⟩ := heq
  exact ⟨rfl, (fixed_hop.head hrest).1⟩

/-- The streams that some evictions digest, one after the other. -/
def evictionStreams (dropped : Digest128 × UInt64) : List ProvenanceHop → List (List UInt64)
  | [] => []
  | h :: rest => evictionWords dropped h :: evictionStreams (evict dropped h) rest

/-- All the streams that pushing some hops and taking the digest of the chain digest. -/
def streams (hops : List ProvenanceHop) : List (List UInt64) :=
  (pushed hops).words :: evictionStreams ({}, 0) (hops.take (hops.length - kMaxChain))

/-- No digest of one history collides with one of the other. -/
def CollisionFree (hops hops' : List ProvenanceHop) : Prop :=
  ∀ ws ∈ streams hops, ∀ vs ∈ streams hops', PressureSignal.Apart ws vs

theorem mem_evictionStreams {hops l : List ProvenanceHop} {h : ProvenanceHop}
    {dropped : Digest128 × UInt64} (hleading : l ++ [h] <+: hops) :
    evictionWords (l.foldl evict dropped) h ∈ evictionStreams dropped hops := by
  obtain ⟨rest, rfl⟩ := hleading
  induction l generalizing dropped with
  | nil => exact List.mem_cons_self
  | cons k l ih => exact List.mem_cons_of_mem _ ih

/-- An eviction never leaves what an empty chain starts from. -/
theorem evict_ne (dropped : Digest128 × UInt64) (h : ProvenanceHop) : evict dropped h ≠ ({}, 0) := by
  intro heq
  have hzero : (evict dropped h).1.isZero = false := DigestBuilder.finish_isZero _
  rw [heq] at hzero
  exact absurd hzero (by decide)

/-- Equal chain digests leave equal chains, and equal chains are left by one history. -/
theorem pushed_injective {hops hops' : List ProvenanceHop} (hfree : CollisionFree hops hops')
    (h : (pushed hops).chainDigest = (pushed hops').chainDigest) : hops = hops' := by
  rw [chainDigest_eq, chainDigest_eq] at h
  have hchain := words_injective
    (hfree _ List.mem_cons_self _ List.mem_cons_self h)
  have hwindow := congrArg window hchain
  rw [window_pushed, window_pushed, Prod.mk.injEq] at hwindow
  obtain ⟨hkept, hdropped⟩ := hwindow
  have hevicted := Lib.Spill.foldl_injective evict_ne (fun l a hl l' a' hl' heq => by
    rw [evict_eq, evict_eq, Prod.mk.injEq] at heq
    exact evictionWords_injective (hfree _ (List.mem_cons_of_mem _ (mem_evictionStreams hl)) _
      (List.mem_cons_of_mem _ (mem_evictionStreams hl')) heq.1)) hdropped
  rw [← List.take_append_drop (hops.length - kMaxChain) hops, hevicted, hkept,
    List.take_append_drop]

/-- The chain holds the last hops, counts the others and folds them into its digest, so that its
digest commits to all of them. -/
theorem chain_commits (hops : List ProvenanceHop) :
    let p := pushed hops
    p.hops.length = min hops.length 16 ∧ p.hops = hops.drop (hops.length - p.hops.length) ∧
      p.evictions = .ofNat (hops.length - p.hops.length) ∧
      p.droppedPrefix = ((hops.take (hops.length - p.hops.length)).foldl evict ({}, 0)).1 ∧
      ∀ hops', CollisionFree hops hops' → p.chainDigest = (pushed hops').chainDigest →
        hops = hops' := by
  intro p
  have hlength : p.hops.length = min hops.length 16 := length_pushed hops
  have hevicted : hops.length - p.hops.length = hops.length - kMaxChain := by
    unfold kMaxChain
    omega
  have hwindow := window_pushed hops
  simp only [window, Prod.mk.injEq] at hwindow
  obtain ⟨hkept, hdropped⟩ := hwindow
  refine ⟨hlength, ?_, ?_, ?_, fun hops' hfree h => pushed_injective hfree h⟩
  · rw [hevicted]
    exact hkept
  · have hcount := evictions_foldl (hops.take (hops.length - kMaxChain)) ({}, 0)
    rw [← hdropped, UInt64.zero_add, List.length_take, Nat.min_eq_left (Nat.sub_le _ _)] at hcount
    rw [hevicted]
    exact hcount
  · rw [hevicted, ← hdropped]

/-- Hops that differ in their ticks. -/
def ticks (n : Nat) : List ProvenanceHop := (List.range n).map fun i => { tick := .ofNat i }

/-- A history that evicts one hop is told from one that evicts two. -/
theorem chain_commits_evicted : (pushed (ticks 17)).chainDigest ≠ (pushed (ticks 18)).chainDigest :=
  fun h => absurd ((chain_commits (ticks 17)).2.2.2.2 (ticks 18)
    (by unfold CollisionFree PressureSignal.Apart; decide +kernel) h) (by decide)

end Provenance

end Backpressure
