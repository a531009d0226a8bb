import Backpressure.Model.Commitment
import Backpressure.Model.Signal

/-!
# The lineage of a signal

`Provenance::chain_digest`, `PressureSignal::compute_lineage` and `bind_lineage` of `signal.cpp`. The
lineage is a digest of the evidentiary content of a signal, over the digests of its authority and of
its chain of custody. Where no digest collides, two signals have one computed lineage exactly when
they have one content.
-/

namespace Backpressure

/-- `digest_hop`. -/
def ProvenanceHop.digestInto (b : DigestBuilder) (h : ProvenanceHop) : DigestBuilder :=
  let b := digestIncarnation (b.domain 0x71) h.publisher
  let b := digestGeneration (digestEpoch b h.epoch) h.generation
  ((b.updateU64 h.tick.toNat).updateU64 h.propagation.value.toNat).updateDigest h.parent

def Provenance.chainDigest (p : Provenance) : Digest128 :=
  let b := ((DigestBuilder.domain {} 0x73).updateDigest p.droppedPrefix).updateU64 p.evictions.toNat
  (p.hops.foldl ProvenanceHop.digestInto (b.updateU32 p.hops.length)).finish

namespace PressureSignal

def computeLineage (s : PressureSignal) : Digest128 :=
  let b := (DigestBuilder.domain {} 0x74).updateU64 s.id.value.toNat
  let b := (b.updateU64 s.source.value.toNat).updateU64 s.origin.value.toNat
  let b := (b.updateU8 s.observation.severity.toNat).updateU32 s.observation.magnitude.raw
  let b := (b.updateBool s.observation.present).updateBool s.observation.downgraded
  let b := (digestGeneration b s.originGeneration).updateDigest s.topologyDigest
  let b := ((digestEpoch b s.epoch).updateU64 s.issuedAt.toNat).updateU64 s.validUntil.toNat
  let b := (b.updateU32 s.sourcePriority.toNat).updateU32 s.weightQ16.toNat
  ((b.updateDigest s.authority.digest).updateDigest s.provenance.chainDigest).finish

def bindLineage (s : PressureSignal) : PressureSignal := { s with lineage := s.computeLineage }

/-- The lineage itself is not part of what it is computed from. -/
theorem computeLineage_withLineage (s : PressureSignal) (lineage : Digest128) :
    { s with lineage }.computeLineage = s.computeLineage := by
  simp only [computeLineage]

theorem lineage_bindLineage (s : PressureSignal) :
    s.bindLineage.lineage = s.bindLineage.computeLineage := by
  have hsame := computeLineage_withLineage s s.computeLineage
  rw [bindLineage, hsame]

end PressureSignal

/-! ## The words of the digests -/

/-- The words of `digest_hop`. -/
def ProvenanceHop.words (h : ProvenanceHop) : List UInt64 :=
  [0x00FF000000000071, 0x00FF000000000011, h.publisher.boot.hi, h.publisher.boot.lo,
    .ofNat h.publisher.pid.toNat, 0xFF00000000000004, .ofNat h.publisher.index.toNat,
    0xFF00000000000004, h.publisher.seq, 0x00FF000000000013, h.epoch.value, 0x00FF000000000012,
    h.generation.value, h.tick, h.propagation.value, h.parent.hi, h.parent.lo]

/-- The whole stream of words of `chain_digest`. -/
def Provenance.words (p : Provenance) : List UInt64 :=
  [0x00FF000000000073, p.droppedPrefix.hi, p.droppedPrefix.lo, p.evictions,
    .ofNat (p.hops.length % 4294967296), 0xFF00000000000004] ++ p.hops.flatMap ProvenanceHop.words ++
    [.ofNat (p.hops.length * 80 + 28), 0x00FF00000000005A]

/-- The whole stream of words of the digest of an authority. -/
def AuthorityVector.words (a : AuthorityVector) : List UInt64 :=
  [0x00FF000000000020, .ofNat a.level.toNat, 0xFF00000000000001, 0x00FF000000000013, a.epoch.value,
    0x00FF000000000012, a.policyGeneration.value, .ofNat (a.scope.items.length % 4294967296),
    0xFF00000000000004] ++ (a.scope.items.flatMap fun id => [id.value]) ++
    [.ofNat a.maxHopsGranted.toNat, 0xFF00000000000004, .ofNat a.amplificationAuthorized.toNat,
      0xFF00000000000001, .ofNat a.maxGain.raw, 0xFF00000000000004, a.expiresAt] ++
    [.ofNat (a.scope.items.length * 8 + 38), 0x00FF00000000005A]

/-- The whole stream of words of `compute_lineage`. -/
def PressureSignal.words (s : PressureSignal) : List UInt64 :=
  [0x00FF000000000074, s.id.value, s.source.value, s.origin.value,
    .ofNat s.observation.severity.toNat, 0xFF00000000000001, .ofNat s.observation.magnitude.raw,
    0xFF00000000000004, .ofNat s.observation.present.toNat, 0xFF00000000000001,
    .ofNat s.observation.downgraded.toNat, 0xFF00000000000001, 0x00FF000000000012,
    s.originGeneration.value, s.topologyDigest.hi, s.topologyDigest.lo, 0x00FF000000000013,
    s.epoch.value, s.issuedAt, s.validUntil, .ofNat s.sourcePriority.toNat, 0xFF00000000000004,
    .ofNat s.weightQ16.toNat, 0xFF00000000000004, s.authority.digest.hi, s.authority.digest.lo,
    s.provenance.chainDigest.hi, s.provenance.chainDigest.lo, 119, 0x00FF00000000005A]

namespace DigestBuilder.Feeds

theorem epoch (e : Epoch) : Feeds (fun b => digestEpoch b e) [0x00FF000000000013, e.value] 8 :=
  (domain 0x13).seq (u64 e.value)

/-- A number of four bytes. -/
theorem word32 {v : Nat} (hv : v < 4294967296) :
    Feeds (fun b => b.updateU32 v) [.ofNat v, 0xFF00000000000004] 4 := by
  have h := u32 v
  rwa [Nat.mod_eq_of_lt hv] at h

theorem incarnation (i : Incarnation) : Feeds (fun b => digestIncarnation b i)
    [0x00FF000000000011, i.boot.hi, i.boot.lo, .ofNat i.pid.toNat, 0xFF00000000000004,
      .ofNat i.index.toNat, 0xFF00000000000004, i.seq] 32 :=
  (((((domain 0x11).seq (u64 i.boot.hi)).seq (u64 i.boot.lo)).seq (word32 i.pid.toNat_lt)).seq
    (word32 i.index.toNat_lt)).seq (u64 i.seq)

theorem hop (h : ProvenanceHop) : Feeds (fun b => ProvenanceHop.digestInto b h) h.words 80 :=
  ((((((domain 0x71).seq (incarnation h.publisher)).seq (epoch h.epoch)).seq
    (generation h.generation)).seq (u64 h.tick)).seq (u64 h.propagation.value)).seq
    (digest h.parent)

theorem resources (ids : List ResourceId) :
    Feeds (fun b => ids.foldl (fun b id => b.updateU64 id.value.toNat) b)
      (ids.flatMap fun id => [id.value]) (.ofNat (ids.length * 8)) :=
  @foldl ResourceId (fun b id => b.updateU64 id.value.toNat) (fun id => [id.value]) 8
    (fun id => u64 id.value) ids

end DigestBuilder.Feeds

open DigestBuilder.Feeds in
theorem Provenance.chainDigest_eq (p : Provenance) : p.chainDigest = digestOfWords p.words := by
  have hhops := @DigestBuilder.Feeds.foldl _ _ _ 80 hop p.hops
  have hall := ((((domain 0x73).seq (digest p.droppedPrefix)).seq (u64 p.evictions)).seq
    (u32 p.hops.length)).seq hhops
  have hcount : (0 + 16 + 8 + 4 + UInt64.ofNat (p.hops.length * 80) : UInt64) =
      .ofNat (p.hops.length * 80 + 28) := by
    rw [UInt64.ofNat_add]
    show 28 + _ = _ + (28 : UInt64)
    ac_rfl
  rw [hcount] at hall
  exact hall.finish

open DigestBuilder.Feeds in
theorem AuthorityVector.digest_eq (a : AuthorityVector) : a.digest = digestOfWords a.words := by
  have hlevel := @u8 a.level.toNat (by cases a.level <;> decide)
  have hscope := resources a.scope.items
  have hgain := @word32 a.maxGain.raw (lt_of_le_of_lt a.maxGain.le_max (by decide))
  have hbefore := ((((domain 0x20).seq hlevel).seq (DigestBuilder.Feeds.epoch a.epoch)).seq
    (generation a.policyGeneration)).seq (u32 a.scope.items.length)
  have hafter := (((word32 a.maxHopsGranted.toNat_lt).seq (bool a.amplificationAuthorized)).seq
    hgain).seq (u64 a.expiresAt)
  have hall := (hbefore.seq hscope).seq hafter
  have hcount : (0 + 1 + 8 + 8 + 4 + UInt64.ofNat (a.scope.items.length * 8) + (4 + 1 + 4 + 8) :
      UInt64) = .ofNat (a.scope.items.length * 8 + 38) := by
    rw [UInt64.ofNat_add]
    show 21 + _ + 17 = _ + (21 + 17 : UInt64)
    ac_rfl
  rw [hcount] at hall
  unfold digest words
  exact hall.finish

open DigestBuilder.Feeds in
theorem PressureSignal.computeLineage_eq (s : PressureSignal) :
    s.computeLineage = digestOfWords s.words := by
  have hseverity := @u8 s.observation.severity.toNat (by cases s.observation.severity <;> decide)
  have hmagnitude := @word32 s.observation.magnitude.raw
    (lt_of_le_of_lt s.observation.magnitude.le_one (by decide))
  have hids := (((domain 0x74).seq (u64 s.id.value)).seq (u64 s.source.value)).seq
    (u64 s.origin.value)
  have hobservation := (((hids.seq hseverity).seq hmagnitude).seq (bool s.observation.present)).seq
    (bool s.observation.downgraded)
  have hbinding := ((((hobservation.seq (generation s.originGeneration)).seq
    (digest s.topologyDigest)).seq (DigestBuilder.Feeds.epoch s.epoch)).seq (u64 s.issuedAt)).seq (u64 s.validUntil)
  have hall := (((hbinding.seq (word32 s.sourcePriority.toNat_lt)).seq
    (word32 s.weightQ16.toNat_lt)).seq (digest s.authority.digest)).seq
    (digest s.provenance.chainDigest)
  have hcount : (0 + 8 + 8 + 8 + 1 + 4 + 1 + 1 + 8 + 16 + 8 + 8 + 8 + 4 + 4 + 16 + 16 : UInt64) = 119 := by
    decide
  rw [hcount] at hall
  have hfinish := hall.finish
  simp only [List.cons_append, List.nil_append] at hfinish
  unfold computeLineage words
  exact hfinish

/-! ## Reading the words back -/

theorem fixed_hop : Lib.Records.Fixed ProvenanceHop.words 17 where
  length _ := rfl
  injective := by
    rintro ⟨⟨⟨hi, lo⟩, pid, index, seq⟩, ⟨epoch⟩, ⟨generation⟩, tick, ⟨propagation⟩, ⟨phi, plo⟩⟩
      ⟨⟨⟨hi', lo'⟩, pid', index', seq'⟩, ⟨epoch'⟩, ⟨generation'⟩, tick', ⟨propagation'⟩, ⟨phi', plo'⟩⟩ h
    simp only [ProvenanceHop.words, List.cons.injEq, true_and, and_true] at h
    obtain ⟨rfl, rfl, hpid, hindex, rfl, rfl, rfl, rfl, rfl, rfl, rfl⟩ := h
    have hpid := UInt32.toNat_inj.mp (ofNat_inj_of_lt pid.toNat_lt pid'.toNat_lt hpid)
    have hindex := UInt32.toNat_inj.mp (ofNat_inj_of_lt index.toNat_lt index'.toNat_lt hindex)
    rw [hpid, hindex]

theorem fixed_resourceId : Lib.Records.Fixed (fun id : ResourceId => [id.value]) 1 where
  length _ := rfl
  injective := by
    intro id id' h
    exact StrongId.ext (List.singleton_inj.mp h)

/-- Counts that fit their four bytes are read back. -/
theorem count_inj {n m k : Nat} (hn : n ≤ k) (hm : m ≤ k) (hk : k < 4294967296)
    (h : UInt64.ofNat (n % 4294967296) = UInt64.ofNat (m % 4294967296)) : n = m := by
  rw [Nat.mod_eq_of_lt (by omega), Nat.mod_eq_of_lt (by omega)] at h
  exact ofNat_inj_of_lt (by omega) (by omega) h

theorem Provenance.words_injective {p p' : Provenance} (h : p.words = p'.words) : p = p' := by
  obtain ⟨hops, ⟨hi, lo⟩, evictions, bounded⟩ := p
  obtain ⟨hops', ⟨hi', lo'⟩, evictions', bounded'⟩ := p'
  simp only [words, List.cons_append, List.nil_append, List.cons.injEq,
    true_and] at h
  obtain ⟨rfl, rfl, rfl, hcount, hrest⟩ := h
  have hlength := count_inj bounded bounded' (by decide) hcount
  obtain ⟨rfl, -⟩ := fixed_hop.flatMap_injective hlength hrest
  rfl

theorem AuthorityVector.words_injective {a a' : AuthorityVector} (h : a.words = a'.words) :
    a = a' := by
  obtain ⟨level, ⟨epoch⟩, ⟨generation⟩, ⟨items, bounded⟩, hops, amplified, gain, expires⟩ := a
  obtain ⟨level', ⟨epoch'⟩, ⟨generation'⟩, ⟨items', bounded'⟩, hops', amplified', gain', expires'⟩ := a'
  simp only [words, List.append_assoc, List.cons_append, List.nil_append, List.cons.injEq,
    true_and] at h
  obtain ⟨hlevel, rfl, rfl, hcount, hrest⟩ := h
  have hlength := count_inj bounded bounded' (by decide) hcount
  obtain ⟨rfl, hrest⟩ := fixed_resourceId.flatMap_injective hlength hrest
  simp only [List.cons.injEq, true_and, and_true] at hrest
  obtain ⟨hhops, hamplified, hgain, rfl⟩ := hrest
  have hlevel : level = level' := by
    revert hlevel
    cases level <;> cases level' <;> decide
  have hhops := UInt32.toNat_inj.mp (ofNat_inj_of_lt hops.toNat_lt hops'.toNat_lt hhops)
  have hamplified : amplified = amplified' := by
    revert hamplified
    cases amplified <;> cases amplified' <;> decide
  have hgain := ofNat_inj_of_lt (lt_of_le_of_lt gain.le_max (by decide))
    (lt_of_le_of_lt gain'.le_max (by decide)) hgain
  have hgain : gain = gain' := by
    cases gain
    cases gain'
    cases hgain
    rfl
  rw [hlevel, hhops, hamplified, hgain]

/-! ## Content -/

/-- The evidentiary content of a signal. -/
structure Evidence where
  id : SignalId
  source : SourceId
  origin : ResourceId
  severity : Severity
  magnitude : Magnitude
  hasEvidence : Bool
  severityDowngraded : Bool
  originGeneration : Generation
  topologyDigest : Digest128
  epoch : Epoch
  issuedAt : Tick
  validUntil : Tick
  sourcePriority : UInt32
  weightQ16 : UInt32
  authority : AuthorityVector
  provenance : Provenance
  deriving DecidableEq, Repr

namespace PressureSignal

def evidence (s : PressureSignal) : Evidence where
  id := s.id
  source := s.source
  origin := s.origin
  severity := s.observation.severity
  magnitude := s.observation.magnitude
  hasEvidence := s.observation.present
  severityDowngraded := s.observation.downgraded
  originGeneration := s.originGeneration
  topologyDigest := s.topologyDigest
  epoch := s.epoch
  issuedAt := s.issuedAt
  validUntil := s.validUntil
  sourcePriority := s.sourcePriority
  weightQ16 := s.weightQ16
  authority := s.authority
  provenance := s.provenance

/-- The digest tells these two streams apart. -/
def Apart (ws vs : List UInt64) : Prop := digestOfWords ws = digestOfWords vs → ws = vs

/-- No digest that goes into the two lineages collides. -/
structure CollisionFree (s s' : PressureSignal) : Prop where
  lineage : Apart s.words s'.words
  authority : Apart s.authority.words s'.authority.words
  provenance : Apart s.provenance.words s'.provenance.words

variable {s s' : PressureSignal}

/-- The same content has the same words. -/
theorem words_of_evidence (h : s.evidence = s'.evidence) : s.words = s'.words := by
  simp only [evidence, Evidence.mk.injEq] at h
  obtain ⟨hid, hsource, horigin, hseverity, hmagnitude, hpresent, hdowngraded, hgeneration, htopology,
    hepoch, hissued, hvalid, hpriority, hweight, hauthority, hprovenance⟩ := h
  unfold words
  rw [hid, hsource, horigin, hseverity, hmagnitude, hpresent, hdowngraded, hgeneration, htopology,
    hepoch, hissued, hvalid, hpriority, hweight, hauthority, hprovenance]

/-- The words determine the content, where the nested digests do not collide. -/
theorem evidence_of_words (hfree : CollisionFree s s') (h : s.words = s'.words) :
    s.evidence = s'.evidence := by
  simp only [words, List.cons.injEq, true_and, and_true] at h
  obtain ⟨hid, hsource, horigin, hseverity, hmagnitude, hpresent, hdowngraded, hgeneration, hhi, hlo,
    hepoch, hissued, hvalid, hpriority, hweight, hahi, halo, hphi, hplo⟩ := h
  have hseverity : s.observation.severity = s'.observation.severity := by
    revert hseverity
    cases s.observation.severity <;> cases s'.observation.severity <;> decide
  have hmagnitude := ofNat_inj_of_lt (lt_of_le_of_lt s.observation.magnitude.le_one (by decide))
    (lt_of_le_of_lt s'.observation.magnitude.le_one (by decide)) hmagnitude
  have hpresent : s.observation.present = s'.observation.present := by
    revert hpresent
    cases s.observation.present <;> cases s'.observation.present <;> decide
  have hdowngraded : s.observation.downgraded = s'.observation.downgraded := by
    revert hdowngraded
    cases s.observation.downgraded <;> cases s'.observation.downgraded <;> decide
  have hpriority := UInt32.toNat_inj.mp
    (ofNat_inj_of_lt s.sourcePriority.toNat_lt s'.sourcePriority.toNat_lt hpriority)
  have hweight := UInt32.toNat_inj.mp
    (ofNat_inj_of_lt s.weightQ16.toNat_lt s'.weightQ16.toNat_lt hweight)
  have hauthority : s.authority = s'.authority := by
    apply AuthorityVector.words_injective
    apply hfree.authority
    rw [← AuthorityVector.digest_eq, ← AuthorityVector.digest_eq]
    exact Digest128.ext hahi halo
  have hprovenance : s.provenance = s'.provenance := by
    apply Provenance.words_injective
    apply hfree.provenance
    rw [← Provenance.chainDigest_eq, ← Provenance.chainDigest_eq]
    exact Digest128.ext hphi hplo
  simp only [evidence, Evidence.mk.injEq]
  exact ⟨StrongId.ext hid, StrongId.ext hsource, StrongId.ext horigin, hseverity, Q16.ext hmagnitude,
    hpresent, hdowngraded, Generation.ext hgeneration, Digest128.ext hhi hlo, Epoch.ext hepoch,
    hissued, hvalid, hpriority, hweight, hauthority, hprovenance⟩

/-- Where nothing collides, one computed lineage is one content. -/
theorem computeLineage_eq_iff (hfree : CollisionFree s s') :
    s.computeLineage = s'.computeLineage ↔ s.evidence = s'.evidence := by
  rw [computeLineage_eq, computeLineage_eq]
  constructor
  · intro h
    exact evidence_of_words hfree (hfree.lineage h)
  · intro h
    rw [words_of_evidence h]

end PressureSignal

end Backpressure
