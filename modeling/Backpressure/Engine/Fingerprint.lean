import Backpressure.Engine.Explain
import Backpressure.Model.Lineage

/-!
# What the fingerprint of an explanation commits to

The words that `PropagationExplanation::finalize` feeds to its digest. The accepted hops and the
refused edges stand one behind the other without their numbers; the width mark of the seventh word
tells them apart. The number of edges that one record stands for is not among the words.
-/

namespace Backpressure

/-- The words of an accepted hop. -/
def HopRecord.words (h : HopRecord) : List UInt64 :=
  [h.src.value, h.dst.value, h.edge.value, .ofNat (h.depth % 4294967296), 0xFF00000000000004,
    .ofNat h.attenuation.raw, 0xFF00000000000004, .ofNat h.gain.raw, 0xFF00000000000004,
    .ofNat h.potentialBefore.raw, .ofNat h.potentialAfter.raw,
    .ofNat (h.cumulativeGainQ16 % 4294967296), 0xFF00000000000004, .ofNat h.verdict.toNat,
    0xFF00000000000001, .ofNat h.reason.toNat, 0xFF00000000000001]

/-- The words of a record of refused edges. -/
def SuppressedEdgeRecord.words (s : SuppressedEdgeRecord) : List UInt64 :=
  [s.src.value, s.dst.value, s.edge.value, .ofNat (s.depth % 4294967296), 0xFF00000000000004,
    .ofNat s.reason.toNat, 0xFF00000000000001]

namespace PropagationExplanation

variable (e : PropagationExplanation)

/-- The words before the records. -/
def headWords : List UInt64 :=
  [0x00FF000000000080, e.id.value, e.signal.value, e.source.value, e.origin.value,
    .ofNat e.sourceSeverity.toNat, 0xFF00000000000001, .ofNat e.sourceMagnitude.raw,
    0xFF00000000000004, e.lineage.hi, e.lineage.lo, e.topologyDigest.hi, e.topologyDigest.lo,
    0x00FF000000000012, e.topologyGeneration.value, 0x00FF000000000013, e.epoch.value,
    e.authority.digest.hi, e.authority.digest.lo, e.issuedAt, e.deadline,
    .ofNat e.effectiveCeiling.raw, 0xFF00000000000004, .ofNat (e.grantedGainQ16 % 4294967296),
    0xFF00000000000004, .ofNat e.amplificationGranted.toNat, 0xFF00000000000001,
    .ofNat e.amplificationUsed.toNat, 0xFF00000000000001,
    .ofNat (e.maxDepthReached % 4294967296), 0xFF00000000000004, .ofNat e.truncated.toNat,
    0xFF00000000000001]

/-- The bytes that these words and those of the records stand for. -/
def countedBytes : UInt64 :=
  132 + .ofNat (e.hops.length * 58) + .ofNat (e.suppressed.length * 29)

/-- The whole stream of words of `finalize`. -/
def words : List UInt64 :=
  e.headWords ++ e.hops.flatMap HopRecord.words ++
    e.suppressed.flatMap SuppressedEdgeRecord.words ++ [e.countedBytes, 0x00FF00000000005A]

end PropagationExplanation

namespace DigestBuilder.Feeds

/-- A number of eight bytes. -/
theorem word64 {v : Nat} (hv : v < 18446744073709551616) :
    Feeds (fun b => b.updateU64 v) [.ofNat v] 8 := by
  have h := u64 (.ofNat v)
  rwa [UInt64.toNat_ofNat_of_lt' hv] at h

theorem hopRecord (h : HopRecord) : Feeds (fun b => h.digestInto b) h.words 58 := by
  have hattenuation := @word32 h.attenuation.raw (lt_of_le_of_lt h.attenuation.le_one (by decide))
  have hgain := @word32 h.gain.raw (lt_of_le_of_lt h.gain.le_max (by decide))
  have hbefore := @word64 h.potentialBefore.raw
    (lt_of_le_of_lt h.potentialBefore.le_one (by decide))
  have hafter := @word64 h.potentialAfter.raw (lt_of_le_of_lt h.potentialAfter.le_one (by decide))
  have hverdict := @u8 h.verdict.toNat (by cases h.verdict <;> decide)
  have hreason := @u8 h.reason.toNat (by cases h.reason <;> decide)
  have hids := ((u64 h.src.value).seq (u64 h.dst.value)).seq (u64 h.edge.value)
  have hcarried := (((hids.seq (u32 h.depth)).seq hattenuation).seq hgain).seq hbefore
  unfold HopRecord.digestInto HopRecord.words
  simp only [List.foldl_cons, List.foldl_nil]
  exact (((hcarried.seq hafter).seq (u32 h.cumulativeGainQ16)).seq hverdict).seq hreason

theorem suppressedRecord (s : SuppressedEdgeRecord) :
    Feeds (fun b => s.digestInto b) s.words 29 := by
  have hreason := @u8 s.reason.toNat (by cases s.reason <;> decide)
  have hids := ((u64 s.src.value).seq (u64 s.dst.value)).seq (u64 s.edge.value)
  unfold SuppressedEdgeRecord.digestInto SuppressedEdgeRecord.words
  simp only [List.foldl_cons, List.foldl_nil]
  exact (hids.seq (u32 s.depth)).seq hreason

end DigestBuilder.Feeds

open DigestBuilder.Feeds in
theorem PropagationExplanation.fingerprintOf_eq (e : PropagationExplanation) :
    e.fingerprintOf = digestOfWords e.words := by
  have hseverity := @u8 e.sourceSeverity.toNat (by cases e.sourceSeverity <;> decide)
  have hmagnitude := @word32 e.sourceMagnitude.raw
    (lt_of_le_of_lt e.sourceMagnitude.le_one (by decide))
  have hceiling := @word32 e.effectiveCeiling.raw
    (lt_of_le_of_lt e.effectiveCeiling.le_one (by decide))
  have hids := ((((domain 0x80).seq (u64 e.id.value)).seq (u64 e.signal.value)).seq
    (u64 e.source.value)).seq (u64 e.origin.value)
  have hsource := ((hids.seq hseverity).seq hmagnitude).seq (digest e.lineage)
  have hbinding := ((hsource.seq (digest e.topologyDigest)).seq (generation e.topologyGeneration)).seq
    (DigestBuilder.Feeds.epoch e.epoch)
  have htime := ((hbinding.seq (digest e.authority.digest)).seq (u64 e.issuedAt)).seq (u64 e.deadline)
  have hgrants := (((htime.seq hceiling).seq (u32 e.grantedGainQ16)).seq
    (bool e.amplificationGranted)).seq (bool e.amplificationUsed)
  have hhead := (hgrants.seq (u32 e.maxDepthReached)).seq (bool e.truncated)
  have hhops := @DigestBuilder.Feeds.foldl _ _ _ 58 hopRecord e.hops
  have hsuppressed := @DigestBuilder.Feeds.foldl _ _ _ 29 suppressedRecord e.suppressed
  have hfinish := ((hhead.seq hhops).seq hsuppressed).finish
  simp only [List.cons_append, List.nil_append, List.append_assoc] at hfinish
  unfold fingerprintOf words headWords countedBytes
  simp only [List.foldl_cons, List.foldl_nil, List.cons_append, List.nil_append, List.append_assoc]
  exact hfinish

/-! ## Reading the words back -/

/-- A field of four bytes that holds its number. -/
theorem narrow_inj {n m : Nat} (hn : n < 4294967296) (hm : m < 4294967296)
    (h : UInt64.ofNat (n % 4294967296) = UInt64.ofNat (m % 4294967296)) : n = m :=
  count_inj (le_max_left n m) (le_max_right n m) (max_lt hn hm) h

theorem ofNat_toNat_inj {b b' : Bool} (h : UInt64.ofNat b.toNat = UInt64.ofNat b'.toNat) : b = b' := by
  revert h
  cases b <;> cases b' <;> decide

theorem reason_inj {r r' : SuppressionReason} (h : UInt64.ofNat r.toNat = UInt64.ofNat r'.toNat) :
    r = r' := by
  have hlt (r : SuppressionReason) : r.toNat < 4294967296 := by cases r <;> decide
  have hsame : r.ctorIdx = r'.ctorIdx := ofNat_inj_of_lt (hlt r) (hlt r') h
  revert hsame
  cases r <;> cases r' <;> decide

/-- The counts of the hop fit their fields. -/
structure HopRecord.Fits (h : HopRecord) : Prop where
  depth : h.depth < 4294967296
  gain : h.cumulativeGainQ16 < 4294967296

/-- The counts of the record fit their fields. -/
structure SuppressedEdgeRecord.Fits (s : SuppressedEdgeRecord) : Prop where
  depth : s.depth < 4294967296
  count : s.count < 4294967296

/-- The record without the number of edges it stands for. -/
def SuppressedEdgeRecord.uncounted (s : SuppressedEdgeRecord) : SuppressedEdgeRecord :=
  { s with count := 0 }

theorem HopRecord.words_injective {h h' : HopRecord} (hh : h.Fits) (hh' : h'.Fits)
    (hwords : h.words = h'.words) : h = h' := by
  obtain ⟨⟨src⟩, ⟨dst⟩, ⟨edge⟩, depth, attenuation, gain, before, after, cumulative, verdict, reason⟩ := h
  obtain ⟨⟨src'⟩, ⟨dst'⟩, ⟨edge'⟩, depth', attenuation', gain', before', after', cumulative', verdict',
    reason'⟩ := h'
  simp only [words, List.cons.injEq, true_and, and_true] at hwords
  obtain ⟨rfl, rfl, rfl, hdepth, hattenuation, hgain, hbefore, hafter, hcumulative, hverdict,
    hreason⟩ := hwords
  have hdepth : depth = depth' := narrow_inj hh.depth hh'.depth hdepth
  have hcumulative : cumulative = cumulative' := narrow_inj hh.gain hh'.gain hcumulative
  have hattenuation : attenuation = attenuation' :=
    Q16.ext (ofNat_inj_of_lt (lt_of_le_of_lt attenuation.le_one (by decide))
      (lt_of_le_of_lt attenuation'.le_one (by decide)) hattenuation)
  have hgain := ofNat_inj_of_lt (lt_of_le_of_lt gain.le_max (by decide))
    (lt_of_le_of_lt gain'.le_max (by decide)) hgain
  have hpotential {p q : Potential} (hpq : UInt64.ofNat p.raw = UInt64.ofNat q.raw) : p = q := by
    have hnat := congrArg UInt64.toNat hpq
    rw [UInt64.toNat_ofNat_of_lt' (lt_of_le_of_lt p.le_one (by decide)),
      UInt64.toNat_ofNat_of_lt' (lt_of_le_of_lt q.le_one (by decide))] at hnat
    cases p
    cases q
    cases hnat
    rfl
  have hverdict : verdict = verdict' := by
    revert hverdict
    cases verdict <;> cases verdict' <;> decide
  have hreason : reason = reason' := reason_inj hreason
  cases gain
  cases gain'
  cases hgain
  rw [hdepth, hattenuation, hpotential hbefore, hpotential hafter, hcumulative, hverdict, hreason]

theorem SuppressedEdgeRecord.words_injective {s s' : SuppressedEdgeRecord} (hs : s.Fits)
    (hs' : s'.Fits) (hwords : s.words = s'.words) : s.uncounted = s'.uncounted := by
  obtain ⟨⟨src⟩, ⟨dst⟩, ⟨edge⟩, depth, count, reason⟩ := s
  obtain ⟨⟨src'⟩, ⟨dst'⟩, ⟨edge'⟩, depth', count', reason'⟩ := s'
  simp only [words, List.cons.injEq, true_and, and_true] at hwords
  obtain ⟨rfl, rfl, rfl, hdepth, hreason⟩ := hwords
  have hdepth : depth = depth' := narrow_inj hs.depth hs'.depth hdepth
  have hreason : reason = reason' := reason_inj hreason
  rw [hdepth, hreason]
  rfl

/-- Records with the same counts differ in nothing that their words do not tell. -/
theorem SuppressedEdgeRecord.eq_of_uncounted {ss ss' : List SuppressedEdgeRecord}
    (h : ss.map uncounted = ss'.map uncounted) (hcounts : ss.map count = ss'.map count) :
    ss = ss' := by
  induction ss generalizing ss' with
  | nil =>
    rw [List.map_nil] at hcounts
    exact (List.map_eq_nil_iff.mp hcounts.symm).symm
  | cons s ss ih =>
    cases ss' with
    | nil => cases hcounts
    | cons s' ss' =>
      rw [List.map_cons, List.map_cons, List.cons.injEq] at hcounts h
      obtain ⟨hrecord, hrest⟩ := h
      obtain ⟨hcount, hrestCounts⟩ := hcounts
      have hsame : s = s' := by
        cases s
        cases s'
        simp only [uncounted, mk.injEq] at hrecord
        simp only [mk.injEq]
        simp only at hcount
        tauto
      rw [hsame, ih hrest hrestCounts]

namespace PropagationExplanation

/-- The counts of the explanation fit their fields. -/
structure Fits (e : PropagationExplanation) : Prop where
  gain : e.grantedGainQ16 < 4294967296
  depth : e.maxDepthReached < 4294967296
  hops : ∀ h ∈ e.hops, h.Fits
  suppressed : ∀ s ∈ e.suppressed, s.Fits

/-- All that the fingerprint is to cover: everything but the counters and the fingerprint itself,
the authority by its digest. -/
def covered (e : PropagationExplanation) : PropagationExplanation × Digest128 :=
  ({ e with authority := {}, counters := {}, fingerprint := {} }, e.authority.digest)

/-- The explanation without the numbers of refused edges. -/
def uncounted (e : PropagationExplanation) : PropagationExplanation :=
  { e with suppressed := e.suppressed.map SuppressedEdgeRecord.uncounted }

/-- The numbers of refused edges. -/
def counts (e : PropagationExplanation) : List Nat := e.suppressed.map SuppressedEdgeRecord.count

variable {e e' : PropagationExplanation}

@[simp] theorem length_headWords : e.headWords.length = 33 := by
  simp [headWords]

/-- The words before the records, and those from the records on. -/
theorem head_of_words (hwords : e.words = e'.words) : e.headWords = e'.headWords ∧
    e.hops.flatMap HopRecord.words ++ (e.suppressed.flatMap SuppressedEdgeRecord.words ++
        [e.countedBytes, 0x00FF00000000005A]) =
      e'.hops.flatMap HopRecord.words ++ (e'.suppressed.flatMap SuppressedEdgeRecord.words ++
        [e'.countedBytes, 0x00FF00000000005A]) := by
  unfold words at hwords
  simp only [List.append_assoc] at hwords
  exact List.append_inj hwords (length_headWords.trans length_headWords.symm)

/-- The records of the two kinds end where the width of the seventh word changes. -/
theorem records_of_words (hwords : e.words = e'.words) :
    e.hops.map HopRecord.words = e'.hops.map HopRecord.words ∧
      e.suppressed.map SuppressedEdgeRecord.words =
        e'.suppressed.map SuppressedEdgeRecord.words := by
  have hend (ss : List SuppressedEdgeRecord) (n : UInt64) :
      (ss.flatMap SuppressedEdgeRecord.words ++ [n, 0x00FF00000000005A])[6]? ≠
        some 0xFF00000000000004 := by
    cases ss with
    | nil =>
      intro h
      cases h
    | cons s ss =>
      intro h
      exact absurd (Option.some.inj h) (by decide)
  have hlast (n : UInt64) : ([n, 0x00FF00000000005A] : List UInt64)[6]? ≠
      some 0xFF00000000000001 := by
    intro h
    cases h
  obtain ⟨hhops, hrest⟩ := @Lib.Records.flatMap_told _ _ HopRecord.words e.hops e'.hops _ _ 17
    (fun l => l[6]? = some 0xFF00000000000004) (fun _ => rfl) (fun _ _ => rfl) (hend _ _) (hend _ _)
    (head_of_words hwords).2
  obtain ⟨hsuppressed, -⟩ := @Lib.Records.flatMap_told _ _ SuppressedEdgeRecord.words e.suppressed
    e'.suppressed _ _ 7 (fun l => l[6]? = some 0xFF00000000000001) (fun _ => rfl) (fun _ _ => rfl)
    (hlast _) (hlast _) hrest
  exact ⟨hhops, hsuppressed⟩

/-- The words determine everything but the numbers of refused edges. -/
theorem covered_of_words (he : e.Fits) (he' : e'.Fits) (hwords : e.words = e'.words) :
    e.uncounted.covered = e'.uncounted.covered := by
  obtain ⟨hhops, hsuppressed⟩ := records_of_words hwords
  have hhops : e.hops = e'.hops := by
    have hmap := @Lib.Records.map_of_map _ _ HopRecord.words e.hops e'.hops _ (fun h => h) hhops
      fun h hh h' hh' => HopRecord.words_injective (he.hops h hh) (he'.hops h' hh')
    rwa [List.map_id', List.map_id'] at hmap
  have hsuppressed := @Lib.Records.map_of_map _ _ SuppressedEdgeRecord.words e.suppressed
    e'.suppressed _ SuppressedEdgeRecord.uncounted hsuppressed fun s hs s' hs' =>
      SuppressedEdgeRecord.words_injective (he.suppressed s hs) (he'.suppressed s' hs')
  have hhead := (head_of_words hwords).1
  simp only [headWords, List.cons.injEq, true_and, and_true] at hhead
  obtain ⟨hid, hsignal, hsource, horigin, hseverity, hmagnitude, hlhi, hllo, hthi, htlo, hgeneration,
    hepoch, hahi, halo, hissued, hdeadline, hceiling, hgain, hgranted, hused, hdepth, htruncated⟩ :=
    hhead
  have hseverity : e.sourceSeverity = e'.sourceSeverity := by
    revert hseverity
    cases e.sourceSeverity <;> cases e'.sourceSeverity <;> decide
  have hmagnitude (m m' : Magnitude) (h : UInt64.ofNat m.raw = UInt64.ofNat m'.raw) : m = m' :=
    Q16.ext (ofNat_inj_of_lt (lt_of_le_of_lt m.le_one (by decide))
      (lt_of_le_of_lt m'.le_one (by decide)) h)
  simp only [covered, uncounted, Prod.mk.injEq, mk.injEq]
  exact ⟨⟨StrongId.ext hid, StrongId.ext hsignal, StrongId.ext hsource, StrongId.ext horigin, hseverity,
    hmagnitude _ _ ‹_›, Digest128.ext hlhi hllo, Digest128.ext hthi htlo, Generation.ext hgeneration,
    Epoch.ext hepoch, trivial, hissued, hdeadline, hmagnitude _ _ hceiling,
    narrow_inj he.gain he'.gain hgain, ofNat_toNat_inj hgranted, ofNat_toNat_inj hused,
    narrow_inj he.depth he'.depth hdepth, hhops, hsuppressed, ofNat_toNat_inj htruncated, trivial,
    trivial⟩, Digest128.ext hahi halo⟩

/-- Two explanations with the same words are the same up to the numbers of refused edges. -/
theorem covered_iff_counts (he : e.Fits) (he' : e'.Fits) (hwords : e.words = e'.words) :
    e.covered = e'.covered ↔ e.counts = e'.counts := by
  have hrest := covered_of_words he he' hwords
  constructor
  · intro h
    have hsuppressed := congrArg (fun c => c.1.suppressed) h
    change e.suppressed = e'.suppressed at hsuppressed
    rw [counts, counts, hsuppressed]
  · intro hcounts
    have huncounted := congrArg (fun c => c.1.suppressed) hrest
    change e.suppressed.map _ = e'.suppressed.map _ at huncounted
    have hsuppressed := SuppressedEdgeRecord.eq_of_uncounted huncounted hcounts
    have hrebuild (e : PropagationExplanation) : e.covered =
        ({ e.uncounted.covered.1 with suppressed := e.suppressed }, e.uncounted.covered.2) := rfl
    rw [hrebuild e, hrebuild e', hrest, hsuppressed]

/-- The explanation with another number of edges in its first record of refused edges. -/
def recount (e : PropagationExplanation) (n : Nat) : PropagationExplanation :=
  { e with suppressed := e.suppressed.modifyHead fun s => { s with count := n } }

@[simp] theorem words_recount (n : Nat) : (e.recount n).words = e.words := by
  have hsuppressed : (e.recount n).suppressed.flatMap SuppressedEdgeRecord.words =
      e.suppressed.flatMap SuppressedEdgeRecord.words := by
    unfold recount
    cases e.suppressed <;> rfl
  have hlength : (e.recount n).suppressed.length = e.suppressed.length := List.length_modifyHead
  unfold words countedBytes
  rw [hsuppressed, hlength]
  rfl

theorem Fits.recount (he : e.Fits) {n : Nat} (hn : n < 4294967296) : (e.recount n).Fits where
  gain := he.gain
  depth := he.depth
  hops := he.hops
  suppressed := by
    have hfits := he.suppressed
    unfold PropagationExplanation.recount
    cases hs : e.suppressed with
    | nil =>
      intro s hmem
      cases hmem
    | cons first rest =>
      rw [hs] at hfits
      intro s hmem
      rcases List.mem_cons.mp hmem with rfl | hmem
      · exact ⟨(hfits first List.mem_cons_self).depth, hn⟩
      · exact hfits s (List.mem_cons_of_mem first hmem)

/-- The words of the explanation determine all that they are to cover. -/
def Determined (e : PropagationExplanation) : Prop :=
  ∀ e' : PropagationExplanation, e'.Fits → e.words = e'.words → e.covered = e'.covered

/-- The fingerprint of the explanation does, where it does not collide. -/
def Committed (e : PropagationExplanation) : Prop :=
  ∀ e' : PropagationExplanation, e'.Fits → PressureSignal.Apart e.words e'.words →
    e.finalize.fingerprint = e'.finalize.fingerprint → e.covered = e'.covered

theorem fingerprint_finalize : e.finalize.fingerprint = digestOfWords e.words := e.fingerprintOf_eq

/-- Whoever tells the explanation from every other one has no record of refused edges. -/
theorem suppressed_of_told
    (htold : ∀ n < 4294967296, e.covered = (e.recount n).covered) : e.suppressed = [] := by
  cases hs : e.suppressed with
  | nil => rfl
  | cons s ss =>
    have hcount (n : Nat) (hn : n < 4294967296) : s.count = n := by
      have h := congrArg (fun c => c.1.suppressed) (htold n hn)
      change e.suppressed = e.suppressed.modifyHead _ at h
      rw [hs] at h
      exact congrArg SuppressedEdgeRecord.count (List.cons.inj h).1
    have hzero := hcount 0 (by decide)
    have hone := hcount 1 (by decide)
    omega

/-- The words of an explanation, and its fingerprint where it does not collide, determine all of
the explanation exactly when there is no record of refused edges; two explanations with the same
words differ at most in how many edges such records stand for. -/
theorem fingerprint_covers_iff (e : PropagationExplanation) (he : e.Fits) :
    (e.Determined ↔ e.suppressed = []) ∧ (e.Committed ↔ e.suppressed = []) ∧
      ∀ e' : PropagationExplanation, e'.Fits → e.words = e'.words →
        e.uncounted.covered = e'.uncounted.covered ∧
          (e.covered = e'.covered ↔ e.counts = e'.counts) := by
  have hdetermined (hnone : e.suppressed = []) : e.Determined := by
    intro e' he' hwords
    have hlength := congrArg List.length (records_of_words hwords).2
    rw [List.length_map, List.length_map, hnone, List.length_nil] at hlength
    have hnone' : e'.suppressed = [] := List.eq_nil_of_length_eq_zero hlength.symm
    refine (covered_iff_counts he he' hwords).mpr ?_
    rw [counts, counts, hnone, hnone']
  refine ⟨⟨fun h => ?_, hdetermined⟩, ⟨fun h => ?_, fun hnone e' he' hapart heq => ?_⟩,
    fun e' he' hwords => ⟨covered_of_words he he' hwords, covered_iff_counts he he' hwords⟩⟩
  · exact suppressed_of_told fun n hn => h _ (he.recount hn) (words_recount n).symm
  · refine suppressed_of_told fun n hn => h _ (he.recount hn) (fun _ => (words_recount n).symm) ?_
    rw [fingerprint_finalize, fingerprint_finalize, words_recount]
  · rw [fingerprint_finalize, fingerprint_finalize] at heq
    exact hdetermined hnone e' he' (hapart heq)

/-- An explanation of a single hop. -/
theorem fingerprint_covers_hop :
    let hop : HopRecord :=
      { src := ⟨1⟩, dst := ⟨2⟩, edge := ⟨1⟩, depth := 0, attenuation := .one, gain := .unity,
        potentialBefore := .zero, potentialAfter := .zero, cumulativeGainQ16 := 65536,
        verdict := .propagated, reason := .noReason }
    Determined { hops := [hop] } ∧ Committed { hops := [hop] } := by
  intro hop
  have hfits : Fits { hops := [hop] } :=
    { gain := by decide
      depth := by decide
      hops := fun h hh => List.mem_singleton.mp hh ▸ ⟨by decide, by decide⟩
      suppressed := fun s hs => nomatch hs }
  obtain ⟨hdetermined, hcommitted, -⟩ := fingerprint_covers_iff { hops := [hop] } hfits
  exact ⟨hdetermined.mpr rfl, hcommitted.mpr rfl⟩

/-- One refused edge and two refused edges have one fingerprint. -/
theorem refusals_miscounted :
    let refused (n : Nat) : PropagationExplanation :=
      { suppressed := [⟨⟨1⟩, ⟨2⟩, ⟨1⟩, 0, n, .maxFanout⟩] }
    (refused 1).Fits ∧ (refused 2).Fits ∧ (refused 1).words = (refused 2).words ∧
      (refused 1).finalize.fingerprint = (refused 2).finalize.fingerprint ∧
      (refused 1).covered ≠ (refused 2).covered := by
  intro refused
  have hfits (n : Nat) (hn : n < 4294967296) : (refused n).Fits :=
    { gain := show 65536 < 4294967296 by decide
      depth := show 0 < 4294967296 by decide
      hops := fun h hh => nomatch hh
      suppressed := fun s hs =>
        List.mem_singleton.mp hs ▸ ⟨show 0 < 4294967296 by decide, hn⟩ }
  have hwords : (refused 1).words = (refused 2).words := (@words_recount (refused 1) 2).symm
  refine ⟨hfits 1 (by decide), hfits 2 (by decide), hwords, ?_, ?_⟩
  · rw [fingerprint_finalize, fingerprint_finalize, hwords]
  · intro h
    have hcount := congrArg (fun c => c.1.suppressed) h
    exact absurd hcount (by decide)

end PropagationExplanation

end Backpressure
