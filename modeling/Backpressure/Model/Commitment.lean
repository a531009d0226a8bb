import Backpressure.Core.Words
import Backpressure.Lib.Records
import Backpressure.Model.EdgeIds

/-!
# What the digest of a topology commits to

The words that `Topology::build` feeds to its digest can be read back: a resource and an edge are
records of a fixed number of words under a mark of their kind. In front of that the canonical order
makes a topology of a set of declarations, in whatever order they are given.
-/

namespace Backpressure

/-- The words of `Resource::digest_into`. -/
def Resource.words (r : Resource) : List UInt64 :=
  [0x00FF000000000030, r.id.value, .ofNat r.name.toNat, 0xFF00000000000004,
    .ofNat r.klass.toNat, 0xFF00000000000001, .ofNat r.protection.toNat, 0xFF00000000000001,
    0x00FF000000000012, r.definitionGeneration.value, .ofNat r.acceptsPropagation.toNat,
    0xFF00000000000001, r.provenance.hi, r.provenance.lo]

/-- The words of `DependencyEdge::digest_into`. -/
def DependencyEdge.words (e : DependencyEdge) : List UInt64 :=
  [0x00FF000000000040, e.id.value, e.src.value, e.dst.value, .ofNat e.attenuation.raw,
    0xFF00000000000004, .ofNat e.amplification.raw, 0xFF00000000000004, .ofNat e.maxHops.toNat,
    0xFF00000000000004, 0x00FF000000000012, e.dependencyGeneration.value, e.cooldownTicks,
    .ofNat e.priority.toNat, 0xFF00000000000002, .ofNat e.flags.bits.toNat, 0xFF00000000000002,
    e.provenance.hi, e.provenance.lo]

namespace DigestBuilder.Feeds

theorem generation (g : Generation) :
    Feeds (fun b => digestGeneration b g) [0x00FF000000000012, g.value] 8 :=
  (domain 0x12).seq (u64 g.value)

theorem resource (r : Resource) : Feeds (fun b => r.digestInto b) r.words 39 := by
  have hname := u32 r.name.toNat
  rw [Nat.mod_eq_of_lt r.name.toNat_lt] at hname
  have hklass := @u8 r.klass.toNat (by cases r.klass <;> decide)
  have hprotection := @u8 r.protection.toNat (by cases r.protection <;> decide)
  exact (((((((domain 0x30).seq (u64 r.id.value)).seq hname).seq hklass).seq hprotection).seq
    (generation r.definitionGeneration)).seq (bool r.acceptsPropagation)).seq (digest r.provenance)

theorem edge (e : DependencyEdge) : Feeds (fun b => e.digestInto b) e.words 72 := by
  have hattenuation := u32 e.attenuation.raw
  have hgain := u32 e.amplification.raw
  have hhops := u32 e.maxHops.toNat
  rw [Nat.mod_eq_of_lt (lt_of_le_of_lt e.attenuation.le_one (by decide))] at hattenuation
  rw [Nat.mod_eq_of_lt (lt_of_le_of_lt e.amplification.le_max (by decide))] at hgain
  rw [Nat.mod_eq_of_lt e.maxHops.toNat_lt] at hhops
  have hids := (((domain 0x40).seq (u64 e.id.value)).seq (u64 e.src.value)).seq (u64 e.dst.value)
  exact (((((((hids.seq hattenuation).seq hgain).seq hhops).seq (generation e.dependencyGeneration)).seq
    (u64 e.cooldownTicks)).seq (u16 e.priority)).seq (u16 e.flags.bits)).seq (digest e.provenance)

end DigestBuilder.Feeds

/-! ## Reading the words back -/

theorem ofNat_inj_of_lt {x y : Nat} (hx : x < 4294967296) (hy : y < 4294967296)
    (h : UInt64.ofNat x = UInt64.ofNat y) : x = y := by
  have hnat := congrArg UInt64.toNat h
  rwa [UInt64.toNat_ofNat_of_lt' (hx.trans (by decide)),
    UInt64.toNat_ofNat_of_lt' (hy.trans (by decide))] at hnat

theorem fixed_resource : Lib.Records.Fixed Resource.words 14 where
  length _ := rfl
  injective := by
    rintro ⟨id, name, klass, protection, generation, accepts, provenance⟩
      ⟨id', name', klass', protection', generation', accepts', provenance'⟩ h
    simp only [Resource.words, List.cons.injEq, true_and, and_true] at h
    obtain ⟨hid, hname, hklass, hprotection, hgeneration, haccepts, hhi, hlo⟩ := h
    have hname := UInt32.toNat_inj.mp (ofNat_inj_of_lt name.toNat_lt name'.toNat_lt hname)
    have hklass : klass = klass' := by
      revert hklass
      cases klass <;> cases klass' <;> decide
    have hprotection : protection = protection' := by
      revert hprotection
      cases protection <;> cases protection' <;> decide
    have haccepts : accepts = accepts' := by
      revert haccepts
      cases accepts <;> cases accepts' <;> decide
    cases id; cases id'; cases generation; cases generation'; cases provenance; cases provenance'
    cases hid; cases hname; cases hklass; cases hprotection; cases hgeneration; cases haccepts
    cases hhi; cases hlo
    rfl

theorem fixed_edge : Lib.Records.Fixed DependencyEdge.words 19 where
  length _ := rfl
  injective := by
    rintro ⟨id, src, dst, attenuation, gain, hops, generation, cooldown, priority, flags, provenance⟩
      ⟨id', src', dst', attenuation', gain', hops', generation', cooldown', priority', flags',
        provenance'⟩ h
    simp only [DependencyEdge.words, List.cons.injEq, true_and, and_true] at h
    obtain ⟨hid, hsrc, hdst, hattenuation, hgain, hhops, hgeneration, hcooldown, hpriority, hflags,
      hhi, hlo⟩ := h
    have hattenuation := ofNat_inj_of_lt (lt_of_le_of_lt attenuation.le_one (by decide))
      (lt_of_le_of_lt attenuation'.le_one (by decide)) hattenuation
    have hgain := ofNat_inj_of_lt (lt_of_le_of_lt gain.le_max (by decide))
      (lt_of_le_of_lt gain'.le_max (by decide)) hgain
    have hhops := UInt32.toNat_inj.mp (ofNat_inj_of_lt hops.toNat_lt hops'.toNat_lt hhops)
    have hpriority := UInt16.toNat_inj.mp (ofNat_inj_of_lt (priority.toNat_lt.trans (by decide))
      (priority'.toNat_lt.trans (by decide)) hpriority)
    have hflags := UInt16.toNat_inj.mp (ofNat_inj_of_lt (flags.bits.toNat_lt.trans (by decide))
      (flags'.bits.toNat_lt.trans (by decide)) hflags)
    cases id; cases id'; cases src; cases src'; cases dst; cases dst'
    cases attenuation; cases attenuation'; cases gain; cases gain'; cases generation
    cases generation'; cases flags; cases flags'; cases provenance; cases provenance'
    cases hid; cases hsrc; cases hdst; cases hattenuation; cases hgain; cases hhops
    cases hgeneration; cases hcooldown; cases hpriority; cases hflags; cases hhi; cases hlo
    rfl

namespace Topology

variable {rs rs' : List Resource} {es es' : List DependencyEdge}

/-- The words of a list of resources and edges, in front of the number of their bytes. -/
def declaredWords (rs : List Resource) (es : List DependencyEdge) : List UInt64 :=
  [0x00FF000000000060, .ofNat (rs.length % 4294967296), 0xFF00000000000004] ++
    rs.flatMap Resource.words ++
    [.ofNat (es.length % 4294967296), 0xFF00000000000004] ++ es.flatMap DependencyEdge.words

/-- The whole stream of words of the digest of a topology: the number of bytes and a separator
finish it. -/
def digestWords (rs : List Resource) (es : List DependencyEdge) : List UInt64 :=
  declaredWords rs es ++
    [.ofNat (rs.length * 39 + es.length * 72 + 8), 0x00FF00000000005A]

theorem digestOf_eq (rs : List Resource) (es : List DependencyEdge) :
    digestOf rs es = digestOfWords (digestWords rs es) := by
  have hresources := @DigestBuilder.Feeds.foldl _ _ _ 39 DigestBuilder.Feeds.resource rs
  have hedges := @DigestBuilder.Feeds.foldl _ _ _ 72 DigestBuilder.Feeds.edge es
  have hall := ((((DigestBuilder.Feeds.domain 0x60).seq (DigestBuilder.Feeds.u32 rs.length)).seq
    hresources).seq (DigestBuilder.Feeds.u32 es.length)).seq hedges
  have hcount : (0 + 4 + UInt64.ofNat (rs.length * 39) + 4 + .ofNat (es.length * 72) : UInt64) =
      .ofNat (rs.length * 39 + es.length * 72 + 8) := by
    rw [UInt64.ofNat_add, UInt64.ofNat_add]
    show 4 + _ + 4 + _ = _ + _ + (4 + 4 : UInt64)
    ac_rfl
  rw [hcount] at hall
  exact hall.finish

/-- The words determine every resource and every edge. -/
theorem declaredWords_injective {r r' : List UInt64} (hr : r.length = r'.length)
    (h : declaredWords rs es ++ r = declaredWords rs' es' ++ r') : rs = rs' ∧ es = es' := by
  unfold declaredWords at h
  simp only [List.append_assoc, List.cons_append, List.nil_append, List.cons.injEq, true_and] at h
  obtain ⟨-, hrest⟩ := h
  have hmark (n : Nat) (rest : List UInt64) :
      (UInt64.ofNat (n % 4294967296) :: rest).head? ≠ some 0x00FF000000000030 := by
    intro h
    have hnat := congrArg UInt64.toNat (Option.some.inj h)
    rw [UInt64.toNat_ofNat_of_lt' ((Nat.mod_lt n (by decide)).trans (by decide))] at hnat
    have hlt := Nat.mod_lt n (show 0 < 4294967296 by decide)
    rw [hnat] at hlt
    exact absurd hlt (by decide)
  obtain ⟨rfl, htail⟩ := fixed_resource.flatMap_marked (fun _ => rfl) (hmark _ _) (hmark _ _) hrest
  refine ⟨rfl, ?_⟩
  simp only [List.cons.injEq, true_and] at htail
  have hlength : es.length = es'.length := by
    have hlen := congrArg List.length htail.2
    rw [List.length_append, List.length_append, fixed_edge.length_flatMap,
      fixed_edge.length_flatMap] at hlen
    omega
  exact (fixed_edge.flatMap_injective hlength htail.2).1

theorem digestWords_injective (h : digestWords rs es = digestWords rs' es') : rs = rs' ∧ es = es' :=
  declaredWords_injective (by rfl) h

/-! ## The canonical order -/

/-- Lists in order that hold the same elements under different keys are the same. -/
theorem eq_of_sorted {α κ : Type} {key : α → κ} {r : α → α → Prop} {l l' : List α}
    (hkeys : (l.map key).Nodup) (hsame : ∀ a b, r a b → r b a → key a = key b)
    (hl : l.Pairwise r) (hl' : l'.Pairwise r) (hperm : l'.Perm l) : l' = l :=
  hperm.eq_of_pairwise (fun a b ha hb hab hba =>
    List.inj_on_of_nodup_map hkeys (hperm.mem_iff.mp ha) hb (hsame a b hab hba)) hl' hl

theorem sortById_of_perm (hperm : rs.Perm rs')
    (hdistinct : firstDuplicate Resource.id (sortById rs) = none) : sortById rs' = sortById rs := by
  have hascending := ascending_of_sorted (sorted_sortById rs) hdistinct
  have hkeys : ((sortById rs).map Resource.id).Nodup := by
    apply List.pairwise_map.mpr
    apply hascending.imp
    intro a b hab heq
    rw [heq, StrongId.lt_iff] at hab
    exact absurd hab (lt_irrefl _)
  refine eq_of_sorted hkeys ?_ (sorted_sortById rs) (sorted_sortById rs') ?_
  · intro a b hab hba
    rw [StrongId.le_iff] at hab hba
    exact StrongId.ext_toNat (by omega)
  · exact ((List.perm_insertionSort _ rs').trans hperm.symm).trans (List.perm_insertionSort _ rs).symm

/-- Edges that precede neither each other have the same key. -/
theorem edgeKey_of_ties {a b : DependencyEdge} (hab : b.precedes a = false)
    (hba : a.precedes b = false) : edgeKey a = edgeKey b := by
  rw [not_precedes_iff] at hab hba
  unfold edgeKey
  rcases hab with hab | ⟨hpriority, hab⟩
  · rcases hba with hba | ⟨hpriority, -⟩
    · omega
    · rw [hpriority] at hab
      omega
  · rcases hba with hba | ⟨-, hba⟩
    · rw [hpriority] at hba
      omega
    · rcases hab with hab | ⟨hdst, hab⟩
      · rcases hba with hba | ⟨hdst, -⟩
        · omega
        · rw [hdst] at hab
          omega
      · rcases hba with hba | ⟨-, hba⟩
        · rw [hdst] at hba
          omega
        · rw [hpriority, hdst, StrongId.ext_toNat (show a.id.value.toNat = b.id.value.toNat by omega)]

theorem sortEdges_of_perm (hperm : es.Perm es')
    (hdistinct : firstDuplicate DependencyEdge.id (sortEdges es) = none) :
    sortEdges es' = sortEdges es := by
  refine eq_of_sorted (edgeKeys_nodup (sorted_sortEdges es) hdistinct)
    (fun a b => edgeKey_of_ties) (sorted_sortEdges es) (sorted_sortEdges es') ?_
  exact ((List.perm_insertionSort _ es').trans hperm.symm).trans (List.perm_insertionSort _ es).symm

theorem validateAll_ok {α : Type} {validate : α → Status} {l : List α} :
    validateAll validate l = .ok () ↔ ∀ a ∈ l, (validate a).ok = true := by
  induction l with
  | nil => simp [validateAll]
  | cons a rest ih =>
    rw [validateAll]
    by_cases ha : (validate a).ok = true
    · rw [if_pos ha, ih, List.forall_mem_cons]
      exact ⟨fun h => ⟨ha, h⟩, And.right⟩
    · rw [if_neg ha, List.forall_mem_cons]
      exact ⟨fun h => (by cases h), fun h => absurd h.1 ha⟩

/-- A list of declarations in another order builds the same topology. -/
theorem build_of_perm {limits : TopologyLimits} {allowCycles : Bool} {topo : Topology}
    (hresources : rs.Perm rs') (hedges : es.Perm es')
    (h : build rs es limits allowCycles = .ok topo) : build rs' es' limits allowCycles = .ok topo := by
  have hvalidate {α : Type} {validate : α → Status} {l l' : List α} (hperm : l.Perm l')
      (h : validateAll validate l = .ok ()) : validateAll validate l' = .ok () :=
    validateAll_ok.mpr fun a ha => validateAll_ok.mp h a (hperm.mem_iff.mpr ha)
  unfold build at h ⊢
  rw [← hresources.length_eq, ← hedges.length_eq]
  split at h
  · cases h
  case isFalse hlimits =>
    rw [if_neg hlimits]
    split at h
    · cases h
    case isFalse hcount =>
      rw [if_neg hcount]
      split at h
      · cases h
      case isFalse hedgeCount =>
        rw [if_neg hedgeCount]
        split at h
        · cases h
        case h_2 hvalid =>
          rw [hvalidate hresources hvalid]
          dsimp only at h ⊢
          split at h
          · cases h
          case h_2 hdistinct =>
            have hsorted := sortById_of_perm hresources hdistinct
            split at h
            · cases h
            case h_2 hvalidEdges =>
              split at h
              · cases h
              case h_2 hdistinctEdges =>
                have hsortedEdges := sortEdges_of_perm hedges hdistinctEdges
                unfold sortEdges at hsortedEdges
                split
                case h_1 hsome =>
                  rw [hsorted, hdistinct] at hsome
                  cases hsome
                case h_2 =>
                  rw [hvalidate hedges hvalidEdges]
                  dsimp only
                  simp only [hsortedEdges, hdistinctEdges, hsorted]
                  exact h

theorem digest_of_assemble {limits : TopologyLimits} {allowCycles : Bool} {topo : Topology}
    {ascending : rs.Pairwise fun a b => a.id < b.id}
    (h : assemble rs es limits allowCycles ascending = .ok topo) :
    topo.digest = digestOf topo.resources topo.edges := by
  unfold assemble at h
  dsimp only at h
  split at h
  · cases h
  · split at h
    · cases h
    · cases h
      rfl

theorem digest_of_built {topo : Topology} (h : topo.Built) :
    topo.digest = digestOfWords (digestWords topo.resources topo.edges) := by
  obtain ⟨resources, edges, limits, allowCycles, hbuild⟩ := h
  rw [(declared_of_build hbuild).build_eq] at hbuild
  rw [digest_of_assemble hbuild, digestOf_eq]

/-- The topology and its digest are those of the declarations as sets: their order does not matter,
the words of the digest determine every one of them, and so does the digest where it does not
collide on these words. -/
theorem digest_canonical :
    (∀ (rs rs' : List Resource) (es es' : List DependencyEdge) (limits : TopologyLimits)
      (allowCycles : Bool), rs.Perm rs' → es.Perm es' →
      (∃ st st', build rs es limits allowCycles = .error st ∧
        build rs' es' limits allowCycles = .error st') ∨
      ∃ topo, build rs es limits allowCycles = .ok topo ∧
        build rs' es' limits allowCycles = .ok topo) ∧
    (∀ topo : Topology, topo.Built →
      topo.digest = digestOfWords (digestWords topo.resources topo.edges)) ∧
    (∀ (rs rs' : List Resource) (es es' : List DependencyEdge),
      digestWords rs es = digestWords rs' es' → rs = rs' ∧ es = es') ∧
    ∀ topo topo' : Topology, topo.Built → topo'.Built →
      (digestOfWords (digestWords topo.resources topo.edges) =
          digestOfWords (digestWords topo'.resources topo'.edges) →
        digestWords topo.resources topo.edges = digestWords topo'.resources topo'.edges) →
      topo.digest = topo'.digest → topo.resources = topo'.resources ∧ topo.edges = topo'.edges := by
  refine ⟨?_, fun _ => digest_of_built, fun _ _ _ _ => digestWords_injective, ?_⟩
  · intro rs rs' es es' limits allowCycles hresources hedges
    cases h : build rs es limits allowCycles with
    | ok topo => exact .inr ⟨topo, rfl, build_of_perm hresources hedges h⟩
    | error st =>
      cases h' : build rs' es' limits allowCycles with
      | error st' => exact .inl ⟨st, st', rfl, rfl⟩
      | ok topo =>
        have hback := build_of_perm hresources.symm hedges.symm h'
        rw [h] at hback
        cases hback
  · intro topo topo' hbuilt hbuilt' hfree heq
    rw [digest_of_built hbuilt, digest_of_built hbuilt'] at heq
    exact digestWords_injective (hfree heq)

/-- Two resources, declared in either order. -/
theorem swapped_canonical :
    let a : Resource := { id := ⟨1⟩, definitionGeneration := ⟨1⟩ }
    let b : Resource := { id := ⟨2⟩, definitionGeneration := ⟨1⟩ }
    ∃ topo, build [b, a] [] {} true = .ok topo ∧ build [a, b] [] {} true = .ok topo ∧
      topo.resources = [a, b] := by
  intro a b
  have hbuilt : (build [a, b] [] {} true).toOption.map Topology.resources = some [a, b] := by
    decide +kernel
  obtain ⟨topo, hok, hresources⟩ := Option.map_eq_some_iff.mp hbuilt
  have hcanonical := digest_canonical.1 [b, a] [a, b] [] [] {} true (List.Perm.swap _ _ _)
    (List.Perm.refl _)
  rcases hcanonical with ⟨_, _, -, herror⟩ | ⟨topo', hswapped, hsame⟩
  · rw [herror] at hok
    cases hok
  · rw [hsame] at hok
    obtain rfl := Option.some.inj hok
    exact ⟨topo', hswapped, hsame, hresources⟩

end Topology

end Backpressure
