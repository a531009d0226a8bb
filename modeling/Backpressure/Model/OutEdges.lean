import Backpressure.Lib.Buckets
import Backpressure.Model.TopologyBuild

/-!
# The out-edge lists of a built topology

The compressed lists of `Topology::build` sort the edges into one bucket per source. Each list
holds exactly the edges that leave its resource, each once, so the lists of two resources share
no edge.
-/

namespace Backpressure

namespace Topology

variable {topo : Topology} {resources : List Resource} {edges : List DependencyEdge}

/-- The out-edge lists hold the edges by their source. -/
structure Indexed (topo : Topology) : Prop where
  mem_iff : ∀ i e, e ∈ topo.outEdgeIndicesAt i ↔
    ∃ edge, topo.edgeAt e = some edge ∧ topo.indexOf edge.src = some i
  nodup : ∀ i, (topo.outEdgeIndicesAt i).Nodup
  target : ∀ e edge, topo.edgeAt e = some edge → ∃ j, topo.indexOf edge.dst = some j

/-- Each edge index under the index of its source. -/
def sourced (resources : List Resource) (edges : List DependencyEdge) : List (Nat × Nat) :=
  edges.zipIdx.map fun e => (indexIn resources e.1.src, e.2)

theorem outDegrees_eq :
    outDegrees resources edges = Lib.Buckets.degrees resources.length (sourced resources edges) := by
  unfold outDegrees Lib.Buckets.degrees sourced bump
  rw [List.foldl_map]
  generalize List.replicate resources.length 0 = d
  generalize hk : 0 = k
  clear hk
  induction edges generalizing d k with
  | nil => rfl
  | cons e rest ih => exact ih _ (k + 1)

theorem getElem?_offsets {s : Nat} : (offsets (outDegrees resources edges))[s]? =
    if s ≤ resources.length then
      some (Lib.Buckets.start resources.length (sourced resources edges) s) else none := by
  rw [offsets, Lib.Buckets.getElem?_scanl_add, outDegrees_eq, Lib.Buckets.length_degrees,
    Nat.zero_add, Lib.Buckets.start]

theorem placeEdges_eq {cursors : List Nat} : placeEdges resources edges cursors =
    ((sourced resources edges).foldl Lib.Buckets.put
      (List.replicate edges.length 0, cursors.dropLast)).1 := by
  unfold placeEdges sourced
  rw [List.foldl_map]
  rfl

theorem mem_sourced {i e : Nat} : (i, e) ∈ sourced resources edges ↔
    ∃ edge, edges[e]? = some edge ∧ indexIn resources edge.src = i := by
  unfold sourced
  simp only [List.mem_map, Prod.mk.injEq, Prod.exists, List.mem_zipIdx_iff_getElem?]
  constructor
  · rintro ⟨edge, e', he, hi, rfl⟩
    exact ⟨edge, he, hi⟩
  · rintro ⟨edge, he, hi⟩
    exact ⟨edge, e, he, hi, rfl⟩

theorem members_ascending {i : Nat} :
    (Lib.Buckets.members (sourced resources edges) i).Pairwise (· < ·) := by
  have hmap : (sourced resources edges).map Prod.snd = List.range edges.length := by
    unfold sourced
    rw [List.map_map]
    exact (List.zipIdx_map_snd 0 edges).trans (List.range_eq_range' ..).symm
  have hsub : (Lib.Buckets.members (sourced resources edges) i).Sublist
      ((sourced resources edges).map Prod.snd) := List.filter_sublist.map _
  rw [hmap] at hsub
  exact List.pairwise_lt_range.sublist hsub

theorem hasResource_iff {id : ResourceId} : hasResource resources id = true ↔
    ∃ i, (resources.findIdx? fun r => r.id == id) = some i ∧ indexIn resources id = i ∧
      i < resources.length := by
  unfold hasResource indexIn
  rw [← List.findIdx?_isSome]
  constructor
  · intro h
    obtain ⟨i, hi⟩ := Option.isSome_iff_exists.mp h
    refine ⟨i, hi, by rw [hi]; rfl, ?_⟩
    exact (List.findIdx?_eq_some_iff_getElem.mp hi).1
  · rintro ⟨i, hi, -⟩
    rw [hi]
    rfl

theorem endpoints_of_check {l : List DependencyEdge} (h : checkEndpoints resources l = .ok ()) :
    ∀ e ∈ l, hasResource resources e.src = true ∧ hasResource resources e.dst = true := by
  induction l with
  | nil => simp
  | cons e rest ih =>
    unfold checkEndpoints at h
    split at h
    · cases h
    case isFalse hsrc =>
      split at h
      · cases h
      case isFalse hdst =>
        intro x hx
        rcases List.mem_cons.mp hx with rfl | hx
        · exact ⟨by simpa using hsrc, by simpa using hdst⟩
        · exact ih h x hx

/-- What `assemble` leaves in the fields that a traversal walks. -/
structure Laid (topo : Topology) (rs : List Resource) (es : List DependencyEdge) : Prop where
  resources : topo.resources = rs
  edges : topo.edges = es
  outOffsets : topo.outOffsets = offsets (outDegrees rs es)
  outEdgeIndices : topo.outEdgeIndices = placeEdges rs es (offsets (outDegrees rs es))

theorem laid_of_assemble {limits : TopologyLimits} {allowCycles : Bool}
    {ascending : resources.Pairwise fun a b => a.id < b.id}
    (h : assemble resources edges limits allowCycles ascending = .ok topo) :
    topo.Laid resources edges := by
  unfold assemble at h
  dsimp only at h
  split at h
  · cases h
  · split at h
    · cases h
    · cases h
      exact ⟨rfl, rfl, rfl, rfl⟩

/-- Canonical order of the edges. -/
def sortEdges (edges : List DependencyEdge) : List DependencyEdge :=
  edges.insertionSort fun a b => b.precedes a = false

/-- The declarations of `topo` passed every check before that of the cycles, so that a build goes
by what is made of them in canonical order. -/
structure Declared (resources : List Resource) (edges : List DependencyEdge)
    (limits : TopologyLimits) : Prop where
  ascending : (sortById resources).Pairwise fun a b => a.id < b.id
  distinct : firstDuplicate DependencyEdge.id (sortEdges edges) = none
  endpoints : checkEndpoints (sortById resources) (sortEdges edges) = .ok ()
  build_eq : ∀ allowCycles, build resources edges limits allowCycles =
    assemble (sortById resources) (sortEdges edges) limits allowCycles ascending

theorem declared_of_build {limits : TopologyLimits} {allowCycles : Bool}
    (h : build resources edges limits allowCycles = .ok topo) : Declared resources edges limits := by
  unfold build at h
  split at h
  · cases h
  case isFalse hlimits =>
    split at h
    · cases h
    case isFalse hresources =>
      split at h
      · cases h
      case isFalse hedges =>
        split at h
        · cases h
        case h_2 hvalid =>
          split at h
          · cases h
          case h_2 hduplicate =>
            split at h
            · cases h
            case h_2 hvalidEdges =>
              dsimp only at h
              split at h
              · cases h
              case h_2 hdistinct =>
                split at h
                · cases h
                case h_2 hcheck =>
                  refine ⟨ascending_of_sorted (sorted_sortById resources) hduplicate, hdistinct,
                    hcheck, fun allowCycles => ?_⟩
                  unfold build
                  rw [if_neg hlimits, if_neg hresources, if_neg hedges, hvalid]
                  dsimp only
                  split
                  case h_1 hsome => cases hduplicate.symm.trans hsome
                  case h_2 =>
                    rw [hvalidEdges]
                    dsimp only
                    rw [hdistinct]
                    dsimp only
                    rw [hcheck]
                    rfl

theorem laid_of_built (h : topo.Built) : ∃ resources edges, topo.Laid resources edges ∧
    checkEndpoints resources edges = .ok () := by
  obtain ⟨resources, edges, limits, allowCycles, hbuild⟩ := h
  have hdeclared := declared_of_build hbuild
  rw [hdeclared.build_eq] at hbuild
  exact ⟨_, _, laid_of_assemble hbuild, hdeclared.endpoints⟩

/-- The out-edge list of a resource is its bucket. -/
theorem outEdgeIndicesAt_eq (hlaid : topo.Laid resources edges)
    (hcheck : checkEndpoints resources edges = .ok ()) {i : Nat} (hi : i < resources.length) :
    topo.outEdgeIndicesAt i = Lib.Buckets.members (sourced resources edges) i := by
  have hkeys : ∀ x ∈ sourced resources edges, x.1 < resources.length := by
    rintro ⟨k, e⟩ hx
    obtain ⟨edge, he, rfl⟩ := mem_sourced.mp hx
    obtain ⟨j, -, hj, hlt⟩ :=
      hasResource_iff.mp (endpoints_of_check hcheck edge (List.mem_of_getElem? he)).1
    exact hj ▸ hlt
  have hoffset : ∀ s, s ≤ resources.length → (offsets (outDegrees resources edges))[s]? =
      some (Lib.Buckets.start resources.length (sourced resources edges) s) := by
    intro s hs
    rw [getElem?_offsets, if_pos hs]
  have hlength : (offsets (outDegrees resources edges)).length = resources.length + 1 := by
    rw [offsets, List.length_scanl, outDegrees_eq, Lib.Buckets.length_degrees]
  unfold outEdgeIndicesAt
  rw [hlaid.outOffsets, hlaid.outEdgeIndices, hoffset i hi.le, hoffset (i + 1) hi, placeEdges_eq]
  refine Lib.Buckets.run_eq_members hkeys ?_ (fun s hs => ?_) hi
  · simp [sourced]
  · rw [List.getElem?_dropLast, hlength, if_pos (by omega)]
    exact hoffset s hs.le

/-- Beyond the last resource there is no list. -/
theorem outEdgeIndicesAt_outside (hlaid : topo.Laid resources edges) {i : Nat}
    (hi : resources.length ≤ i) : topo.outEdgeIndicesAt i = [] := by
  have hnone : topo.outOffsets[i + 1]? = none := by
    rw [hlaid.outOffsets, getElem?_offsets, if_neg (by omega)]
  unfold outEdgeIndicesAt
  rw [hnone]
  split
  · contradiction
  · rfl

/-- Every list holds its edges in the order of their indices. -/
theorem indices_ascending (h : topo.Built) (i : Nat) :
    (topo.outEdgeIndicesAt i).Pairwise (· < ·) := by
  obtain ⟨resources, edges, hlaid, hcheck⟩ := laid_of_built h
  by_cases hi : i < resources.length
  · rw [outEdgeIndicesAt_eq hlaid hcheck hi]
    exact members_ascending
  · rw [outEdgeIndicesAt_outside hlaid (by omega)]
    exact List.Pairwise.nil

theorem indexed_of_built (h : topo.Built) : topo.Indexed := by
  have hascending := indices_ascending h
  obtain ⟨resources, edges, hlaid, hcheck⟩ := laid_of_built h
  have hends := endpoints_of_check hcheck
  have hindex : ∀ id, topo.indexOf id = resources.findIdx? fun r => r.id == id := by
    intro id
    unfold indexOf
    rw [hlaid.resources]
  have hedge : ∀ e, topo.edgeAt e = edges[e]? := by
    intro e
    unfold edgeAt
    rw [hlaid.edges]
  refine ⟨fun i e => ?_, fun i => (hascending i).imp Nat.ne_of_lt, fun e edge he => ?_⟩
  · simp only [hedge, hindex]
    by_cases hi : i < resources.length
    · rw [outEdgeIndicesAt_eq hlaid hcheck hi, Lib.Buckets.mem_members, mem_sourced]
      refine exists_congr fun edge => and_congr_right fun he => ?_
      obtain ⟨j, hj, hjk, -⟩ := hasResource_iff.mp (hends edge (List.mem_of_getElem? he)).1
      rw [hj, hjk, Option.some.injEq]
    · rw [outEdgeIndicesAt_outside hlaid (by omega)]
      refine ⟨fun hmem => (List.not_mem_nil hmem).elim, ?_⟩
      rintro ⟨edge, -, hsrc⟩
      exact absurd (List.findIdx?_eq_some_iff_getElem.mp hsrc).1 hi
  · rw [hedge] at he
    obtain ⟨j, hj, -⟩ := hasResource_iff.mp (hends edge (List.mem_of_getElem? he)).2
    exact ⟨j, (hindex _).trans hj⟩

end Topology

end Backpressure
