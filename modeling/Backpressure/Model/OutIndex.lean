import Backpressure.Lib.Checked
import Backpressure.Model.EdgeIds
import Mathlib.Data.Prod.Lex

/-!
# The out-edge index

The out-edge lists of `Topology::build` hold the edges of each resource in canonical order and
partition the edges. The loops that lay them out are given once more with every access checked, and
no check ever fails.
-/

namespace Backpressure

/-- What the canonical order of the edges compares, from the left. -/
def DependencyEdge.orderKey (e : DependencyEdge) : ℕ ×ₗ ℕ ×ₗ ℕ :=
  toLex (e.priority.toNat, toLex (e.dst.value.toNat, e.id.value.toNat))

namespace Topology

variable {topo : Topology} {resources : List Resource} {edges : List DependencyEdge}

/-! ## The order within a list -/

theorem not_precedes_iff_orderKey {a b : DependencyEdge} :
    b.precedes a = false ↔ a.orderKey ≤ b.orderKey := by
  have hpriority : a.priority = b.priority ↔ a.priority.toNat = b.priority.toNat :=
    UInt16.toNat_inj.symm
  have hdst : a.dst = b.dst ↔ a.dst.value.toNat = b.dst.value.toNat :=
    ⟨fun h => by rw [h], StrongId.ext_toNat⟩
  unfold DependencyEdge.orderKey
  rw [not_precedes_iff, Prod.Lex.toLex_le_toLex, Prod.Lex.toLex_le_toLex, hpriority, hdst]

theorem edgeKey_of_orderKey {a b : DependencyEdge} (h : a.orderKey = b.orderKey) :
    edgeKey a = edgeKey b := by
  have hkeys := toLex.injective h
  simp only [Prod.mk.injEq, EmbeddingLike.apply_eq_iff_eq] at hkeys
  obtain ⟨hpriority, hdst, hid⟩ := hkeys
  unfold edgeKey
  rw [UInt16.toNat_inj.mp hpriority, StrongId.ext_toNat hdst, StrongId.ext_toNat hid]

/-- The edges of a topology ascend strictly in canonical order. -/
theorem edges_ascending (h : topo.Built) :
    topo.edges.Pairwise fun a b => a.orderKey < b.orderKey := by
  have hdistinct := List.pairwise_map.mp (edgeKeys_nodup_of_built h)
  obtain ⟨resources, edges, limits, allowCycles, hbuild⟩ := h
  rw [(declared_of_build hbuild).build_eq] at hbuild
  rw [(laid_of_assemble hbuild).edges] at hdistinct ⊢
  refine ((sorted_sortEdges edges).and hdistinct).imp fun ⟨hle, hne⟩ => ?_
  exact lt_of_le_of_ne (not_precedes_iff_orderKey.mp hle) fun heq => hne (edgeKey_of_orderKey heq)

/-- The edges at two indices are in canonical order. -/
def InOrder (topo : Topology) (e e' : Nat) : Prop :=
  ∃ a b, topo.edgeAt e = some a ∧ topo.edgeAt e' = some b ∧ a.orderKey < b.orderKey

theorem list_inOrder (h : topo.Built) (i : Nat) :
    (topo.outEdgeIndicesAt i).Pairwise topo.InOrder := by
  have hindexed := indexed_of_built h
  refine (indices_ascending h i).imp_of_mem fun {e e'} he he' hlt => ?_
  obtain ⟨a, ha, -⟩ := (hindexed.mem_iff i e).mp he
  obtain ⟨b, hb, -⟩ := (hindexed.mem_iff i e').mp he'
  obtain ⟨hel, rfl⟩ := List.getElem?_eq_some_iff.mp ha
  obtain ⟨hel', rfl⟩ := List.getElem?_eq_some_iff.mp hb
  exact ⟨_, _, ha, hb, List.pairwise_iff_getElem.mp (edges_ascending h) e e' hel hel' hlt⟩

/-! ## The partition -/

theorem mem_list_iff (h : topo.Built) {i e : Nat} : e ∈ topo.outEdgeIndicesAt i ↔
    ∃ edge r, topo.edgeAt e = some edge ∧ topo.resourceAt i = some r ∧ edge.src = r.id := by
  rw [(indexed_of_built h).mem_iff]
  constructor
  · rintro ⟨edge, he, hsrc⟩
    obtain ⟨r, hr, hid⟩ := resourceAt_of_indexOf hsrc
    exact ⟨edge, r, he, hr, hid.symm⟩
  · rintro ⟨edge, r, he, hr, hid⟩
    exact ⟨edge, he, hid ▸ indexOf_of_resourceAt hr⟩

/-- Every edge leaves a resource. -/
theorem exists_source (h : topo.Built) {e : Nat} {edge : DependencyEdge}
    (he : topo.edgeAt e = some edge) : ∃ i, topo.indexOf edge.src = some i := by
  obtain ⟨resources, edges, hlaid, hcheck⟩ := laid_of_built h
  unfold edgeAt at he
  rw [hlaid.edges] at he
  have hends := endpoints_of_check hcheck edge (List.mem_of_getElem? he)
  obtain ⟨i, hi, -⟩ := hasResource_iff.mp hends.1
  refine ⟨i, ?_⟩
  unfold indexOf
  rw [hlaid.resources]
  exact hi

/-- The lists of all resources hold every edge index once. -/
theorem lists_partition (h : topo.Built) :
    ((List.range topo.resources.length).flatMap topo.outEdgeIndicesAt).Perm
      (List.range topo.edges.length) := by
  have hindexed := indexed_of_built h
  have hnodup : ((List.range topo.resources.length).flatMap topo.outEdgeIndicesAt).Nodup := by
    refine List.nodup_flatMap.mpr ⟨fun i _ => hindexed.nodup i, ?_⟩
    refine List.nodup_range.imp fun {i j} hij e hei hej => hij ?_
    -- an edge has one source
    obtain ⟨edge, he, hi⟩ := (hindexed.mem_iff i e).mp hei
    obtain ⟨edge', he', hj⟩ := (hindexed.mem_iff j e).mp hej
    cases he.symm.trans he'
    exact Option.some.inj (hi.symm.trans hj)
  refine (List.perm_ext_iff_of_nodup hnodup List.nodup_range).mpr fun e => ?_
  rw [List.mem_flatMap, List.mem_range]
  constructor
  · rintro ⟨i, -, he⟩
    obtain ⟨edge, hedge, -⟩ := (hindexed.mem_iff i e).mp he
    exact (List.getElem?_eq_some_iff.mp hedge).1
  · intro hlt
    obtain ⟨i, hi⟩ := exists_source h (List.getElem?_eq_getElem hlt)
    have hrange : i < topo.resources.length := (List.findIdx?_eq_some_iff_getElem.mp hi).1
    exact ⟨i, List.mem_range.mpr hrange,
      (hindexed.mem_iff i e).mpr ⟨_, List.getElem?_eq_getElem hlt, hi⟩⟩

/-! ## Checked accesses -/

open Lib.Checked (write update)

/-- `resource_index_.at`, which throws where the identity is unknown. -/
def resourceIndexAt (resources : List Resource) (id : ResourceId) : Option Nat :=
  resources.findIdx? fun r => r.id == id

/-- One iteration of the loop that counts both degrees. -/
def countEdge (resources : List Resource) (degrees : List Nat × List Nat) (e : DependencyEdge) :
    Option (List Nat × List Nat) := do
  let src ← resourceIndexAt resources e.src
  let dst ← resourceIndexAt resources e.dst
  let out ← update degrees.1 src (· + 1)
  let inn ← update degrees.2 dst (· + 1)
  return (out, inn)

def countDegrees (resources : List Resource) (edges : List DependencyEdge) :
    Option (List Nat × List Nat) :=
  edges.foldlM (countEdge resources)
    (List.replicate resources.length 0, List.replicate resources.length 0)

/-- One iteration of the loop that compares both degrees with their limits. -/
def readDegree (degrees : List Nat × List Nat) (seen : List (Nat × Nat)) (i : Nat) :
    Option (List (Nat × Nat)) := do
  let out ← degrees.1[i]?
  let inn ← degrees.2[i]?
  return seen ++ [(out, inn)]

def readDegrees (n : Nat) (degrees : List Nat × List Nat) : Option (List (Nat × Nat)) :=
  (List.range n).foldlM (readDegree degrees) []

/-- One iteration of the loop that sums the out-degrees. -/
def sumOffset (outDegree outOffsets : List Nat) (i : Nat) : Option (List Nat) := do
  let start ← outOffsets[i]?
  let degree ← outDegree[i]?
  write outOffsets (i + 1) (start + degree)

def sumOffsets (n : Nat) (outDegree : List Nat) : Option (List Nat) :=
  (List.range n).foldlM (sumOffset outDegree) (List.replicate (n + 1) 0)

/-- One iteration of the loop that moves the cursors. -/
def fillIndex (resources : List Resource) (st : List Nat × List Nat) (e : DependencyEdge × Nat) :
    Option (List Nat × List Nat) := do
  let src ← resourceIndexAt resources e.1.src
  let slot ← st.2[src]?
  let indices ← write st.1 slot e.2
  let cursor ← update st.2 src (· + 1)
  return (indices, cursor)

def fillIndices (resources : List Resource) (edges : List DependencyEdge) (outOffsets : List Nat) :
    Option (List Nat × List Nat) :=
  edges.zipIdx.foldlM (fillIndex resources) (List.replicate edges.length 0, outOffsets.dropLast)

/-- The degrees that are read, and both arrays of the index. -/
def checkedIndex (resources : List Resource) (edges : List DependencyEdge) :
    Option (List (Nat × Nat) × List Nat × List Nat) := do
  let degrees ← countDegrees resources edges
  let both ← readDegrees resources.length degrees
  let outOffsets ← sumOffsets resources.length degrees.1
  let filled ← fillIndices resources edges outOffsets
  return (both, outOffsets, filled.1)

/-- Every edge finds both of its ends. -/
def Ended (resources : List Resource) (edges : List DependencyEdge) : Prop :=
  ∀ e ∈ edges, ∀ id, id = e.src ∨ id = e.dst →
    resourceIndexAt resources id = some (indexIn resources id) ∧
      indexIn resources id < resources.length

theorem ended_of_check (h : checkEndpoints resources edges = .ok ()) : Ended resources edges := by
  have hfound : ∀ id, hasResource resources id = true →
      resourceIndexAt resources id = some (indexIn resources id) ∧
        indexIn resources id < resources.length := by
    intro id hid
    obtain ⟨i, hi, hindex, hlt⟩ := hasResource_iff.mp hid
    exact ⟨hindex ▸ hi, hindex ▸ hlt⟩
  intro e he id hid
  obtain ⟨hsrc, hdst⟩ := endpoints_of_check h e he
  rcases hid with rfl | rfl
  · exact hfound _ hsrc
  · exact hfound _ hdst

theorem Ended.keys_lt (h : Ended resources edges) :
    ∀ x ∈ sourced resources edges, x.1 < resources.length := by
  rintro ⟨k, e⟩ hx
  obtain ⟨edge, he, rfl⟩ := mem_sourced.mp hx
  exact (h edge (List.mem_of_getElem? he) edge.src (.inl rfl)).2

theorem length_foldl_bump {l : List DependencyEdge} {f : DependencyEdge → Nat} {d : List Nat} :
    (l.foldl (fun d e => bump d (f e)) d).length = d.length := by
  induction l generalizing d with
  | nil => rfl
  | cons e l ih => rw [List.foldl_cons, ih, bump, List.length_modify]

theorem length_outDegrees : (outDegrees resources edges).length = resources.length := by
  rw [outDegrees, length_foldl_bump, List.length_replicate]

theorem length_inDegrees : (inDegrees resources edges).length = resources.length := by
  rw [inDegrees, length_foldl_bump, List.length_replicate]

theorem countEdge_step (hended : Ended resources edges) {done rest : List DependencyEdge}
    {e : DependencyEdge} (hsplit : edges = done ++ e :: rest) :
    countEdge resources (outDegrees resources done, inDegrees resources done) e =
      some (outDegrees resources (done ++ [e]), inDegrees resources (done ++ [e])) := by
  have hmem : e ∈ edges := by simp [hsplit]
  obtain ⟨hsrc, hsrcLt⟩ := hended e hmem e.src (.inl rfl)
  obtain ⟨hdst, hdstLt⟩ := hended e hmem e.dst (.inr rfl)
  unfold countEdge
  rw [hsrc, hdst]
  dsimp only [Option.bind_eq_bind, Option.bind_some]
  rw [Lib.Checked.update_of_lt (by rw [length_outDegrees]; exact hsrcLt),
    Lib.Checked.update_of_lt (by rw [length_inDegrees]; exact hdstLt)]
  simp only [outDegrees, inDegrees, List.foldl_append, List.foldl_cons, List.foldl_nil, bump]
  rfl

theorem countDegrees_eq (hended : Ended resources edges) : countDegrees resources edges =
    some (outDegrees resources edges, inDegrees resources edges) := by
  obtain ⟨s, hrun, hcounted⟩ := Lib.Checked.foldlM_invariant
    (fun done s => s = (outDegrees resources done, inDegrees resources done))
    (fun _ _ _ _ hsplit hs => ⟨_, hs ▸ countEdge_step hended hsplit, rfl⟩) rfl
  exact hrun.trans (congrArg some hcounted)

theorem readDegree_step {out inn : List Nat} {i : Nat} (hout : i < out.length)
    (hinn : i < inn.length) : readDegree (out, inn) ((out.zip inn).take i) i =
      some ((out.zip inn).take (i + 1)) := by
  have hzip : i < (out.zip inn).length := by
    rw [List.length_zip]
    omega
  unfold readDegree
  rw [List.getElem?_eq_getElem hout, List.getElem?_eq_getElem hinn,
    List.take_succ_eq_append_getElem hzip, List.getElem_zip]
  rfl

theorem readDegrees_eq {out inn : List Nat} {n : Nat} (hout : out.length = n)
    (hinn : inn.length = n) : readDegrees n (out, inn) = some (out.zip inn) := by
  have hzip : (out.zip inn).length = n := by
    rw [List.length_zip]
    omega
  obtain ⟨seen, hrun, hseen⟩ := @Lib.Checked.foldlM_invariant _ _ _ (List.range n) _
    (fun done seen => seen = (out.zip inn).take done.length)
    (fun done i rest seen hsplit hseen => by
      obtain ⟨rfl, hlt⟩ := Lib.Checked.eq_length_of_range hsplit
      refine ⟨_, hseen ▸ readDegree_step (by omega) (by omega), ?_⟩
      rw [List.length_append, List.length_singleton]) rfl
  rw [List.length_range, ← hzip, List.take_length] at hseen
  exact hrun.trans (congrArg some hseen)

/-- The first offsets are the sums of the degrees before them. -/
structure Summed (degrees : List Nat) (k : Nat) (outOffsets : List Nat) : Prop where
  length : outOffsets.length = degrees.length + 1
  sum : ∀ j ≤ k, outOffsets[j]? = some (degrees.take j).sum

theorem sumOffset_step {degrees outOffsets : List Nat} {i : Nat} (h : Summed degrees i outOffsets)
    (hi : i < degrees.length) :
    ∃ next, sumOffset degrees outOffsets i = some next ∧ Summed degrees (i + 1) next := by
  have hroom : i + 1 < outOffsets.length := by
    rw [h.length]
    omega
  refine ⟨outOffsets.set (i + 1) ((degrees.take i).sum + degrees[i]), ?_, ?_, fun j hj => ?_⟩
  · unfold sumOffset
    rw [h.sum i le_rfl, List.getElem?_eq_getElem hi]
    exact Lib.Checked.write_of_lt hroom
  · rw [List.length_set, h.length]
  · by_cases hlast : j = i + 1
    · subst hlast
      rw [List.getElem?_set_self hroom, List.take_succ_eq_append_getElem hi, List.sum_append,
        List.sum_singleton]
    · rw [List.getElem?_set_ne (Ne.symm hlast)]
      exact h.sum j (by omega)

theorem sumOffsets_eq {degrees : List Nat} :
    sumOffsets degrees.length degrees = some (offsets degrees) := by
  have hstart : Summed degrees 0 (List.replicate (degrees.length + 1) 0) := by
    refine ⟨List.length_replicate, fun j hj => ?_⟩
    obtain rfl := Nat.le_zero.mp hj
    rfl
  obtain ⟨outOffsets, hrun, hsummed⟩ := Lib.Checked.foldlM_invariant
    (fun done outOffsets => Summed degrees done.length outOffsets)
    (fun done i rest outOffsets hsplit hsummed => by
      obtain ⟨rfl, hlt⟩ := Lib.Checked.eq_length_of_range hsplit
      rw [List.length_append, List.length_singleton]
      exact sumOffset_step hsummed hlt) hstart
  rw [List.length_range] at hsummed
  refine hrun.trans (congrArg some (List.ext_getElem? fun j => ?_))
  rw [offsets, Lib.Buckets.getElem?_scanl_add, Nat.zero_add]
  split
  case isTrue hj => exact hsummed.sum j hj
  case isFalse hj =>
    have hlength := hsummed.length
    exact List.getElem?_eq_none (by omega)

/-- An edge as an element of the bucket of its source. -/
def bucketed (resources : List Resource) (e : DependencyEdge × Nat) : Nat × Nat :=
  (indexIn resources e.1.src, e.2)

/-- The edges done so far are where the unchecked loop puts them. -/
structure Placed (resources : List Resource) (edges : List DependencyEdge)
    (start : List Nat × List Nat) (done : List (DependencyEdge × Nat)) (st : List Nat × List Nat) :
    Prop where
  fold : st = (done.map (bucketed resources)).foldl Lib.Buckets.put start
  filled : Lib.Buckets.Filled resources.length (sourced resources edges)
    (done.map (bucketed resources)) st

theorem fillIndex_step (hended : Ended resources edges) {start st : List Nat × List Nat}
    {done rest : List (DependencyEdge × Nat)} {e : DependencyEdge × Nat}
    (hsplit : edges.zipIdx = done ++ e :: rest) (h : Placed resources edges start done st) :
    ∃ next, fillIndex resources st e = some next ∧
      Placed resources edges start (done ++ [e]) next := by
  have hkeys := hended.keys_lt
  have hmem : e.1 ∈ edges := by
    have hpair : e ∈ edges.zipIdx := by simp [hsplit]
    exact List.mem_of_getElem? (List.mem_zipIdx_iff_getElem?.mp hpair)
  obtain ⟨hsrc, -⟩ := hended e.1 hmem e.1.src (.inl rfl)
  have hsourced : sourced resources edges =
      done.map (bucketed resources) ++ bucketed resources e :: rest.map (bucketed resources) := by
    rw [← List.map_cons, ← List.map_append, ← hsplit]
    rfl
  obtain ⟨hcursor, hroom⟩ := h.filled.room hkeys hsourced
  refine ⟨Lib.Buckets.put st (bucketed resources e), ?_, ?_, ?_⟩
  · unfold fillIndex Lib.Buckets.put
    unfold bucketed at hcursor hroom ⊢
    rw [hsrc]
    dsimp only [Option.bind_eq_bind, Option.bind_some] at hcursor hroom ⊢
    rw [List.getD_eq_getElem?_getD, hcursor]
    dsimp only [Option.bind_some]
    rw [Lib.Checked.write_of_lt hroom,
      Lib.Checked.update_of_lt (List.getElem?_eq_some_iff.mp hcursor).1]
    rfl
  · rw [List.map_append, List.foldl_append, ← h.fold]
    rfl
  · rw [List.map_append]
    exact h.filled.put hkeys hsourced

theorem fillIndices_eq (hended : Ended resources edges) : ∃ cursor,
    fillIndices resources edges (offsets (outDegrees resources edges)) =
      some (placeEdges resources edges (offsets (outDegrees resources edges)), cursor) ∧
    (placeEdges resources edges (offsets (outDegrees resources edges))).length = edges.length := by
  have hlength : (offsets (outDegrees resources edges)).length = resources.length + 1 := by
    rw [offsets, List.length_scanl, length_outDegrees]
  have hempty : Lib.Buckets.Filled resources.length (sourced resources edges) []
      (List.replicate edges.length 0, (offsets (outDegrees resources edges)).dropLast) := by
    refine Lib.Buckets.Filled.nil (by simp [sourced]) fun s hs => ?_
    rw [List.getElem?_dropLast, hlength, if_pos (by omega), getElem?_offsets, if_pos hs.le]
  obtain ⟨st, hrun, hplaced⟩ := Lib.Checked.foldlM_invariant
    (fun done st => Placed resources edges
      (List.replicate edges.length 0, (offsets (outDegrees resources edges)).dropLast) done st)
    (fun _ _ _ _ hsplit hplaced => fillIndex_step hended hsplit hplaced) ⟨rfl, hempty⟩
  have hindices : st.1 = placeEdges resources edges (offsets (outDegrees resources edges)) := by
    rw [placeEdges_eq, hplaced.fold]
    rfl
  refine ⟨st.2, hrun.trans (congrArg some (Prod.ext hindices rfl)), ?_⟩
  rw [← hindices, hplaced.filled.length, sourced, List.length_map, List.length_zipIdx]

/-- No access of the loops fails, and they leave the arrays of the topology. -/
theorem checkedIndex_eq (h : topo.Built) : checkedIndex topo.resources topo.edges =
    some ((outDegrees topo.resources topo.edges).zip (inDegrees topo.resources topo.edges),
      topo.outOffsets, topo.outEdgeIndices) := by
  obtain ⟨resources, edges, hlaid, hcheck⟩ := laid_of_built h
  have hended := ended_of_check hcheck
  obtain ⟨cursor, hfill, -⟩ := fillIndices_eq hended
  have hsum : sumOffsets resources.length (outDegrees resources edges) =
      some (offsets (outDegrees resources edges)) := by
    rw [← @length_outDegrees resources edges, sumOffsets_eq]
  unfold checkedIndex
  rw [hlaid.resources, hlaid.edges, hlaid.outOffsets, hlaid.outEdgeIndices, countDegrees_eq hended]
  dsimp only [Option.bind_eq_bind, Option.bind_some]
  rw [readDegrees_eq length_outDegrees length_inDegrees, hsum]
  dsimp only [Option.bind_some]
  rw [hfill]
  rfl

/-- The span of every list lies inside the array of indices. -/
theorem span_inside (h : topo.Built) {i : Nat} (hi : i < topo.resources.length) :
    ∃ first last, topo.outOffsets[i]? = some first ∧ topo.outOffsets[i + 1]? = some last ∧
      first ≤ last ∧ last ≤ topo.outEdgeIndices.length := by
  obtain ⟨resources, edges, hlaid, hcheck⟩ := laid_of_built h
  have hended := ended_of_check hcheck
  obtain ⟨cursor, -, hlength⟩ := fillIndices_eq hended
  rw [hlaid.resources] at hi
  rw [hlaid.outOffsets, hlaid.outEdgeIndices, hlength, getElem?_offsets, getElem?_offsets,
    if_pos hi.le, if_pos (Nat.succ_le_of_lt hi)]
  refine ⟨_, _, rfl, rfl, Lib.Buckets.start_le (Nat.le_succ i), ?_⟩
  refine (Lib.Buckets.start_le_length hended.keys_lt).trans (Nat.le_of_eq ?_)
  rw [sourced, List.length_map, List.length_zipIdx]

/-- The list of a resource holds exactly the edges that leave it, each once and in canonical order; the
lists partition the edges; and no access fails while they are laid out or read. -/
theorem out_index_correct (h : topo.Built) :
    (∀ i e, e ∈ topo.outEdgeIndicesAt i ↔ ∃ edge r, topo.edgeAt e = some edge ∧
      topo.resourceAt i = some r ∧ edge.src = r.id) ∧
    (∀ i, (topo.outEdgeIndicesAt i).Nodup ∧ (topo.outEdgeIndicesAt i).Pairwise topo.InOrder) ∧
    ((List.range topo.resources.length).flatMap topo.outEdgeIndicesAt).Perm
      (List.range topo.edges.length) ∧
    checkedIndex topo.resources topo.edges =
      some ((outDegrees topo.resources topo.edges).zip (inDegrees topo.resources topo.edges),
        topo.outOffsets, topo.outEdgeIndices) ∧
    ∀ i < topo.resources.length, ∃ first last, topo.outOffsets[i]? = some first ∧
      topo.outOffsets[i + 1]? = some last ∧ first ≤ last ∧ last ≤ topo.outEdgeIndices.length :=
  ⟨fun _ _ => mem_list_iff h, fun i => ⟨(indexed_of_built h).nodup i, list_inOrder h i⟩,
    lists_partition h, checkedIndex_eq h, fun _ hi => span_inside h hi⟩

/-- Edges of two sources, out of order. -/
def crossing : List DependencyEdge :=
  [between 5 1, { between 3 1 with src := ⟨8⟩, dst := ⟨7⟩ }, between 4 0]

theorem out_index_crossing : ∃ topo, build ends crossing {} true = .ok topo ∧
    topo.outEdgeIndicesAt 0 = [0, 2] ∧ topo.outEdgeIndicesAt 1 = [1] ∧
      (topo.outEdgeIndicesAt 0).Pairwise topo.InOrder := by
  have hlists : (build ends crossing {} true).toOption.map (fun topo =>
      (topo.outEdgeIndicesAt 0, topo.outEdgeIndicesAt 1)) = some ([0, 2], [1]) := by decide +kernel
  cases hbuild : build ends crossing {} true with
  | error st =>
    rw [hbuild] at hlists
    cases hlists
  | ok topo =>
    rw [hbuild] at hlists
    obtain ⟨hfirst, hsecond⟩ := Prod.mk.inj (Option.some.inj hlists)
    exact ⟨topo, rfl, hfirst, hsecond,
      ((out_index_correct ⟨_, _, _, _, hbuild⟩).2.1 0).2⟩

end Topology

end Backpressure
