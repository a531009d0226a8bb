import Backpressure.Model.OutEdges

/-!
# Edge identities

The duplicate check of `Topology::build` compares the neighbours of the canonical order, which
sorts by priority and target before identity. It finds two edges of one identity only when they
agree in both.
-/

namespace Backpressure

namespace Topology

variable {topo : Topology} {resources : List Resource} {edges : List DependencyEdge}

/-- The hash index of the source holds the first edge of every identity. -/
def findEdge (t : Topology) (id : EdgeId) : Option DependencyEdge := t.edges.find? fun e => e.id == id

/-- The index at which a pin, which scans the edges, finds its edge. -/
def pinIndex (t : Topology) (id : EdgeId) : Option Nat := t.edges.findIdx? fun e => e.id == id

/-- An edge identity speaks of one edge, however it is looked up. -/
structure EdgesIdentified (topo : Topology) : Prop where
  distinct : (topo.edges.map DependencyEdge.id).Nodup
  found : ∀ e ∈ topo.edges, topo.findEdge e.id = some e
  pinned : ∀ i e, topo.edgeAt i = some e → topo.pinIndex e.id = some i

/-- Edges that share their identity agree in priority and target. -/
def KeysAgree (edges : List DependencyEdge) : Prop :=
  ∀ a ∈ edges, ∀ b ∈ edges, a.id = b.id → a.priority = b.priority ∧ a.dst = b.dst

/-! ## The canonical order -/

/-- The canonical order compares priority, then target, then identity. -/
theorem not_precedes_iff {a b : DependencyEdge} : b.precedes a = false ↔
    a.priority.toNat < b.priority.toNat ∨ a.priority = b.priority ∧
      (a.dst.value.toNat < b.dst.value.toNat ∨
        a.dst = b.dst ∧ a.id.value.toNat ≤ b.id.value.toNat) := by
  unfold DependencyEdge.precedes
  split
  case isTrue hne =>
    have hne' : b.priority.toNat ≠ a.priority.toNat := fun h => hne (UInt16.toNat_inj.mp h)
    rw [decide_eq_false_iff_not, UInt16.lt_iff_toNat_lt]
    constructor
    · intro h
      exact .inl (by omega)
    · rintro (h | ⟨h, -⟩)
      · omega
      · exact absurd h.symm hne
  case isFalse heq =>
    obtain heq : b.priority = a.priority := not_not.mp heq
    split
    case isTrue hne =>
      have hne' : b.dst.value.toNat ≠ a.dst.value.toNat := fun h => hne (StrongId.ext_toNat h)
      rw [decide_eq_false_iff_not, StrongId.lt_iff]
      constructor
      · intro h
        exact .inr ⟨heq.symm, .inl (by omega)⟩
      · rintro (h | ⟨-, h | ⟨h, -⟩⟩)
        · rw [heq] at h
          omega
        · omega
        · exact absurd h.symm hne
    case isFalse hdst =>
      obtain hdst : b.dst = a.dst := not_not.mp hdst
      rw [decide_eq_false_iff_not, StrongId.lt_iff, not_lt]
      constructor
      · intro h
        exact .inr ⟨heq.symm, .inr ⟨hdst.symm, h⟩⟩
      · rintro (h | ⟨-, h | ⟨-, h⟩⟩)
        · rw [heq] at h
          omega
        · rw [hdst] at h
          omega
        · exact h

theorem sorted_sortEdges (l : List DependencyEdge) :
    (sortEdges l).Pairwise fun a b => b.precedes a = false := by
  have : Std.Total fun a b : DependencyEdge => b.precedes a = false := by
    refine ⟨fun a b => ?_⟩
    have hpriority : a.priority = b.priority ↔ a.priority.toNat = b.priority.toNat :=
      UInt16.toNat_inj.symm
    have hdst : a.dst = b.dst ↔ a.dst.value.toNat = b.dst.value.toNat :=
      ⟨fun h => by rw [h], StrongId.ext_toNat⟩
    rw [not_precedes_iff, not_precedes_iff, eq_comm (a := b.priority), eq_comm (a := b.dst),
      hpriority, hdst]
    omega
  have : IsTrans DependencyEdge fun a b => b.precedes a = false := by
    refine ⟨fun a b c hab hbc => ?_⟩
    rw [not_precedes_iff] at hab hbc ⊢
    rcases hab with hab | ⟨hab, hab'⟩
    · rcases hbc with hbc | ⟨hbc, -⟩
      · exact .inl (by omega)
      · exact .inl (hbc ▸ hab)
    · rw [hab]
      rcases hbc with hbc | ⟨hbc, hbc'⟩
      · exact .inl hbc
      · refine .inr ⟨hbc, ?_⟩
        rcases hab' with hab' | ⟨hab', hid⟩
        · rcases hbc' with hbc' | ⟨hbc', -⟩
          · exact .inl (by omega)
          · exact .inl (hbc' ▸ hab')
        · rw [hab']
          rcases hbc' with hbc' | ⟨hbc', hid'⟩
          · exact .inl hbc'
          · exact .inr ⟨hbc', by omega⟩
  exact List.pairwise_insertionSort _ l

/-- Between two edges of one key every edge has their identity. -/
theorem id_between {a b c : DependencyEdge} (hab : b.precedes a = false)
    (hbc : c.precedes b = false) (hpriority : c.priority = a.priority) (hdst : c.dst = a.dst)
    (hid : c.id = a.id) : b.id = a.id := by
  rw [not_precedes_iff] at hab hbc
  rw [hpriority, hdst, hid] at hbc
  rcases hab with hab | ⟨hab, hab'⟩
  · rcases hbc with hbc | ⟨hbc, -⟩
    · omega
    · rw [hbc] at hab
      omega
  · rcases hbc with hbc | ⟨-, hbc⟩
    · rw [hab] at hbc
      omega
    · rcases hab' with hab' | ⟨hab', hid'⟩
      · rcases hbc with hbc | ⟨hbc, -⟩
        · omega
        · rw [hbc] at hab'
          omega
      · rcases hbc with hbc | ⟨-, hbc⟩
        · rw [hab'] at hbc
          omega
        · exact StrongId.ext_toNat (by omega)

/-- What the canonical order of the edges compares. -/
def edgeKey (e : DependencyEdge) : UInt16 × ResourceId × EdgeId := (e.priority, e.dst, e.id)

/-- Edges without duplicates among neighbours have different keys. -/
theorem edgeKeys_nodup {l : List DependencyEdge} (hsorted : l.Pairwise fun a b => b.precedes a = false)
    (hdistinct : firstDuplicate DependencyEdge.id l = none) : (l.map edgeKey).Nodup := by
  induction l with
  | nil => exact List.nodup_nil
  | cons a rest ih =>
    obtain ⟨ha, hrest⟩ := List.pairwise_cons.mp hsorted
    cases rest with
    | nil => exact List.nodup_singleton _
    | cons b rest =>
      rw [firstDuplicate] at hdistinct
      split at hdistinct
      · cases hdistinct
      case isFalse hne =>
        rw [List.map_cons, List.nodup_cons]
        refine ⟨fun hmem => ?_, ih hrest hdistinct⟩
        obtain ⟨c, hc, hkey⟩ := List.mem_map.mp hmem
        simp only [edgeKey, Prod.mk.injEq] at hkey
        obtain ⟨hpriority, hdst, hid⟩ := hkey
        rcases List.mem_cons.mp hc with rfl | hc
        · exact hne hid.symm
        · exact hne (id_between (ha b List.mem_cons_self)
            ((List.pairwise_cons.mp hrest).1 c hc) hpriority hdst hid).symm

theorem edgeKeys_nodup_of_built (h : topo.Built) : (topo.edges.map edgeKey).Nodup := by
  obtain ⟨resources, edges, limits, allowCycles, hbuild⟩ := h
  have hdeclared := declared_of_build hbuild
  rw [hdeclared.build_eq] at hbuild
  rw [(laid_of_assemble hbuild).edges]
  exact edgeKeys_nodup (sorted_sortEdges edges) hdeclared.distinct

/-- Edges of equal keys have different identities. -/
theorem ids_nodup_of_keys {l : List DependencyEdge}
    (hsorted : l.Pairwise fun a b => b.precedes a = false)
    (hdistinct : firstDuplicate DependencyEdge.id l = none) (hkeys : KeysAgree l) :
    (l.map DependencyEdge.id).Nodup := by
  have hnodup := edgeKeys_nodup hsorted hdistinct
  refine (hnodup.of_map _).map_on fun a ha b hb hid => ?_
  obtain ⟨hpriority, hdst⟩ := hkeys a ha b hb hid
  refine List.inj_on_of_nodup_map hnodup ha hb ?_
  unfold edgeKey
  rw [hpriority, hdst, hid]

/-! ## Looking up an edge -/

theorem identified_of_distinct (h : (topo.edges.map DependencyEdge.id).Nodup) :
    EdgesIdentified topo := by
  have hsame : ∀ (i j : Nat) (a b : DependencyEdge), topo.edges[i]? = some a →
      topo.edges[j]? = some b → a.id = b.id → i = j := by
    intro i j a b hi hj hid
    refine (List.getElem?_inj ?_ h).mp ?_
    · rw [List.length_map]
      exact (List.getElem?_eq_some_iff.mp hi).1
    · rw [List.getElem?_map, List.getElem?_map, hi, hj, Option.map_some, Option.map_some, hid]
  have hpinned : ∀ (i : Nat) (e : DependencyEdge), topo.edges[i]? = some e →
      topo.pinIndex e.id = some i := by
    intro i e hi
    obtain ⟨hlt, rfl⟩ := List.getElem?_eq_some_iff.mp hi
    refine List.findIdx?_eq_some_iff_getElem.mpr ⟨hlt, beq_self_eq_true _, fun j hj hbeq => ?_⟩
    have hij := hsame j i _ _ (List.getElem?_eq_getElem (hj.trans hlt)) hi (eq_of_beq hbeq)
    omega
  refine ⟨h, fun e he => ?_, hpinned⟩
  obtain ⟨i, hi⟩ := List.getElem?_of_mem he
  cases hfind : topo.findEdge e.id with
  | none => exact absurd (beq_self_eq_true e.id) (List.find?_eq_none.mp hfind e he)
  | some found =>
    obtain ⟨j, hj⟩ := List.getElem?_of_mem (List.mem_of_find?_eq_some hfind)
    have hid : found.id = e.id := by
      unfold findEdge at hfind
      simpa using List.find?_some hfind
    obtain rfl := hsame j i found e hj hi hid
    exact hj.symm.trans hi

/-- In a built topology edge identities speak of single edges exactly when no two declared edges
share their identity without sharing priority and target. -/
theorem edges_identified_iff {limits : TopologyLimits} {allowCycles : Bool}
    (h : build resources edges limits allowCycles = .ok topo) :
    EdgesIdentified topo ↔ KeysAgree edges := by
  have hdeclared := declared_of_build h
  rw [hdeclared.build_eq] at h
  have hedges : topo.edges = sortEdges edges := (laid_of_assemble h).edges
  have hmem : ∀ e, e ∈ sortEdges edges ↔ e ∈ edges := fun e => List.mem_insertionSort _
  constructor
  · intro hidentified a ha b hb hid
    have hnodup := hidentified.distinct
    rw [hedges] at hnodup
    obtain rfl := List.inj_on_of_nodup_map hnodup ((hmem a).mpr ha) ((hmem b).mpr hb) hid
    exact ⟨rfl, rfl⟩
  · intro hkeys
    apply identified_of_distinct
    rw [hedges]
    exact ids_nodup_of_keys (sorted_sortEdges edges) hdeclared.distinct fun a ha b hb =>
      hkeys a ((hmem a).mp ha) b ((hmem b).mp hb)

/-- Two resources, and edges from the first to the second. -/
def ends : List Resource :=
  [{ id := ⟨7⟩, definitionGeneration := ⟨1⟩ }, { id := ⟨8⟩, definitionGeneration := ⟨1⟩ }]

def between (id : UInt64) (priority : UInt16) : DependencyEdge :=
  { id := ⟨id⟩, src := ⟨7⟩, dst := ⟨8⟩, dependencyGeneration := ⟨1⟩, priority }

/-- Two edges of one identity both enter the topology when another one separates them, and the
second is never looked up. -/
theorem twin_edges_build : ∃ topo,
    build ends [between 1 0, between 2 1, between 1 2] {} true = .ok topo ∧
      ¬(topo.edges.map DependencyEdge.id).Nodup ∧ topo.edgeAt 2 = some (between 1 2) ∧
        topo.findEdge ⟨1⟩ = some (between 1 0) ∧ topo.pinIndex ⟨1⟩ = some 0 := by
  have hedges : (build ends [between 1 0, between 2 1, between 1 2] {} true).toOption.map
      Topology.edges = some [between 1 0, between 2 1, between 1 2] := by decide +kernel
  cases hbuild : build ends [between 1 0, between 2 1, between 1 2] {} true with
  | error st =>
    rw [hbuild] at hedges
    cases hedges
  | ok topo =>
    rw [hbuild] at hedges
    obtain hedges : topo.edges = _ := Option.some.inj hedges
    refine ⟨topo, rfl, ?_⟩
    unfold edgeAt findEdge pinIndex
    rw [hedges]
    decide

/-- One edge speaks for itself. -/
theorem single_edge_identified : ∃ topo, build ends [between 1 0] {} true = .ok topo ∧
    EdgesIdentified topo := by
  have hbuilt : (build ends [between 1 0] {} true).toOption.isSome = true := by decide +kernel
  cases hbuild : build ends [between 1 0] {} true with
  | error st =>
    rw [hbuild] at hbuilt
    cases hbuilt
  | ok topo =>
    refine ⟨topo, rfl, (edges_identified_iff hbuild).mpr fun a ha b hb _ => ?_⟩
    rw [List.mem_singleton.mp ha, List.mem_singleton.mp hb]
    exact ⟨rfl, rfl⟩

end Topology

end Backpressure
