import Backpressure.Core.Fixed
import Backpressure.Model.Generation
import Mathlib.Data.List.Pairwise

/-!
# Resources, dependency edges and the topology

`resource.hpp`, `dependency.hpp` and the immutable view of `topology.hpp`: resources in
identity order, edges in canonical order, and the compressed out-edge lists that a
traversal walks. Resource indices are positions in the resource list.
-/

namespace Backpressure

inductive ResourceClass
  | unknown | port | queueGroup | link | device | fabricEndpoint | virtualChannel | count
  deriving DecidableEq, Repr

def ResourceClass.toNat : ResourceClass → Nat := ResourceClass.ctorIdx

/-- Hard boundaries, evaluated before damping and before hop budgets. -/
inductive ProtectionClass
  | unprotected | observedOnly | barrier | sealed | count
  deriving DecidableEq, Repr

def ProtectionClass.toNat : ProtectionClass → Nat := ProtectionClass.ctorIdx

structure Resource where
  id : ResourceId := {}
  name : UInt32 := 0xFFFFFFFF
  klass : ResourceClass := .unknown
  protection : ProtectionClass := .unprotected
  definitionGeneration : Generation := {}
  acceptsPropagation : Bool := true
  provenance : Digest128 := {}
  deriving DecidableEq, Repr

namespace Resource

/-- May propagated pressure be applied here? -/
def canReceive (r : Resource) : Bool :=
  r.acceptsPropagation && r.protection != .sealed && r.protection != .observedOnly

/-- May pressure that arrived here continue? -/
def canForward (r : Resource) : Bool := r.canReceive && r.protection != .barrier

def validate (r : Resource) : Status :=
  if !r.id.valid then .error .invalidArgument "resource id" 0
  else if r.klass = .count then .error .invalidArgument "resource class" r.klass.toNat
  else if r.protection = .count then .error .invalidArgument "protection class" r.protection.toNat
  else if !r.definitionGeneration.known then
    .error .staleGeneration "resource definition generation unbound" r.id.value.toNat
  else .success

def digestInto (r : Resource) (b : DigestBuilder) : DigestBuilder :=
  let b := ((b.domain 0x30).updateU64 r.id.value.toNat).updateU32 r.name.toNat
  let b := (b.updateU8 r.klass.toNat).updateU8 r.protection.toNat
  ((digestGeneration b r.definitionGeneration).updateBool r.acceptsPropagation).updateDigest
    r.provenance

end Resource

inductive EdgeFlagKind
  | barrier | amplifying | recoveryOnly | provisional
  deriving DecidableEq, Repr

def EdgeFlagKind.mask : EdgeFlagKind → UInt16
  | .barrier => 1
  | .amplifying => 2
  | .recoveryOnly => 4
  | .provisional => 8

/-- Small bitset of edge flags. -/
structure EdgeFlags where
  bits : UInt16 := 0
  deriving DecidableEq, Repr

def EdgeFlags.has (f : EdgeFlags) (k : EdgeFlagKind) : Bool := f.bits &&& k.mask != 0

def kMaxEdgeHops : UInt32 := 64

/-- Pressure observed at `src` is a reason for pressure at `dst`. -/
structure DependencyEdge where
  id : EdgeId := {}
  src : ResourceId := {}
  dst : ResourceId := {}
  attenuation : Attenuation := .zero
  amplification : Gain := .unity
  maxHops : UInt32 := 0
  dependencyGeneration : Generation := {}
  cooldownTicks : Tick := 0
  priority : UInt16 := 0
  flags : EdgeFlags := {}
  provenance : Digest128 := {}
  deriving DecidableEq, Repr

namespace DependencyEdge

def isSelfLoop (e : DependencyEdge) : Bool := e.src == e.dst

def isAmplifying (e : DependencyEdge) : Bool := e.flags.has .amplifying && !e.amplification.isUnity

def isBarrier (e : DependencyEdge) : Bool := e.flags.has .barrier

def validate (e : DependencyEdge) : Status :=
  if !e.id.valid then .error .invalidArgument "edge id" 0
  else if !e.src.valid || !e.dst.valid then .error .invalidArgument "edge endpoint" 0
  else if !e.dependencyGeneration.known then
    .error .staleGeneration "edge generation unbound" e.id.value.toNat
  else if kMaxEdgeHops < e.maxHops then .error .outOfRange "edge max hops" e.maxHops.toNat
  else if e.isAmplifying && e.isBarrier then
    .error .conflict "amplifying barrier edge" e.id.value.toNat
  else .success

/-- Deterministic traversal order: priority, then target, then edge identity. -/
def precedes (a b : DependencyEdge) : Bool :=
  if a.priority ≠ b.priority then decide (a.priority < b.priority)
  else if a.dst ≠ b.dst then decide (a.dst < b.dst)
  else decide (a.id < b.id)

def digestInto (e : DependencyEdge) (b : DigestBuilder) : DigestBuilder :=
  let b := [e.id.value, e.src.value, e.dst.value].foldl (fun b v => b.updateU64 v.toNat)
    (b.domain 0x40)
  let b := (b.updateU32 e.attenuation.raw).updateU32 e.amplification.raw
  let b := digestGeneration (b.updateU32 e.maxHops.toNat) e.dependencyGeneration
  let b := (b.updateU64 e.cooldownTicks.toNat).updateU16 e.priority.toNat
  (b.updateU16 e.flags.bits.toNat).updateDigest e.provenance

end DependencyEdge

inductive TopologyIssueKind
  | selfLoop | cyclicComponent | amplifyingEdge | barrierResource | sealedResource
  | observedOnlyResource | isolatedResource | zeroAttenuationEdge | recoveryOnlyEdge
  deriving DecidableEq, Repr

structure TopologyIssue where
  kind : TopologyIssueKind
  edge : EdgeId
  resource : ResourceId
  detail : Nat
  deriving DecidableEq, Repr

structure TopologyStats where
  resourceCount : Nat := 0
  edgeCount : Nat := 0
  maxOutDegree : Nat := 0
  maxInDegree : Nat := 0
  selfLoopCount : Nat := 0
  cyclicResourceCount : Nat := 0
  stronglyConnectedComponents : Nat := 0
  amplifyingEdgeCount : Nat := 0
  barrierResourceCount : Nat := 0
  zeroAttenuationEdgeCount : Nat := 0
  issuesDropped : Nat := 0
  deriving DecidableEq, Repr

/-- Immutable, canonically ordered view of resources and dependency edges. The hash index
of the source is the position of an identity in the ascending resource list. -/
structure Topology where
  resources : List Resource := []
  edges : List DependencyEdge := []
  outOffsets : List Nat := []
  outEdgeIndices : List Nat := []
  issues : List TopologyIssue := []
  cyclicResources : List ResourceId := []
  stats : TopologyStats := {}
  digest : Digest128 := {}
  generation : Generation := {}
  ascending : resources.Pairwise fun a b => a.id < b.id := by simp

namespace Topology

def indexOf (t : Topology) (id : ResourceId) : Option Nat :=
  t.resources.findIdx? fun r => r.id == id

def resourceAt (t : Topology) (index : Nat) : Option Resource := t.resources[index]?

def edgeAt (t : Topology) (index : Nat) : Option DependencyEdge := t.edges[index]?

/-- Edge indices leaving the resource at `index`, in canonical traversal order. -/
def outEdgeIndicesAt (t : Topology) (index : Nat) : List Nat :=
  match t.outOffsets[index]?, t.outOffsets[index + 1]? with
  | some begin, some finish => (t.outEdgeIndices.drop begin).take (finish - begin)
  | _, _ => []

variable {t : Topology}

theorem resourceAt_of_indexOf {id : ResourceId} {i : Nat} (h : t.indexOf id = some i) :
    ∃ r, t.resourceAt i = some r ∧ r.id = id := by
  obtain ⟨hi, hid, -⟩ := List.findIdx?_eq_some_iff_getElem.mp h
  exact ⟨t.resources[i], List.getElem?_eq_getElem hi, eq_of_beq hid⟩

/-- An identity belongs to one index only. -/
theorem index_unique {i j : Nat} {r s : Resource} (hi : t.resourceAt i = some r)
    (hj : t.resourceAt j = some s) (hid : r.id = s.id) : i = j := by
  obtain ⟨hil, rfl⟩ := List.getElem?_eq_some_iff.mp hi
  obtain ⟨hjl, rfl⟩ := List.getElem?_eq_some_iff.mp hj
  have asc := List.pairwise_iff_getElem.mp t.ascending
  rcases Nat.lt_trichotomy i j with h | h | h
  · exact absurd (asc i j hil hjl h) (by simp [StrongId.lt_iff, hid])
  · exact h
  · exact absurd (asc j i hjl hil h) (by simp [StrongId.lt_iff, hid])

theorem indexOf_of_resourceAt {i : Nat} {r : Resource} (h : t.resourceAt i = some r) :
    t.indexOf r.id = some i := by
  have hmem : ∃ s ∈ t.resources, (s.id == r.id) = true := ⟨r, List.mem_of_getElem? h, by simp⟩
  cases hfind : t.indexOf r.id with
  | none =>
    obtain ⟨s, hs, hid⟩ := hmem
    exact absurd hid (by simpa using List.findIdx?_eq_none_iff.mp hfind s hs)
  | some j =>
    obtain ⟨s, hs, hid⟩ := resourceAt_of_indexOf hfind
    rw [index_unique hs h hid]

end Topology

end Backpressure
