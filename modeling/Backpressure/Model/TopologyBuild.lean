import Backpressure.Model.Topology
import Mathlib.Data.List.Sort

/-!
# Building a topology

`Topology::build` of `topology.cpp`: validation, canonical order, the compressed out-edge
lists, issues and statistics, and the strongly connected components by an iterative
depth-first search on explicit frames.
-/

namespace Backpressure

structure TopologyLimits where
  maxResources : Nat := 65536
  maxEdges : Nat := 262144
  maxOutDegree : Nat := 1024
  maxInDegree : Nat := 4096
  deriving DecidableEq, Repr

def kMaxTopologyIssues : Nat := 4096

namespace Topology

/-- The first failing status of a list of declarations. -/
def validateAll {α : Type} (validate : α → Status) : List α → Result Unit
  | [] => .ok ()
  | a :: rest => if (validate a).ok then validateAll validate rest else .error (validate a)

/-- The first element whose key equals that of the element before it. -/
def firstDuplicate {α κ : Type} [DecidableEq κ] (key : α → κ) : List α → Option α
  | a :: b :: rest => if key a = key b then some b else firstDuplicate key (b :: rest)
  | _ => none

/-- Position of an identity in the ascending resource list. -/
def indexIn (resources : List Resource) (id : ResourceId) : Nat :=
  (resources.findIdx? fun r => r.id == id).getD 0

def hasResource (resources : List Resource) (id : ResourceId) : Bool :=
  resources.any fun r => r.id == id

/-- Every edge starts and ends at a declared resource. -/
def checkEndpoints (resources : List Resource) : List DependencyEdge → Result Unit
  | [] => .ok ()
  | e :: rest =>
    if !hasResource resources e.src then fail .notFound "edge source" e.src.value.toNat
    else if !hasResource resources e.dst then fail .notFound "edge target" e.dst.value.toNat
    else checkEndpoints resources rest

def bump (l : List Nat) (i : Nat) : List Nat := l.modify i (· + 1)

def outDegrees (resources : List Resource) (edges : List DependencyEdge) : List Nat :=
  edges.foldl (fun d e => bump d (indexIn resources e.src)) (List.replicate resources.length 0)

def inDegrees (resources : List Resource) (edges : List DependencyEdge) : List Nat :=
  edges.foldl (fun d e => bump d (indexIn resources e.dst)) (List.replicate resources.length 0)

def checkDegrees (limits : TopologyLimits) : List (Nat × Nat) → Result Unit
  | [] => .ok ()
  | (out, inn) :: rest =>
    if limits.maxOutDegree < out then fail .limitExceeded "out degree" out
    else if limits.maxInDegree < inn then fail .limitExceeded "in degree" inn
    else checkDegrees limits rest

/-- Prefix sums of the out-degrees. -/
def offsets (degrees : List Nat) : List Nat := degrees.scanl (· + ·) 0

/-- Each edge index goes to the next free slot of its source. -/
def placeEdges (resources : List Resource) (edges : List DependencyEdge) (outOffsets : List Nat) :
    List Nat :=
  (edges.zipIdx.foldl (fun (s : List Nat × List Nat) (e : DependencyEdge × Nat) =>
    let src := indexIn resources e.1.src
    (s.1.set (s.2.getD src 0) e.2, bump s.2 src))
    (List.replicate edges.length 0, outOffsets.dropLast)).1

structure Findings where
  stats : TopologyStats := {}
  issues : List TopologyIssue := []

/-- Keep an issue while the list is below its bound; count it as dropped otherwise. -/
def Findings.recordIssue (f : Findings) (kind : TopologyIssueKind) (edge : EdgeId)
    (resource : ResourceId) (detail : Nat) : Findings :=
  if kMaxTopologyIssues ≤ f.issues.length then
    { f with stats := { f.stats with issuesDropped := f.stats.issuesDropped + 1 } }
  else { f with issues := f.issues ++ [⟨kind, edge, resource, detail⟩] }

def resourceFindings (f : Findings) (r : Resource × Nat × Nat) : Findings :=
  let (r, out, inn) := r
  let f :=
    match r.protection with
    | .barrier =>
      { f with stats := { f.stats with
          barrierResourceCount := f.stats.barrierResourceCount + 1 } }.recordIssue
        .barrierResource {} r.id 0
    | .sealed => f.recordIssue .sealedResource {} r.id 0
    | .observedOnly => f.recordIssue .observedOnlyResource {} r.id 0
    | .unprotected | .count => f
  if out = 0 ∧ inn = 0 then f.recordIssue .isolatedResource {} r.id 0 else f

def edgeFindings (f : Findings) (e : DependencyEdge) : Findings :=
  let f := if e.isSelfLoop then
    { f with stats := { f.stats with selfLoopCount := f.stats.selfLoopCount + 1 } }.recordIssue
      .selfLoop e.id e.src 0 else f
  let f := if e.isAmplifying then
    { f with stats := { f.stats with
        amplifyingEdgeCount := f.stats.amplifyingEdgeCount + 1 } }.recordIssue
      .amplifyingEdge e.id e.dst e.amplification.raw else f
  let f := if e.attenuation.isZero then
    { f with stats := { f.stats with
        zeroAttenuationEdgeCount := f.stats.zeroAttenuationEdgeCount + 1 } }.recordIssue
      .zeroAttenuationEdge e.id e.dst 0 else f
  if e.flags.has .recoveryOnly then f.recordIssue .recoveryOnlyEdge e.id e.dst 0 else f

/-! ## Strongly connected components -/

/-- The state of the depth-first search; stacks have their top at the head. -/
structure Search where
  index : List (Option Nat)
  low : List Nat
  stack : List Nat := []
  onStack : List Bool
  frames : List (Nat × Nat) := []
  nextIndex : Nat := 0
  components : Nat := 0
  inCycle : List Bool
  findings : Findings

/-- What the search reads. -/
structure Graph where
  resources : List Resource
  outOffsets : List Nat
  targets : List Nat
  selfLoop : List Bool

/-- Enter an unvisited node. -/
def Search.visit (g : Graph) (s : Search) (v : Nat) : Search :=
  { s with
    index := s.index.set v (some s.nextIndex)
    low := s.low.set v s.nextIndex
    nextIndex := s.nextIndex + 1
    stack := v :: s.stack
    onStack := s.onStack.set v true
    frames := (v, g.outOffsets.getD v 0) :: s.frames }

/-- Take the component of its root `v` off the stack. -/
def Search.closeComponent (g : Graph) (s : Search) (v : Nat) : Search :=
  let before := s.stack.takeWhile (· != v)
  let members := before ++ [v]
  let s := { s with
    stack := s.stack.drop (before.length + 1)
    onStack := members.foldl (fun l m => l.set m false) s.onStack }
  if 1 < members.length ∨ g.selfLoop.getD v false = true then
    { s with
      components := s.components + 1
      inCycle := members.foldl (fun l m => l.set m true) s.inCycle
      findings := s.findings.recordIssue .cyclicComponent {}
        ((g.resources[v]?.map Resource.id).getD {}) members.length }
  else s

/-- One iteration of the search: the top frame advances over an edge or is left. -/
def Search.advance (g : Graph) (s : Search) : Search :=
  match s.frames with
  | [] => s
  | (v, cursor) :: rest =>
    if cursor < g.outOffsets.getD (v + 1) 0 then
      let w := g.targets.getD cursor 0
      let s := { s with frames := (v, cursor + 1) :: rest }
      match s.index.getD w none with
      | none => s.visit g w
      | some i =>
        if s.onStack.getD w false ∧ i < s.low.getD v 0 then { s with low := s.low.set v i } else s
    else
      let s := { s with frames := rest }
      let s := match rest with
        | [] => s
        | (parent, _) :: _ =>
          if s.low.getD v 0 < s.low.getD parent 0 then
            { s with low := s.low.set parent (s.low.getD v 0) }
          else s
      if some (s.low.getD v 0) = s.index.getD v none then s.closeComponent g v else s

def Search.runFrames (g : Graph) : Nat → Search → Search
  | 0, s => s
  | fuel + 1, s => if s.frames.isEmpty then s else runFrames g fuel (s.advance g)

/-- Search from every root; each node and each edge costs one iteration. -/
def Search.run (g : Graph) (s : Search) : Search :=
  (List.range g.resources.length).foldl (fun s root =>
    if (s.index.getD root none).isSome then s
    else (s.visit g root).runFrames g (g.resources.length + g.targets.length + 1)) s

/-! ## The result -/

/-- Canonical digest of resources, then edges. -/
def digestOf (resources : List Resource) (edges : List DependencyEdge) : Digest128 :=
  let b := (DigestBuilder.domain {} 0x60).updateU32 resources.length
  let b := resources.foldl (fun b r => r.digestInto b) b
  let b := b.updateU32 edges.length
  (edges.foldl (fun b e => e.digestInto b) b).finish

theorem ascending_of_sorted {l : List Resource} (sorted : l.Pairwise fun a b => a.id ≤ b.id)
    (distinct : firstDuplicate Resource.id l = none) : l.Pairwise fun a b => a.id < b.id := by
  induction l with
  | nil => exact List.Pairwise.nil
  | cons a rest ih =>
    obtain ⟨ha, hrest⟩ := List.pairwise_cons.mp sorted
    cases rest with
    | nil => exact List.pairwise_singleton _ _
    | cons b rest =>
      rw [firstDuplicate] at distinct
      split at distinct
      · cases distinct
      case isFalse hne =>
        have hasc := ih hrest distinct
        refine List.pairwise_cons.mpr ⟨fun c hc => ?_, hasc⟩
        have hab : a.id < b.id := by
          have hle := ha b List.mem_cons_self
          rw [StrongId.le_iff] at hle
          rw [StrongId.lt_iff]
          exact lt_of_le_of_ne hle fun heq => hne (StrongId.ext_toNat heq)
        rcases List.mem_cons.mp hc with rfl | hc
        · exact hab
        · have hbc := (List.pairwise_cons.mp hasc).1 c hc
          rw [StrongId.lt_iff] at hab hbc ⊢
          exact hab.trans hbc

/-- Canonical order of the resources. -/
def sortById (resources : List Resource) : List Resource :=
  resources.insertionSort fun a b => a.id ≤ b.id

theorem sorted_sortById (l : List Resource) : (sortById l).Pairwise fun a b => a.id ≤ b.id := by
  have : Std.Total fun a b : Resource => a.id ≤ b.id :=
    ⟨fun a b => by simp only [StrongId.le_iff]; omega⟩
  have : IsTrans Resource fun a b => a.id ≤ b.id :=
    ⟨fun a b c => by simp only [StrongId.le_iff]; omega⟩
  exact List.pairwise_insertionSort _ l

/-- Everything after the declarations are in canonical order. -/
def assemble (resources : List Resource) (edges : List DependencyEdge) (limits : TopologyLimits)
    (allowCycles : Bool) (ascending : resources.Pairwise fun a b => a.id < b.id) :
    Result Topology :=
  let out := outDegrees resources edges
  let inn := inDegrees resources edges
  match checkDegrees limits (out.zip inn) with
  | .error st => .error st
  | .ok () =>
    let outOffsets := offsets out
    let outEdgeIndices := placeEdges resources edges outOffsets
    let findings := edges.foldl edgeFindings ((resources.zip (out.zip inn)).foldl resourceFindings
      { stats := { maxOutDegree := out.foldl max 0, maxInDegree := inn.foldl max 0 } })
    let n := resources.length
    let graph : Graph :=
      { resources
        outOffsets
        targets := outEdgeIndices.map fun e =>
          indexIn resources ((edges[e]?.map DependencyEdge.dst).getD {})
        selfLoop := edges.foldl (fun l e =>
          if e.isSelfLoop then l.set (indexIn resources e.src) true else l) (List.replicate n false) }
    let search := Search.run graph
      { index := List.replicate n none, low := List.replicate n 0
        onStack := List.replicate n false, inCycle := List.replicate n false, findings }
    let cyclic := ((resources.zip search.inCycle).filter Prod.snd).map fun r => r.1.id
    if !allowCycles && !cyclic.isEmpty then
      fail .cycleDetected "topology contains cycles" cyclic.length
    else
      let digest := digestOf resources edges
      .ok
        { resources, edges, outOffsets, outEdgeIndices, ascending, digest
          issues := search.findings.issues
          cyclicResources := cyclic
          stats := { search.findings.stats with
            cyclicResourceCount := cyclic.length
            stronglyConnectedComponents := search.components
            resourceCount := n
            edgeCount := edges.length }
          generation := .fromRaw digest.fold64 }

/-- Canonicalise and validate declarations. -/
def build (resources : List Resource) (edges : List DependencyEdge) (limits : TopologyLimits)
    (allowCycles : Bool) : Result Topology :=
  if limits.maxOutDegree = 0 ∨ limits.maxInDegree = 0 ∨ limits.maxResources = 0 ∨
      limits.maxEdges = 0 then fail .invalidArgument "topology limits" 0
  else if limits.maxResources < resources.length then
    fail .limitExceeded "topology resources" resources.length
  else if limits.maxEdges < edges.length then fail .limitExceeded "topology edges" edges.length
  else match validateAll Resource.validate resources with
  | .error st => .error st
  | .ok () =>
    match h : firstDuplicate Resource.id (sortById resources) with
    | some r => fail .duplicate "duplicate resource" r.id.value.toNat
    | none =>
      match validateAll DependencyEdge.validate edges with
      | .error st => .error st
      | .ok () =>
        let edges := edges.insertionSort fun a b => b.precedes a = false
        match firstDuplicate DependencyEdge.id edges with
        | some e => fail .duplicate "duplicate edge" e.id.value.toNat
        | none =>
          match checkEndpoints (sortById resources) edges with
          | .error st => .error st
          | .ok () => assemble (sortById resources) edges limits allowCycles
            (ascending_of_sorted (sorted_sortById resources) h)

/-- The topology is the result of a build. -/
def Built (topo : Topology) : Prop :=
  ∃ resources edges limits allowCycles, build resources edges limits allowCycles = .ok topo

/-- One valid resource without edges builds. -/
theorem build_singleton {r : Resource} (h : r.validate.ok = true) :
    ∃ topo : Topology, topo.Built ∧ topo.resources = [r] ∧ topo.digest.isZero = false := by
  have hbuild : ∃ topo, build [r] [] {} true = .ok topo ∧ topo.resources = [r] ∧
      topo.digest = digestOf [r] [] := by
    unfold build
    rw [if_neg (by decide), if_neg (by simp), if_neg (by simp)]
    simp only [validateAll, h, if_true]
    split
    case h_1 hdup => cases hdup
    case h_2 => exact ⟨_, rfl, rfl, rfl⟩
  obtain ⟨topo, hok, hres, hdigest⟩ := hbuild
  refine ⟨topo, ⟨_, _, _, _, hok⟩, hres, ?_⟩
  rw [hdigest]
  exact DigestBuilder.finish_isZero _

end Topology

end Backpressure
