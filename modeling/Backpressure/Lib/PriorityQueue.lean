import Mathlib.Data.List.Perm.Basic
import Mathlib.Data.List.Perm.Subperm

/-!
# Priority queues

A priority queue over a strict comparison `less`, known only by its contents: `pop` hands
out some entry that no other entry outranks. Which of several such entries comes first is
left to the implementation, as the container's contract leaves it.
-/

namespace Lib

structure PriorityQueue (α : Type) (less : α → α → Bool) where
  Carrier : Type
  contents : Carrier → List α
  empty : Carrier
  push : Carrier → α → Carrier
  pop : Carrier → Option (α × Carrier)
  contents_empty : contents empty = []
  contents_push : ∀ q a, (contents (push q a)).Perm (a :: contents q)
  pop_none : ∀ q, pop q = none → contents q = []
  contents_pop : ∀ q a q', pop q = some (a, q') → (contents q).Perm (a :: contents q')
  pop_top : ∀ q a q', pop q = some (a, q') → ∀ b ∈ contents q', less a b = false

namespace PriorityQueue

variable {α : Type} {less : α → α → Bool} (pq : PriorityQueue α less)

/-- The number of queued entries. -/
def size (q : pq.Carrier) : Nat := (pq.contents q).length

variable {pq} {q q' : pq.Carrier} {a b : α}

theorem not_mem_empty : b ∉ pq.contents pq.empty := by simp [pq.contents_empty]

theorem mem_push : b ∈ pq.contents (pq.push q a) ↔ b = a ∨ b ∈ pq.contents q := by
  rw [(pq.contents_push q a).mem_iff, List.mem_cons]

theorem mem_pop (h : pq.pop q = some (a, q')) :
    b ∈ pq.contents q ↔ b = a ∨ b ∈ pq.contents q' := by
  rw [(pq.contents_pop q a q' h).mem_iff, List.mem_cons]

theorem top_mem (h : pq.pop q = some (a, q')) : a ∈ pq.contents q := (mem_pop h).mpr (.inl rfl)

theorem size_push : pq.size (pq.push q a) = pq.size q + 1 := (pq.contents_push q a).length_eq

theorem size_pop (h : pq.pop q = some (a, q')) : pq.size q = pq.size q' + 1 :=
  (pq.contents_pop q a q' h).length_eq

theorem size_empty : pq.size pq.empty = 0 := by simp [size, pq.contents_empty]

theorem pop_eq_none_iff : pq.pop q = none ↔ pq.contents q = [] := by
  refine ⟨pq.pop_none q, fun h => ?_⟩
  rcases hp : pq.pop q with - | ⟨a, q'⟩
  · rfl
  · exact absurd (top_mem hp) (by simp [h])

end PriorityQueue

/-! ## A list scan as a priority queue -/

section Scan

variable {α : Type} (less : α → α → Bool)

/-- Take out the first entry of the list that no later one outranks. -/
def scanPop : List α → Option (α × List α)
  | [] => none
  | a :: rest =>
    match scanPop rest with
    | none => some (a, [])
    | some (b, rest') => if less a b then some (b, a :: rest') else some (a, b :: rest')

variable {less}

theorem scanPop_perm {l : List α} {a : α} {l' : List α} (h : scanPop less l = some (a, l')) :
    l.Perm (a :: l') := by
  induction l generalizing a l' with
  | nil => cases h
  | cons c rest ih =>
    rw [scanPop] at h
    split at h
    case h_1 hnone =>
      cases h
      cases rest with
      | nil => exact List.Perm.refl _
      | cons d rest =>
        rw [scanPop] at hnone
        split at hnone
        · cases hnone
        · split at hnone <;> cases hnone
    case h_2 b rest' hsome =>
      have hperm := ih hsome
      split at h
      · cases h
        exact (hperm.cons c).trans (List.Perm.swap _ _ _)
      · cases h
        exact hperm.cons _

theorem scanPop_none {l : List α} (h : scanPop less l = none) : l = [] := by
  cases l with
  | nil => rfl
  | cons c rest =>
    rw [scanPop] at h
    split at h
    · cases h
    · split at h <;> cases h

/-- Under a comparison that is asymmetric and transitive over incomparability, the scan
hands out a maximal entry. -/
theorem scanPop_top
    (negTrans : ∀ a b c, less a b = false → less b c = false → less a c = false)
    (asymm : ∀ a b, less a b = true → less b a = false)
    {l : List α} {a : α} {l' : List α} (h : scanPop less l = some (a, l')) :
    ∀ b ∈ l', less a b = false := by
  induction l generalizing a l' with
  | nil => cases h
  | cons c rest ih =>
    rw [scanPop] at h
    split at h
    case h_1 => cases h; simp
    case h_2 d rest' hsome =>
      have htop := ih hsome
      split at h
      case isTrue hless =>
        cases h
        intro b hb
        rcases List.mem_cons.mp hb with rfl | hb
        · exact asymm _ _ hless
        · exact htop b hb
      case isFalse hless =>
        cases h
        have hcd : less c d = false := by simpa using hless
        intro b hb
        rcases List.mem_cons.mp hb with rfl | hb
        · exact hcd
        · exact negTrans _ _ _ hcd (htop b hb)

/-- The list scan as a priority queue. -/
def PriorityQueue.scan (less : α → α → Bool) (asymm : ∀ a b, less a b = true → less b a = false)
    (negTrans : ∀ a b c, less a b = false → less b c = false → less a c = false) :
    PriorityQueue α less where
  Carrier := List α
  contents := id
  empty := []
  push q a := a :: q
  pop := scanPop less
  contents_empty := rfl
  contents_push _ _ := List.Perm.refl _
  pop_none _ h := scanPop_none h
  contents_pop _ _ _ h := scanPop_perm h
  pop_top _ _ _ h := scanPop_top negTrans asymm h

end Scan

end Lib
