import Mathlib.Data.Finset.Card
import Mathlib.Data.List.Basic

/-!
# A bounded first-in first-out window of distinct elements

A queue with a set index beside it. A new element goes to the back; the oldest elements
leave at the front while the queue is over its capacity, and leave the index with it.
-/

namespace Lib

variable {α : Type} [DecidableEq α]

/-- Drop from the front while the queue is longer than `capacity`. -/
def trim (capacity : Nat) : List α → Finset α → Nat → List α × Finset α × Nat
  | [], index, evictions => ([], index, evictions)
  | a :: rest, index, evictions =>
    if capacity < rest.length + 1 then trim capacity rest (index.erase a) (evictions + 1)
    else (a :: rest, index, evictions)

/-- The queue and its index hold the same elements, each once, within the capacity. -/
structure Window (α : Type) [DecidableEq α] where
  capacity : Nat
  queue : List α := []
  index : Finset α := ∅
  evictions : Nat := 0
  positive : 0 < capacity
  nodup : queue.Nodup
  coherent : ∀ a, a ∈ index ↔ a ∈ queue
  bounded : queue.length ≤ capacity

section Trim

variable {capacity : Nat} {l : List α} {index : Finset α} {evictions : Nat}

theorem trim_suffix : (trim capacity l index evictions).1 <:+ l := by
  induction l generalizing index evictions with
  | nil => exact List.suffix_refl _
  | cons a rest ih =>
    rw [trim]
    split
    · exact ih.trans (List.suffix_cons a rest)
    · exact List.suffix_refl _

theorem trim_length : (trim capacity l index evictions).1.length = min capacity l.length := by
  induction l generalizing index evictions with
  | nil => simp [trim]
  | cons a rest ih =>
    rw [trim]
    split
    · rw [ih, List.length_cons]
      omega
    · simp only [List.length_cons]
      omega

/-- A queue within the capacity is kept as it is. -/
theorem trim_of_le (h : l.length ≤ capacity) :
    trim capacity l index evictions = (l, index, evictions) := by
  cases l with
  | nil => rfl
  | cons a rest =>
    rw [List.length_cons] at h
    rw [trim, if_neg (Nat.not_lt.mpr h)]

theorem trim_push {a : α} (positive : 0 < capacity) (bounded : l.length ≤ capacity) :
    (trim capacity (l ++ [a]) index evictions).1 =
        (if capacity ≤ l.length then l.tail else l) ++ [a] ∧
      (trim capacity (l ++ [a]) index evictions).2.2 =
        if capacity ≤ l.length then evictions + 1 else evictions := by
  by_cases hfull : capacity ≤ l.length
  · cases l with
    | nil => exact absurd positive (Nat.not_lt.mpr hfull)
    | cons b rest =>
      rw [List.length_cons] at bounded hfull
      have hkept : (rest ++ [a]).length ≤ capacity := by simpa using bounded
      have hover : capacity < (rest ++ [a]).length + 1 := by
        simp only [List.length_append, List.length_singleton]
        omega
      simp only [List.cons_append, trim, if_pos hover, trim_of_le hkept, List.length_cons,
        if_pos hfull, List.tail_cons, and_self]
  · have hkept : (l ++ [a]).length ≤ capacity := by
      simp only [List.length_append, List.length_singleton]
      omega
    simp only [trim_of_le hkept, if_neg hfull, and_self]

theorem trim_coherent (nodup : l.Nodup) (h : ∀ a, a ∈ index ↔ a ∈ l) (a : α) :
    a ∈ (trim capacity l index evictions).2.1 ↔ a ∈ (trim capacity l index evictions).1 := by
  induction l generalizing index evictions with
  | nil => exact h a
  | cons b rest ih =>
    obtain ⟨hb, hrest⟩ := List.nodup_cons.mp nodup
    rw [trim]
    split
    · refine ih hrest fun c => ?_
      rw [Finset.mem_erase, h c, List.mem_cons]
      refine ⟨fun ⟨hne, hc⟩ => hc.resolve_left hne, fun hc => ⟨?_, .inr hc⟩⟩
      rintro rfl
      exact hb hc
    · exact h a

end Trim

namespace Window

variable {w : Window α} {a b : α}

theorem ite_zero_pos (n : Nat) : 0 < if n = 0 then 1 else n := by
  split <;> omega

/-- An empty window; a capacity of zero counts as one. -/
def ofCapacity (capacity : Nat) : Window α where
  capacity := if capacity = 0 then 1 else capacity
  positive := ite_zero_pos capacity
  nodup := List.nodup_nil
  coherent := by simp
  bounded := Nat.zero_le _

/-- The window without its elements. -/
def clear (w : Window α) : Window α :=
  { w with
    queue := []
    index := ∅
    nodup := List.nodup_nil
    coherent := by simp
    bounded := Nat.zero_le _ }

def has (w : Window α) (a : α) : Bool := decide (a ∈ w.index)

theorem has_iff : w.has a = true ↔ a ∈ w.queue := by simp [has, w.coherent]

theorem nodup_append_new (h : ¬ a ∈ w.index) : (w.queue ++ [a]).Nodup := by
  have ha : a ∉ w.queue := fun hm => h ((w.coherent a).mpr hm)
  exact List.nodup_append.mpr ⟨w.nodup, by simp, by rintro x hx y hy rfl; simp_all⟩

/-- Put an element at the back unless the window holds it already. -/
def mark (w : Window α) (a : α) : Window α :=
  if h : a ∈ w.index then w
  else
    { w with
      queue := (trim w.capacity (w.queue ++ [a]) (insert a w.index) w.evictions).1
      index := (trim w.capacity (w.queue ++ [a]) (insert a w.index) w.evictions).2.1
      evictions := (trim w.capacity (w.queue ++ [a]) (insert a w.index) w.evictions).2.2
      nodup := (nodup_append_new h).sublist trim_suffix.sublist
      coherent := trim_coherent (nodup_append_new h) fun c => by
        simp [w.coherent c, or_comm]
      bounded := trim_length.trans_le (Nat.min_le_left _ _) }

theorem mark_of_mem (h : a ∈ w.queue) : w.mark a = w := by
  rw [mark, dif_pos ((w.coherent a).mpr h)]

@[simp] theorem capacity_mark : (w.mark a).capacity = w.capacity := by
  unfold mark
  split <;> rfl

theorem mark_suffix : (w.mark a).queue <:+ w.queue ++ [a] ∨ (w.mark a).queue = w.queue := by
  unfold mark
  split
  · exact .inr rfl
  · exact .inl trim_suffix

/-- A new element goes to the back of the queue. -/
theorem getLast?_mark (h : a ∉ w.queue) : (w.mark a).queue.getLast? = some a := by
  have hindex : a ∉ w.index := fun hm => h ((w.coherent a).mp hm)
  have hqueue : (w.mark a).queue =
      (trim w.capacity (w.queue ++ [a]) (insert a w.index) w.evictions).1 := by
    rw [mark, dif_neg hindex]
  have hlen : 0 < (w.mark a).queue.length := by
    rw [hqueue, trim_length, List.length_append, List.length_singleton]
    have := w.positive
    omega
  obtain ⟨dropped, hd⟩ : (w.mark a).queue <:+ w.queue ++ [a] := hqueue ▸ trim_suffix
  have hlast : (dropped ++ (w.mark a).queue).getLast? = some a := by rw [hd]; simp
  rwa [List.getLast?_append_of_ne_nil _ (List.ne_nil_of_length_pos hlen)] at hlast

/-- A new element goes to the back; at the capacity, the oldest one leaves and is counted. -/
theorem mark_new (h : a ∉ w.queue) :
    (w.mark a).queue =
        (if w.capacity ≤ w.queue.length then w.queue.tail else w.queue) ++ [a] ∧
      (w.mark a).evictions =
        if w.capacity ≤ w.queue.length then w.evictions + 1 else w.evictions := by
  have hindex : a ∉ w.index := fun hm => h ((w.coherent a).mp hm)
  rw [mark, dif_neg hindex]
  exact trim_push w.positive w.bounded

/-- A marked element is in the window. -/
theorem mem_mark_self : a ∈ (w.mark a).queue := by
  by_cases h : a ∈ w.queue
  · rwa [mark_of_mem h]
  · exact List.mem_of_getLast? (getLast?_mark h)

theorem mem_of_mem_mark (h : b ∈ (w.mark a).queue) : b = a ∨ b ∈ w.queue := by
  rcases mark_suffix (w := w) (a := a) with hs | hs
  · rcases List.mem_append.mp (hs.subset h) with hb | hb
    · exact .inr hb
    · exact .inl (List.mem_singleton.mp hb)
  · exact .inr (hs ▸ h)

theorem mem_of_mem_foldl_mark {l : List α} (h : b ∈ (l.foldl mark w).queue) :
    b ∈ l ∨ b ∈ w.queue := by
  induction l generalizing w with
  | nil => exact .inr h
  | cons x rest ih =>
    rcases ih h with hrest | hmark
    · exact .inl (List.mem_cons_of_mem x hrest)
    · rcases mem_of_mem_mark hmark with rfl | hold
      · exact .inl List.mem_cons_self
      · exact .inr hold

theorem capacity_foldl_mark {l : List α} : (l.foldl mark w).capacity = w.capacity := by
  induction l generalizing w with
  | nil => rfl
  | cons x rest ih => exact ih.trans capacity_mark

/-- A new element drops nothing of a back part that leaves room for it. -/
theorem queue_mark_new {front back : List α} (h : a ∉ w.queue) (hq : w.queue = front ++ back)
    (hroom : back.length < w.capacity) : ∃ front', (w.mark a).queue = front' ++ (back ++ [a]) := by
  have hindex : a ∉ w.index := fun hm => h ((w.coherent a).mp hm)
  have hqueue : (w.mark a).queue =
      (trim w.capacity (w.queue ++ [a]) (insert a w.index) w.evictions).1 := by
    rw [mark, dif_neg hindex]
  have hlen : (back ++ [a]).length ≤ (w.mark a).queue.length := by
    rw [hqueue, trim_length, hq]
    simp only [List.length_append, List.length_singleton]
    omega
  have hsuffix : (w.mark a).queue <:+ w.queue ++ [a] := hqueue ▸ trim_suffix
  have hback : back ++ [a] <:+ w.queue ++ [a] := by
    rw [hq, List.append_assoc]
    exact List.suffix_append _ _
  obtain ⟨front', hfront⟩ := List.suffix_of_suffix_length_le hback hsuffix hlen
  exact ⟨front', hfront.symm⟩

/-- The elements that the marks put into the window, in order. -/
def inserted (w : Window α) : List α → List α
  | [] => []
  | a :: rest => if a ∈ w.queue then inserted w rest else a :: inserted (w.mark a) rest

/-- An element stays while fewer distinct elements come in behind it than the window holds. -/
theorem mem_foldl_mark_of_few {l front back : List α} (hq : w.queue = front ++ a :: back)
    (hfew : (back ++ w.inserted l).toFinset.card < w.capacity) : a ∈ (l.foldl mark w).queue := by
  induction l generalizing w front back with
  | nil =>
    rw [List.foldl_nil, hq]
    exact List.mem_append_right _ List.mem_cons_self
  | cons x rest ih =>
    rw [List.foldl_cons]
    by_cases hx : x ∈ w.queue
    · rw [inserted, if_pos hx] at hfew
      rw [mark_of_mem hx]
      exact ih hq hfew
    · rw [inserted, if_neg hx] at hfew
      have hnodup : (back ++ [x]).Nodup := by
        have hwhole : (w.queue ++ [x]).Nodup :=
          nodup_append_new fun hm => hx ((w.coherent x).mp hm)
        rw [hq, List.append_assoc, List.cons_append] at hwhole
        exact (List.nodup_append.mp hwhole).2.1.of_cons
      have hsame : back ++ x :: (w.mark x).inserted rest =
          (back ++ [x]) ++ (w.mark x).inserted rest := by simp
      rw [hsame] at hfew
      -- the elements behind are distinct, so they count as many as they are
      have hcount : (back ++ [x]).length ≤
          ((back ++ [x]) ++ (w.mark x).inserted rest).toFinset.card := by
        rw [← List.toFinset_card_of_nodup hnodup]
        refine Finset.card_le_card fun y hy => ?_
        simp only [List.mem_toFinset] at hy ⊢
        exact List.mem_append_left _ hy
      have hroom : (a :: back).length < w.capacity := by
        rw [List.length_append, List.length_singleton] at hcount
        rw [List.length_cons]
        omega
      obtain ⟨front', hfront⟩ := queue_mark_new hx hq hroom
      rw [← capacity_mark (w := w) (a := x)] at hfew
      exact ih hfront hfew

/-- Marking elements that the window did not hold changes its queue. -/
theorem foldl_mark_ne {l : List α} (nonempty : l ≠ []) (new : ∀ x ∈ l, x ∉ w.queue) :
    (l.foldl mark w).queue ≠ w.queue := by
  -- from the first mark on, the element at the back is one of the marked ones
  have hback : ∀ (l : List α) (v : Window α), (∃ x, v.queue.getLast? = some x ∧ x ∉ w.queue) →
      (∀ x ∈ l, x ∉ w.queue) → ∃ x, (l.foldl mark v).queue.getLast? = some x ∧ x ∉ w.queue := by
    intro l
    induction l with
    | nil => exact fun v hv _ => hv
    | cons y rest ih =>
      intro v hv hnew
      refine ih (v.mark y) ?_ fun x hx => hnew x (List.mem_cons_of_mem y hx)
      by_cases hy : y ∈ v.queue
      · rwa [mark_of_mem hy]
      · exact ⟨y, getLast?_mark hy, hnew y List.mem_cons_self⟩
  cases l with
  | nil => exact absurd rfl nonempty
  | cons y rest =>
    have hy := new y List.mem_cons_self
    obtain ⟨x, hx, hxw⟩ := hback rest (w.mark y) ⟨y, getLast?_mark hy, hy⟩
      fun x hx => new x (List.mem_cons_of_mem y hx)
    exact fun heq => hxw (heq ▸ List.mem_of_getLast? hx)

end Window

end Lib
