import Mathlib.Algebra.BigOperators.Group.List.Basic
import Mathlib.Algebra.GroupWithZero.Nat
import Mathlib.Algebra.Order.BigOperators.Group.List
import Mathlib.Algebra.Order.Group.Nat
import Mathlib.Data.List.Basic

/-!
# Buckets in one array

A counting sort without the counting array of its own: the size of each bucket, the prefix sums
as bucket starts, and one pass that puts every element into the next free slot of its bucket.
Afterwards each bucket is a contiguous run of the array and holds its elements in order.
-/

namespace Lib.Buckets

variable {α : Type}

/-- The elements of a bucket, in order. -/
def members (items : List (Nat × α)) (s : Nat) : List α :=
  (items.filter fun x => x.1 = s).map Prod.snd

def degrees (n : Nat) (items : List (Nat × α)) : List Nat :=
  items.foldl (fun d x => d.modify x.1 (· + 1)) (List.replicate n 0)

/-- Where a bucket starts. -/
def start (n : Nat) (items : List (Nat × α)) (s : Nat) : Nat := ((degrees n items).take s).sum

/-- Put an element into the next free slot of its bucket. -/
def put (s : List α × List Nat) (x : Nat × α) : List α × List Nat :=
  (s.1.set (s.2.getD x.1 0) x.2, s.2.modify x.1 (· + 1))

variable {n s : Nat} {items done rest : List (Nat × α)} {x : Nat × α}

@[simp] theorem members_append : members (done ++ rest) s = members done s ++ members rest s := by
  simp [members]

theorem members_cons_self : members (x :: rest) x.1 = x.2 :: members rest x.1 := by
  simp [members]

theorem members_cons_ne (h : x.1 ≠ s) : members (x :: rest) s = members rest s := by
  simp [members, h]

theorem members_singleton_ne (h : x.1 ≠ s) : members [x] s = [] := members_cons_ne h

theorem members_singleton_self : members [x] x.1 = [x.2] := members_cons_self

theorem mem_members {a : α} : a ∈ members items s ↔ (s, a) ∈ items := by
  simp [members]

theorem length_degrees : (degrees n items).length = n := by
  unfold degrees
  suffices h : ∀ d : List Nat, (items.foldl (fun d x => d.modify x.1 (· + 1)) d).length = d.length by
    rw [h, List.length_replicate]
  induction items with
  | nil => exact fun d => rfl
  | cons x rest ih =>
    intro d
    rw [List.foldl_cons, ih, List.length_modify]

theorem getElem?_degrees (h : s < n) : (degrees n items)[s]? = some (members items s).length := by
  unfold degrees
  suffices hd : ∀ d : List Nat, (items.foldl (fun d x => d.modify x.1 (· + 1)) d)[s]? =
      d[s]?.map (· + (members items s).length) by
    rw [hd, List.getElem?_replicate_of_lt h, Option.map_some, Nat.zero_add]
  induction items with
  | nil =>
    intro d
    simp [members]
  | cons x rest ih =>
    intro d
    rw [List.foldl_cons, ih, List.getElem?_modify]
    by_cases hx : x.1 = s
    · subst hx
      rw [members_cons_self]
      cases d[x.1]? with
      | none => rfl
      | some k => simp; omega
    · rw [members_cons_ne hx]
      cases d[s]? with
      | none => rfl
      | some k => simp [hx]

theorem sum_modify {l : List Nat} {i : Nat} (h : i < l.length) :
    (l.modify i (· + 1)).sum = l.sum + 1 := by
  induction l generalizing i with
  | nil => cases h
  | cons a rest ih =>
    cases i with
    | zero =>
      simp only [List.modify_zero_cons, List.sum_cons]
      omega
    | succ i =>
      have hrest := ih (i := i) (by simpa using h)
      simp only [List.modify_succ_cons, List.sum_cons, hrest]
      omega

theorem sum_degrees (hkeys : ∀ x ∈ items, x.1 < n) : (degrees n items).sum = items.length := by
  unfold degrees
  suffices h : ∀ d : List Nat, (∀ x ∈ items, x.1 < d.length) →
      (items.foldl (fun d x => d.modify x.1 (· + 1)) d).sum = d.sum + items.length by
    rw [h _ (by simpa using hkeys)]
    simp
  clear hkeys
  induction items with
  | nil => exact fun d _ => rfl
  | cons x rest ih =>
    intro d hd
    rw [List.foldl_cons, ih _ fun y hy => by
        rw [List.length_modify]
        exact hd y (List.mem_cons_of_mem x hy),
      sum_modify (hd x List.mem_cons_self), List.length_cons]
    omega

theorem start_succ (items : List (Nat × α)) (h : s < n) :
    start n items (s + 1) = start n items s + (members items s).length := by
  have hlt : s < (degrees n items).length := by
    rw [length_degrees]
    exact h
  have hget : (degrees n items)[s] = (members items s).length :=
    Option.some.inj ((List.getElem?_eq_getElem hlt).symm.trans (getElem?_degrees h))
  rw [start, List.take_succ_eq_append_getElem hlt, List.sum_append, hget]
  simp [start]

theorem start_le {s' : Nat} (h : s ≤ s') : start n items s ≤ start n items s' :=
  (List.take_sublist_take_left h).sum_le_sum fun _ _ => Nat.zero_le _

theorem start_le_length (hkeys : ∀ x ∈ items, x.1 < n) : start n items s ≤ items.length := by
  rw [← sum_degrees hkeys]
  exact (List.take_sublist s _).sum_le_sum fun _ _ => Nat.zero_le _

/-- Prefix sums, by position. -/
theorem getElem?_scanl_add {l : List Nat} {a i : Nat} :
    (l.scanl (· + ·) a)[i]? = if i ≤ l.length then some (a + (l.take i).sum) else none := by
  induction l generalizing a i with
  | nil =>
    cases i with
    | zero => rfl
    | succ i => rfl
  | cons b rest ih =>
    cases i with
    | zero => simp [List.scanl_cons]
    | succ i =>
      have hrest := ih (a := a + b) (i := i)
      simp only [List.length_cons, List.take_succ_cons, List.sum_cons, Nat.add_le_add_iff_right,
        ← Nat.add_assoc]
      rw [← hrest]
      simp [List.scanl_cons]

/-- The buckets after the elements `done` of `items` have been put in place. -/
structure Filled (n : Nat) (items done : List (Nat × α)) (st : List α × List Nat) : Prop where
  length : st.1.length = items.length
  cursor : ∀ s < n, st.2[s]? = some (start n items s + (members done s).length)
  slot : ∀ s < n, ∀ j < (members done s).length,
    st.1[start n items s + j]? = (members done s)[j]?

theorem Filled.nil {slots : List α} {cursors : List Nat} (hlength : slots.length = items.length)
    (hcursors : ∀ s < n, cursors[s]? = some (start n items s)) : Filled n items [] (slots, cursors) :=
  ⟨hlength, fun s hs => by simp [hcursors s hs, members], fun s _ j hj => by cases hj⟩

/-- The next element of the pass finds its cursor, and a slot where the cursor points. -/
theorem Filled.room {st : List α × List Nat} (hkeys : ∀ y ∈ items, y.1 < n)
    (hsplit : items = done ++ x :: rest) (h : Filled n items done st) :
    st.2[x.1]? = some (start n items x.1 + (members done x.1).length) ∧
      start n items x.1 + (members done x.1).length < st.1.length := by
  have hx : x.1 < n := hkeys x (by simp [hsplit])
  have hsize : (members items x.1).length =
      (members done x.1).length + 1 + (members rest x.1).length := by
    rw [hsplit, members_append, members_cons_self, List.length_append, List.length_cons]
    omega
  have hend := start_succ items hx
  have hle : start n items (x.1 + 1) ≤ items.length := start_le_length hkeys
  refine ⟨h.cursor x.1 hx, ?_⟩
  rw [h.length]
  omega

theorem Filled.put {st : List α × List Nat} (hkeys : ∀ y ∈ items, y.1 < n)
    (hsplit : items = done ++ x :: rest) (h : Filled n items done st) :
    Filled n items (done ++ [x]) (put st x) := by
  have hx : x.1 < n := hkeys x (by simp [hsplit])
  obtain ⟨hget, hfits⟩ := h.room hkeys hsplit
  have hsize : (members items x.1).length =
      (members done x.1).length + 1 + (members rest x.1).length := by
    rw [hsplit, members_append, members_cons_self, List.length_append, List.length_cons]
    omega
  have hcursor : st.2.getD x.1 0 = start n items x.1 + (members done x.1).length := by
    rw [List.getD_eq_getElem?_getD, hget]
    rfl
  have hend := start_succ items hx
  refine ⟨?_, fun s hs => ?_, fun s hs j hj => ?_⟩
  · rw [Buckets.put, List.length_set, h.length]
  · rw [Buckets.put, List.getElem?_modify, h.cursor s hs, members_append]
    by_cases hxs : x.1 = s
    · subst hxs
      simp [members_singleton_self]
      omega
    · simp [members_singleton_ne hxs, hxs]
  · rw [Buckets.put, hcursor, members_append]
    by_cases hxs : x.1 = s
    · subst hxs
      rw [members_append, members_singleton_self, List.length_append, List.length_singleton] at hj
      rw [members_singleton_self]
      by_cases hlast : j = (members done x.1).length
      · subst hlast
        rw [List.getElem?_set_self hfits, List.getElem?_concat_length]
      · rw [List.getElem?_set_ne (by omega), h.slot x.1 hs j (by omega),
          List.getElem?_append_left (by omega)]
    · rw [members_append, members_singleton_ne hxs, List.append_nil] at hj
      rw [members_singleton_ne hxs, List.append_nil]
      -- the slot that is written belongs to another bucket
      have hdone : (members done s).length ≤ (members items s).length := by
        rw [hsplit, members_append, List.length_append]
        omega
      have hne : start n items x.1 + (members done x.1).length ≠ start n items s + j := by
        have hends := start_succ items hs
        rcases Nat.lt_or_gt_of_ne hxs with hlt | hgt
        · have hle : start n items (x.1 + 1) ≤ start n items s := start_le hlt
          omega
        · have hle : start n items (s + 1) ≤ start n items x.1 := start_le hgt
          omega
      rw [List.getElem?_set_ne hne, h.slot s hs j hj]

/-- Every bucket is a run of the array after the pass. -/
theorem run_eq_members {slots : List α} {cursors : List Nat} (hkeys : ∀ x ∈ items, x.1 < n)
    (hlength : slots.length = items.length)
    (hcursors : ∀ s < n, cursors[s]? = some (start n items s)) (hs : s < n) :
    (((items.foldl put (slots, cursors)).1.drop (start n items s)).take
      (start n items (s + 1) - start n items s)) = members items s := by
  have hfilled : ∀ rest done (st : List α × List Nat), items = done ++ rest →
      Filled n items done st → Filled n items items (rest.foldl put st) := by
    intro rest
    induction rest with
    | nil =>
      intro done st hsplit h
      rw [List.append_nil] at hsplit
      rw [hsplit] at h ⊢
      exact h
    | cons x rest ih =>
      intro done st hsplit h
      exact ih (done ++ [x]) _ (by simp [hsplit]) (h.put hkeys hsplit)
  have hfinal := hfilled items [] (slots, cursors) rfl (Filled.nil hlength hcursors)
  have hsize := start_succ items hs
  refine List.ext_getElem? fun j => ?_
  rw [List.getElem?_take, List.getElem?_drop]
  split
  case isTrue hj => exact hfinal.slot s hs j (by omega)
  case isFalse hj =>
    rw [List.getElem?_eq_none]
    omega

end Lib.Buckets
