import Mathlib.Data.List.Basic
import Mathlib.Data.List.Flatten

/-!
# Records in a stream

A list of records of one length, written one after the other, can be told from what follows it: by
its number of records, or by something about each that what follows does not have.
-/

namespace Lib.Records

variable {α ω : Type} {e : α → List ω} {xs ys : List α} {r r' : List ω} {k : Nat}

/-- Records of one length, and different ones for different values. -/
structure Fixed (e : α → List ω) (k : Nat) : Prop where
  length : ∀ x, (e x).length = k
  injective : Function.Injective e

theorem Fixed.head (h : Fixed e k) {x y : α} (heq : e x ++ r = e y ++ r') : x = y ∧ r = r' := by
  obtain ⟨hhead, hrest⟩ := List.append_inj heq ((h.length x).trans (h.length y).symm)
  exact ⟨h.injective hhead, hrest⟩

theorem Fixed.length_flatMap (h : Fixed e k) (xs : List α) :
    (xs.flatMap e).length = xs.length * k := by
  induction xs with
  | nil => simp
  | cons x xs ih =>
    rw [List.flatMap_cons, List.length_append, h.length, ih, List.length_cons, Nat.add_mul]
    omega

/-- As many records on both sides are the same records. -/
theorem Fixed.flatMap_injective (h : Fixed e k) (hlength : xs.length = ys.length)
    (heq : xs.flatMap e ++ r = ys.flatMap e ++ r') : xs = ys ∧ r = r' := by
  induction xs generalizing ys with
  | nil =>
    obtain rfl := List.length_eq_zero_iff.mp hlength.symm
    exact ⟨rfl, heq⟩
  | cons x xs ih =>
    cases ys with
    | nil => simp at hlength
    | cons y ys =>
      rw [List.flatMap_cons, List.flatMap_cons, List.append_assoc, List.append_assoc] at heq
      obtain ⟨rfl, hrest⟩ := h.head heq
      obtain ⟨rfl, hr⟩ := ih (Nat.succ.inj hlength) hrest
      exact ⟨rfl, hr⟩

/-- Records of one length that can be told from what follows them are read back one by one. -/
theorem flatMap_told {P : List ω → Prop} (hlength : ∀ x, (e x).length = k)
    (hfront : ∀ x rest, P (e x ++ rest)) (hr : ¬P r) (hr' : ¬P r')
    (heq : xs.flatMap e ++ r = ys.flatMap e ++ r') : xs.map e = ys.map e ∧ r = r' := by
  induction xs generalizing ys with
  | nil =>
    cases ys with
    | nil => exact ⟨rfl, heq⟩
    | cons y ys =>
      rw [List.flatMap_nil, List.nil_append, List.flatMap_cons, List.append_assoc] at heq
      exact absurd (by rw [heq]; exact hfront y _) hr
  | cons x xs ih =>
    cases ys with
    | nil =>
      rw [List.flatMap_nil, List.nil_append, List.flatMap_cons, List.append_assoc] at heq
      exact absurd (by rw [← heq]; exact hfront x _) hr'
    | cons y ys =>
      rw [List.flatMap_cons, List.flatMap_cons, List.append_assoc, List.append_assoc] at heq
      obtain ⟨hhead, hrest⟩ := List.append_inj heq ((hlength x).trans (hlength y).symm)
      obtain ⟨hmap, htail⟩ := ih hrest
      rw [List.map_cons, List.map_cons, hhead, hmap]
      exact ⟨rfl, htail⟩

/-- Records under a mark end where the mark is missing. -/
theorem Fixed.flatMap_marked (h : Fixed e k) {m : ω} (hmark : ∀ x, (e x).head? = some m)
    (hr : r.head? ≠ some m) (hr' : r'.head? ≠ some m)
    (heq : xs.flatMap e ++ r = ys.flatMap e ++ r') : xs = ys ∧ r = r' := by
  have hfront (x : α) (rest : List ω) : (e x ++ rest).head? = some m := by
    rw [List.head?_append, hmark]
    rfl
  obtain ⟨hmap, hrest⟩ := @flatMap_told _ _ e xs ys r r' k (fun l => l.head? = some m) h.length
    hfront hr hr' heq
  exact ⟨List.map_injective_iff.mpr h.injective hmap, hrest⟩

/-- What the words of a record determine of it, the words of a list determine of all of it. -/
theorem map_of_map {β : Type*} {f : α → β} (h : xs.map e = ys.map e)
    (hf : ∀ x ∈ xs, ∀ y ∈ ys, e x = e y → f x = f y) : xs.map f = ys.map f := by
  induction xs generalizing ys with
  | nil =>
    rw [List.map_nil] at h
    rw [List.map_eq_nil_iff.mp h.symm]
  | cons x xs ih =>
    cases ys with
    | nil => cases h
    | cons y ys =>
      rw [List.map_cons, List.map_cons, List.cons.injEq] at h
      have hhead := hf x List.mem_cons_self y List.mem_cons_self h.1
      have htail := ih h.2 fun a ha b hb =>
        hf a (List.mem_cons_of_mem x ha) b (List.mem_cons_of_mem y hb)
      rw [List.map_cons, List.map_cons, hhead, htail]

end Lib.Records
