import Mathlib.Algebra.BigOperators.Group.List.Basic
import Mathlib.Algebra.Order.Ring.Nat
import Mathlib.Data.List.Forall2

/-!
# Lists that are dominated element by element

The second list has, in the order of the first, an element above each of its elements, and maybe
others beside them. What is joined, read off or summed up along the two lists is dominated in the
same way.
-/

namespace Lib.Dominated

open List (SublistForall₂)

variable {α β γ δ : Type*} {R : α → β → Prop} {S : γ → δ → Prop} {l m : List α} {l' m' : List β}

theorem length_le (h : SublistForall₂ R l l') : l.length ≤ l'.length := by
  obtain ⟨k, hk, hsub⟩ := List.sublistForall₂_iff.mp h
  rw [hk.length_eq]
  exact hsub.length_le

theorem exists_above (h : SublistForall₂ R l l') {x : α} (hx : x ∈ l) : ∃ y ∈ l', R x y := by
  induction h with
  | nil => cases hx
  | cons hone _ ih =>
    rcases List.mem_cons.mp hx with rfl | hx
    · exact ⟨_, List.mem_cons_self, hone⟩
    · obtain ⟨y, hy, habove⟩ := ih hx
      exact ⟨y, List.mem_cons_of_mem _ hy, habove⟩
  | cons_right _ ih =>
    obtain ⟨y, hy, habove⟩ := ih hx
    exact ⟨y, List.mem_cons_of_mem _ hy, habove⟩

theorem mono {Q : α → β → Prop} (h : SublistForall₂ R l l') (hRQ : ∀ a b, R a b → Q a b) :
    SublistForall₂ Q l l' := by
  obtain ⟨k, hk, hsub⟩ := List.sublistForall₂_iff.mp h
  exact List.sublistForall₂_iff.mpr ⟨k, hk.imp hRQ, hsub⟩

theorem append (h : SublistForall₂ R l l') (h' : SublistForall₂ R m m') :
    SublistForall₂ R (l ++ m) (l' ++ m') := by
  obtain ⟨k, hk, hsub⟩ := List.sublistForall₂_iff.mp h
  obtain ⟨n, hn, hsub'⟩ := List.sublistForall₂_iff.mp h'
  exact List.sublistForall₂_iff.mpr ⟨k ++ n, List.rel_append hk hn, hsub.append hsub'⟩

theorem flatMap {f : α → List γ} {g : β → List δ} (h : SublistForall₂ R l l')
    (hfg : ∀ a ∈ l, ∀ b ∈ l', R a b → SublistForall₂ S (f a) (g b)) :
    SublistForall₂ S (l.flatMap f) (l'.flatMap g) := by
  induction h with
  | nil => exact .nil
  | @cons a b l l' hab _ ih =>
    rw [List.flatMap_cons, List.flatMap_cons]
    refine append (hfg a List.mem_cons_self b List.mem_cons_self hab) (ih ?_)
    exact fun a' ha' b' hb' =>
      hfg a' (List.mem_cons_of_mem a ha') b' (List.mem_cons_of_mem b hb')
  | @cons_right b l l' _ ih =>
    rw [List.flatMap_cons]
    have hrest := ih fun a' ha' b' hb' => hfg a' ha' b' (List.mem_cons_of_mem b hb')
    exact append (.nil : SublistForall₂ S [] (g b)) hrest

theorem sum_le {f : α → ℕ} {g : β → ℕ} (h : SublistForall₂ R l l')
    (hfg : ∀ a b, R a b → f a ≤ g b) : (l.map f).sum ≤ (l'.map g).sum := by
  induction h with
  | nil => exact Nat.zero_le _
  | @cons a b l l' hab _ ih =>
    rw [List.map_cons, List.map_cons, List.sum_cons, List.sum_cons]
    exact Nat.add_le_add (hfg a b hab) ih
  | cons_right _ ih =>
    rw [List.map_cons, List.sum_cons]
    exact Nat.le_trans ih (Nat.le_add_left _ _)

end Lib.Dominated
