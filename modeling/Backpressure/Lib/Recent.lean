import Backpressure.Lib.Window

/-!
# Queues that forget their oldest element

A new element goes to the back of the queue; one that is there already stays where it is. A queue
that is full forgets the element at its front. An element with few newer ones behind it is not
forgotten yet.
-/

namespace Lib

variable {α σ : Type*} {a x : α} {l l' : List α} {cap m n : Nat}

/-- What an element that comes in makes of the queue. -/
inductive Shifts (cap : Nat) (a : α) (l : List α) : List α → Prop
  | kept : a ∈ l → Shifts cap a l l
  | pushed : a ∉ l → Shifts cap a l (l ++ [a])
  | shifted : a ∉ l → cap ≤ l.length → Shifts cap a l (l.tail ++ [a])

theorem Shifts.mem_self (h : Shifts cap a l l') : a ∈ l' := by
  cases h with
  | kept hmem => exact hmem
  | pushed => exact List.mem_concat_self
  | shifted => exact List.mem_concat_self

theorem Shifts.mem_of_mem (h : Shifts cap a l l') (hx : x ∈ l') : x = a ∨ x ∈ l := by
  cases h with
  | kept => exact .inr hx
  | pushed => exact (List.mem_append.mp hx).symm.imp List.mem_singleton.mp id
  | shifted =>
    exact (List.mem_append.mp hx).symm.imp List.mem_singleton.mp List.mem_of_mem_tail

/-- One of the newest elements of the queue. -/
def Recent (n : Nat) (x : α) (l : List α) : Prop :=
  ∃ front back, l = front ++ x :: back ∧ back.length < n

namespace Recent

theorem mem (h : Recent n x l) : x ∈ l := by
  obtain ⟨front, back, rfl, -⟩ := h
  simp

theorem mono (h : Recent m x l) (hle : m ≤ n) : Recent n x l := by
  obtain ⟨front, back, hl, hback⟩ := h
  exact ⟨front, back, hl, by omega⟩

theorem last : Recent 1 x (l ++ [x]) := ⟨l, [], rfl, Nat.one_pos⟩

/-- An element is not forgotten before as many others have come in as the queue has room for. -/
theorem shifts (h : Recent n x l) (hroom : n < cap) (hshifts : Shifts cap a l l') :
    Recent (n + 1) x l' := by
  obtain ⟨front, back, rfl, hback⟩ := h
  cases hshifts with
  | kept => exact ⟨front, back, rfl, by omega⟩
  | pushed => exact ⟨front, back ++ [a], by simp, by simpa using hback⟩
  | shifted _ hfull =>
    rw [List.length_append, List.length_cons] at hfull
    cases front with
    | nil =>
      rw [List.length_nil] at hfull
      omega
    | cons oldest front => exact ⟨front, back ++ [a], by simp, by simpa using hback⟩

theorem new (hshifts : Shifts cap x l l') (hnew : x ∉ l) : Recent 1 x l' := by
  cases hshifts with
  | kept hmem => exact absurd hmem hnew
  | pushed => exact last
  | shifted => exact last

end Recent

/-- What comes in shifts the queue, and leaves it in good order. -/
structure Forgets (cap : Nat) (queue : σ → List α) (f : σ → α → σ) (ok : σ → Prop) : Prop where
  keeps : ∀ s a, ok s → ok (f s a)
  shifts : ∀ s a, ok s → Shifts cap a (queue s) (queue (f s a))

namespace Forgets

variable {queue : σ → List α} {f : σ → α → σ} {ok : σ → Prop} {s : σ}

theorem keeps_all (h : Forgets cap queue f ok) (hok : ok s) : ok (l.foldl f s) := by
  induction l generalizing s with
  | nil => exact hok
  | cons a rest ih => exact ih (h.keeps s a hok)

theorem mem_of_mem (h : Forgets cap queue f ok) (hok : ok s) (hx : x ∈ queue (l.foldl f s)) :
    x ∈ l ∨ x ∈ queue s := by
  induction l generalizing s with
  | nil => exact .inr hx
  | cons a rest ih =>
    rcases ih (h.keeps s a hok) hx with hrest | hone
    · exact .inl (List.mem_cons_of_mem a hrest)
    · rcases (h.shifts s a hok).mem_of_mem hone with rfl | hold
      · exact .inl List.mem_cons_self
      · exact .inr hold

/-- An element outlasts as many others as there is room for. -/
theorem lasts (h : Forgets cap queue f ok) (hok : ok s) (hx : Recent n x (queue s))
    (hroom : n + l.length ≤ cap) : Recent (n + l.length) x (queue (l.foldl f s)) := by
  induction l generalizing s n with
  | nil => exact hx
  | cons a rest ih =>
    rw [List.length_cons] at hroom ⊢
    have hone := hx.shifts (by omega) (h.shifts s a hok)
    have hrest := ih (h.keeps s a hok) hone (by omega)
    exact hrest.mono (by omega)

/-- An element that comes in with no more others than there is room for. -/
theorem arrives (h : Forgets cap queue f ok) (hok : ok s) (hx : x ∈ l) (hnew : x ∉ queue s)
    (hroom : l.length ≤ cap) : Recent l.length x (queue (l.foldl f s)) := by
  induction l generalizing s with
  | nil => exact absurd hx List.not_mem_nil
  | cons a rest ih =>
    rw [List.length_cons] at hroom ⊢
    by_cases hthis : x ∈ queue (f s a)
    · obtain rfl := ((h.shifts s a hok).mem_of_mem hthis).resolve_right hnew
      have hall := h.lasts (l := rest) (h.keeps s x hok) (.new (h.shifts s x hok) hnew) (by omega)
      exact hall.mono (by omega)
    · have hrest : x ∈ rest := (List.mem_cons.mp hx).resolve_left fun heq =>
        hthis (heq ▸ (h.shifts s a hok).mem_self)
      exact (ih (h.keeps s a hok) hrest hthis (by omega)).mono (by omega)

/-- What another queue remembers still comes in. -/
theorem replays (h : Forgets cap queue f ok) (hok : ok s) (hx : Recent n x l) (hnodup : l.Nodup)
    (hnew : x ∉ queue s) (hroom : n ≤ cap) : Recent n x (queue (l.foldl f s)) := by
  obtain ⟨front, back, rfl, hback⟩ := hx
  have hok₁ : ok (front.foldl f s) := h.keeps_all hok
  have hfront : x ∉ queue (front.foldl f s) := fun hmem =>
    (h.mem_of_mem hok hmem).elim
      (fun hfront => (List.nodup_append.mp hnodup).2.2 x hfront x List.mem_cons_self rfl) hnew
  rw [List.foldl_append, List.foldl_cons]
  have hall := h.lasts (l := back) (h.keeps _ x hok₁) (.new (h.shifts _ x hok₁) hfront) (by omega)
  exact hall.mono (by omega)

end Forgets

/-- A window is such a queue. -/
theorem Window.forgets {α : Type} [DecidableEq α] {cap : Nat} :
    Forgets cap (@Window.queue α _) Window.mark fun w => w.capacity = cap where
  keeps w a hcap := by rw [capacity_mark, hcap]
  shifts w a hcap := by
    by_cases hmem : a ∈ w.queue
    · rw [mark_of_mem hmem]
      exact .kept hmem
    · rw [(mark_new hmem).1, hcap]
      split
      case isTrue hfull => exact .shifted hmem hfull
      case isFalse => exact .pushed hmem

end Lib
