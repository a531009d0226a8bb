import Mathlib.Data.List.Nodup
import Mathlib.Data.Set.Card
import Mathlib.Logic.Function.Basic
import Mathlib.Logic.Relation

/-!
# Strongly connected components

The depth-first search that finds the strongly connected components of a graph with one stack of
open nodes: a step relation on explicit frames, the invariant that every step keeps, and what the
search has found when no frame is left. The frames carry the targets that are still unread, so
the graph may list an edge any number of times.
-/

namespace Lib.Components

open Relation

variable {α : Type}

section Graph

variable (edge : α → α → Prop)

/-- Each of the two nodes reaches the other. -/
def Mutual (v w : α) : Prop := ReflTransGen edge v w ∧ ReflTransGen edge w v

/-- The node lies on a directed cycle. -/
def OnCycle (v : α) : Prop := TransGen edge v v

/-- The components that have a cycle. -/
def cyclicComponents : Set (Set α) := {c | ∃ v, OnCycle edge v ∧ c = {w | Mutual edge v w}}

end Graph

section Mutual

variable {edge : α → α → Prop} {u v w : α}

theorem Mutual.refl (v : α) : Mutual edge v v := ⟨.refl, .refl⟩

theorem Mutual.symm (h : Mutual edge v w) : Mutual edge w v := ⟨h.2, h.1⟩

theorem Mutual.trans (h : Mutual edge u v) (h' : Mutual edge v w) : Mutual edge u w :=
  ⟨h.1.trans h'.1, h'.2.trans h.2⟩

/-- A node on a cycle has an edge to itself or shares its component. -/
theorem onCycle_iff : OnCycle edge v ↔ edge v v ∨ ∃ w, w ≠ v ∧ Mutual edge v w := by
  constructor
  · intro h
    obtain ⟨w, hedge, hback⟩ := (TransGen.head'_iff).mp h
    by_cases hw : w = v
    · subst hw
      exact .inl hedge
    · exact .inr ⟨w, hw, .single hedge, hback⟩
  · rintro (h | ⟨w, hw, hto, hback⟩)
    · exact .single h
    · rcases reflTransGen_iff_eq_or_transGen.mp hto with heq | hto
      · exact absurd heq hw
      · exact hto.trans_left hback

theorem OnCycle.mutual (h : OnCycle edge v) (hvw : Mutual edge v w) : OnCycle edge w := by
  rcases reflTransGen_iff_eq_or_transGen.mp hvw.2 with heq | hback
  · exact heq ▸ h
  · exact hback.trans_left hvw.1

end Mutual

/-! ## The search -/

/-- A search in progress. Stacks have their top at the head; a frame holds a node and those of
its targets that are still unread. -/
structure Search (α : Type) where
  index : α → Option Nat := fun _ => none
  low : α → Nat := fun _ => 0
  stack : List α := []
  frames : List (α × List α) := []
  next : Nat := 0
  closed : List (List α) := []

namespace Search

variable {adj : α → List α} {s s' : Search α} {v w : α} {rest : List α}
  {below frames : List (α × List α)}

/-- The number under which a node was entered. -/
def num (s : Search α) (v : α) : Nat := (s.index v).getD 0

/-- The nodes of the frames. -/
def path (s : Search α) : List α := s.frames.map Prod.fst

/-- The edge from `v` to `w` was read. -/
def Read (adj : α → List α) (frames : List (α × List α)) (v w : α) : Prop :=
  w ∈ adj v ∧ ∀ rest, (v, rest) ∈ frames → w ∉ rest

/-- What every step keeps. -/
structure Inv (adj : α → List α) (s : Search α) : Prop where
  bound : ∀ v i, s.index v = some i → i < s.next
  visited : ∀ v, s.index v ≠ none ↔ v ∈ s.stack ∨ v ∈ s.closed.flatten
  apart : ∀ v ∈ s.stack, v ∉ s.closed.flatten
  falling : s.stack.Pairwise fun a b => s.num b < s.num a
  onPath : s.path.Sublist s.stack
  tree : s.path.Pairwise fun x y => ReflTransGen (fun a b => b ∈ adj a) y x
  unread : ∀ f ∈ s.frames, f.2 ⊆ adj f.1
  -- a node of the path reaches whatever was entered after it, and owns what no later one owns
  above : ∀ p ∈ s.path, ∀ x ∈ s.stack, s.num p ≤ s.num x →
    ReflTransGen (fun a b => b ∈ adj a) p x
  owned : ∀ x ∈ s.stack, ∃ p ∈ s.path, s.num p ≤ s.num x
  met : ∀ x ∈ s.stack, ∀ w, Read adj s.frames x w → s.index w ≠ none
  lowReached : ∀ x ∈ s.stack, ∃ w ∈ s.stack, s.num w = s.low x ∧
    ReflTransGen (fun a b => b ∈ adj a) x w
  lowLe : ∀ x ∈ s.stack, s.low x ≤ s.num x
  lowLt : ∀ x ∈ s.stack, x ∉ s.path → s.low x < s.num x
  -- an edge that was read above `p` is accounted for in the low link of `p` or of a later node
  covered : ∀ p ∈ s.path, ∀ x ∈ s.stack, s.num p ≤ s.num x → ∀ w ∈ s.stack,
    Read adj s.frames x w → ∃ q ∈ s.path, s.num p ≤ s.num q ∧ s.low q ≤ s.num w
  closedEdges : ∀ v ∈ s.closed.flatten, ∀ w ∈ adj v, w ∈ s.closed.flatten
  nodup : s.closed.flatten.Nodup
  component : ∀ c ∈ s.closed, ∃ v ∈ c, ∀ w, w ∈ c ↔ Mutual (fun a b => b ∈ adj a) v w

theorem inv_empty : Inv adj ({} : Search α) := by
  constructor <;> simp [path]

/-! ## The stack -/

theorem top_mem (hframes : s.frames = (v, rest) :: below) : v ∈ s.path := by
  rw [path, hframes]
  exact List.mem_cons_self

/-- A node is the top of the path, or below it. -/
theorem path_cases (hframes : s.frames = (v, rest) :: below) {p : α} (hp : p ∈ s.path) :
    p = v ∨ p ∈ below.map Prod.fst := by
  rw [path, hframes] at hp
  exact List.mem_cons.mp hp

section Stack

variable (h : Inv adj s)

include h

theorem Inv.mem_stack_of_path {p : α} (hp : p ∈ s.path) : p ∈ s.stack := h.onPath.subset hp

theorem Inv.nodup_stack : s.stack.Nodup :=
  h.falling.imp fun hlt heq => by
    rw [heq] at hlt
    exact Nat.lt_irrefl _ hlt

theorem Inv.num_lt_next {x : α} (hx : x ∈ s.stack) : s.num x < s.next := by
  cases hindex : s.index x with
  | none => exact absurd hindex ((h.visited x).mpr (.inl hx))
  | some i =>
    show (s.index x).getD 0 < s.next
    rw [hindex]
    exact h.bound x i hindex

theorem Inv.path_falling : s.path.Pairwise fun a b => s.num b < s.num a := h.falling.sublist h.onPath

/-- The top of the path has the greatest number on it. -/
theorem Inv.lt_top (hframes : s.frames = (v, rest) :: below) {p : α} (hp : p ∈ below.map Prod.fst) :
    s.num p < s.num v := by
  have hfalling := h.path_falling
  rw [path, hframes] at hfalling
  exact (List.pairwise_cons.mp hfalling).1 p hp

/-- Without frames nothing is open. -/
theorem Inv.stack_nil (hframes : s.frames = []) : s.stack = [] := by
  refine List.eq_nil_iff_forall_not_mem.mpr fun x hx => ?_
  obtain ⟨p, hp, -⟩ := h.owned x hx
  rw [path, hframes] at hp
  cases hp

/-- What is closed reaches only what is closed. -/
theorem Inv.closed_reach {x y : α} (hx : x ∈ s.closed.flatten)
    (hxy : ReflTransGen (fun a b => b ∈ adj a) x y) : y ∈ s.closed.flatten := by
  induction hxy with
  | refl => exact hx
  | tail _ hedge ih => exact h.closedEdges _ ih _ hedge

end Stack

/-! ## The steps -/

variable [DecidableEq α]

/-- Enter a node that has no number yet. -/
def enter (adj : α → List α) (s : Search α) (v : α) : Search α :=
  { s with
    index := Function.update s.index v (some s.next)
    low := Function.update s.low v s.next
    next := s.next + 1
    stack := v :: s.stack
    frames := (v, adj v) :: s.frames }

/-- Lower the low link of a node. -/
def lower (s : Search α) (v : α) (i : Nat) : Search α :=
  { s with low := Function.update s.low v (min (s.low v) i) }

/-- One step of the search at the top frame. -/
inductive Step (adj : α → List α) : Search α → Search α → Prop
  | enter {s : Search α} {v w : α} {rest below} (frames : s.frames = (v, w :: rest) :: below)
      (new : s.index w = none) :
    Step adj s ({ s with frames := (v, rest) :: below }.enter adj w)
  | done {s : Search α} {v w : α} {rest below} (frames : s.frames = (v, w :: rest) :: below)
      (seen : s.index w ≠ none) (off : w ∉ s.stack) :
    Step adj s { s with frames := (v, rest) :: below }
  | back {s : Search α} {v w : α} {rest below} (frames : s.frames = (v, w :: rest) :: below)
      (on : w ∈ s.stack) :
    Step adj s ({ s with frames := (v, rest) :: below }.lower v (s.num w))
  | leave {s : Search α} {v p : α} {rest below}
      (frames : s.frames = (v, []) :: (p, rest) :: below) (inner : s.low v ≠ s.num v) :
    Step adj s ({ s with frames := (p, rest) :: below }.lower p (s.low v))
  | close {s : Search α} {v : α} {below before kept} (frames : s.frames = (v, []) :: below)
      (root : s.low v = s.num v) (stack : s.stack = before ++ v :: kept) :
    Step adj s
      { s with frames := below, stack := kept, closed := s.closed ++ [before ++ [v]] }

omit [DecidableEq α] in
theorem read_pop {x y : α} (h : Read adj below x y) : Read adj ((v, []) :: below) x y := by
  refine ⟨h.1, fun rest hmem => ?_⟩
  rcases List.mem_cons.mp hmem with heq | hmem
  · cases heq
    exact List.not_mem_nil
  · exact h.2 rest hmem

omit [DecidableEq α] in
/-- Reading one target of the top frame reads one edge. -/
theorem read_advance {x y : α} (h : Read adj ((v, rest) :: below) x y) :
    Read adj ((v, w :: rest) :: below) x y ∨ x = v ∧ y = w := by
  by_cases hnew : x = v ∧ y = w
  · exact .inr hnew
  · refine .inl ⟨h.1, fun unread hmem => ?_⟩
    rcases List.mem_cons.mp hmem with heq | hmem
    · cases heq
      intro hy
      rcases List.mem_cons.mp hy with hyw | hy
      · exact hnew ⟨rfl, hyw⟩
      · exact h.2 rest List.mem_cons_self hy
    · exact h.2 unread (List.mem_cons_of_mem _ hmem)

theorem num_enter_self : (s.enter adj w).num w = s.next := by
  simp [num, enter]

theorem num_enter_of_ne {x : α} (hx : x ≠ w) : (s.enter adj w).num x = s.num x := by
  simp [num, enter, Function.update_of_ne hx]

theorem low_enter_of_ne {x : α} (hx : x ≠ w) : (s.enter adj w).low x = s.low x := by
  simp [enter, Function.update_of_ne hx]

/-- Entering a node below the edge that was just read. -/
theorem Inv.enter (h : Inv adj s) (hnew : s.index w = none) (hpath : frames.map Prod.fst = s.path)
    (hunread : ∀ f ∈ frames, f.2 ⊆ adj f.1)
    (hread : ∀ x y, Read adj frames x y → Read adj s.frames x y ∨ y = w)
    (hreach : ∀ p ∈ s.path, ReflTransGen (fun a b => b ∈ adj a) p w) :
    Inv adj ({ s with frames }.enter adj w) := by
  have hfresh : w ∉ s.stack ∧ w ∉ s.closed.flatten := by
    rw [← not_or, ← h.visited, not_not]
    exact hnew
  have hne : ∀ x ∈ s.stack, x ≠ w := fun x hx heq => hfresh.1 (heq ▸ hx)
  have hnepath : ∀ p ∈ s.path, p ≠ w := fun p hp => hne p (h.mem_stack_of_path hp)
  have hnum : ∀ x ∈ s.stack, ({ s with frames }.enter adj w).num x = s.num x :=
    fun x hx => num_enter_of_ne (hne x hx)
  have hnumw : ({ s with frames }.enter adj w).num w = s.next := num_enter_self
  have hlow : ∀ x ∈ s.stack, ({ s with frames }.enter adj w).low x = s.low x :=
    fun x hx => low_enter_of_ne (hne x hx)
  have hloww : ({ s with frames }.enter adj w).low w = s.next := by simp [Search.enter]
  have hpath' : ({ s with frames }.enter adj w).path = w :: s.path := congrArg (w :: ·) hpath
  have hlt : ∀ x ∈ s.stack, s.num x < s.next := fun x hx => h.num_lt_next hx
  -- nothing that leaves the new node was read
  have hunreadw : ∀ y, ¬Read adj ((w, adj w) :: frames) w y :=
    fun y hy => hy.2 (adj w) List.mem_cons_self hy.1
  have hreadold : ∀ x ∈ s.stack, ∀ y, Read adj ((w, adj w) :: frames) x y →
      Read adj s.frames x y ∨ y = w := by
    intro x hx y hy
    exact hread x y ⟨hy.1, fun unread hmem => hy.2 unread (List.mem_cons_of_mem _ hmem)⟩
  constructor
  case bound =>
    intro v i hv
    show i < s.next + 1
    by_cases hvw : v = w
    · subst hvw
      simp only [Search.enter, Function.update_self, Option.some.injEq] at hv
      omega
    · simp only [Search.enter, Function.update_of_ne hvw] at hv
      have := h.bound v i hv
      omega
  case visited =>
    intro v
    show Function.update s.index w (some s.next) v ≠ none ↔ v ∈ w :: s.stack ∨ _
    by_cases hvw : v = w
    · subst hvw
      simp
    · rw [Function.update_of_ne hvw, h.visited v, List.mem_cons]
      simp [hvw, Search.enter]
  case apart =>
    intro v hv
    rcases List.mem_cons.mp hv with rfl | hv
    · exact hfresh.2
    · exact h.apart v hv
  case falling =>
    refine List.pairwise_cons.mpr ⟨fun x hx => ?_, h.falling.imp_of_mem fun ha hb hab => ?_⟩
    · rw [hnum x hx, hnumw]
      exact hlt x hx
    · rw [hnum _ ha, hnum _ hb]
      exact hab
  case onPath =>
    rw [hpath']
    exact h.onPath.cons_cons w
  case tree =>
    rw [hpath']
    exact List.pairwise_cons.mpr ⟨hreach, h.tree⟩
  case unread =>
    intro f hf
    rcases List.mem_cons.mp hf with rfl | hf
    · exact List.Subset.refl _
    · exact hunread f hf
  case above =>
    rw [hpath']
    intro p hp x hx hle
    rcases List.mem_cons.mp hx with rfl | hx
    · rcases List.mem_cons.mp hp with rfl | hp
      · exact .refl
      · exact hreach p hp
    · rcases List.mem_cons.mp hp with hpw | hp
      · rw [hpw, hnum x hx, hnumw] at hle
        have := hlt x hx
        omega
      · rw [hnum x hx, hnum p (h.mem_stack_of_path hp)] at hle
        exact h.above p hp x hx hle
  case owned =>
    rw [hpath']
    intro x hx
    rcases List.mem_cons.mp hx with rfl | hx
    · exact ⟨x, List.mem_cons_self, Nat.le_refl _⟩
    · obtain ⟨p, hp, hle⟩ := h.owned x hx
      refine ⟨p, List.mem_cons_of_mem w hp, ?_⟩
      rw [hnum x hx, hnum p (h.mem_stack_of_path hp)]
      exact hle
  case met =>
    intro x hx y hy
    show Function.update s.index w (some s.next) y ≠ none
    by_cases hyw : y = w
    · subst hyw
      simp
    · rw [Function.update_of_ne hyw]
      rcases List.mem_cons.mp hx with rfl | hx
      · exact absurd hy (hunreadw y)
      · rcases hreadold x hx y hy with hy | hy
        · exact h.met x hx y hy
        · exact absurd hy hyw
  case lowReached =>
    intro x hx
    rcases List.mem_cons.mp hx with rfl | hx
    · exact ⟨x, List.mem_cons_self, hnumw.trans hloww.symm, .refl⟩
    · obtain ⟨y, hy, hnumy, hxy⟩ := h.lowReached x hx
      refine ⟨y, List.mem_cons_of_mem w hy, ?_, hxy⟩
      rw [hnum y hy, hlow x hx]
      exact hnumy
  case lowLe =>
    intro x hx
    rcases List.mem_cons.mp hx with rfl | hx
    · rw [hnumw, hloww]
    · rw [hnum x hx, hlow x hx]
      exact h.lowLe x hx
  case lowLt =>
    rw [hpath']
    intro x hx hnot
    rcases List.mem_cons.mp hx with rfl | hx
    · exact absurd List.mem_cons_self hnot
    · rw [hnum x hx, hlow x hx]
      exact h.lowLt x hx fun hmem => hnot (List.mem_cons_of_mem w hmem)
  case covered =>
    rw [hpath']
    intro p hp x hx hle y hy hxy
    rcases List.mem_cons.mp hx with rfl | hx
    · exact absurd hxy (hunreadw y)
    rcases List.mem_cons.mp hp with hpw | hp
    · rw [hpw, hnum x hx, hnumw] at hle
      have := hlt x hx
      omega
    have hpstack := h.mem_stack_of_path hp
    rw [hnum x hx, hnum p hpstack] at hle
    rcases List.mem_cons.mp hy with rfl | hy
    · refine ⟨y, List.mem_cons_self, ?_, ?_⟩
      · rw [hnum p hpstack, hnumw]
        exact (hlt p hpstack).le
      · rw [hnumw, hloww]
    · rcases hreadold x hx y hxy with hxy | hyw
      · obtain ⟨q, hq, hpq, hqy⟩ := h.covered p hp x hx hle y hy hxy
        have hqstack := h.mem_stack_of_path hq
        refine ⟨q, List.mem_cons_of_mem w hq, ?_, ?_⟩
        · rw [hnum p hpstack, hnum q hqstack]
          exact hpq
        · rw [hnum y hy, hlow q hqstack]
          exact hqy
      · exact absurd hyw (hne y hy)
  case closedEdges => exact h.closedEdges
  case nodup => exact h.nodup
  case component => exact h.component

omit [DecidableEq α] in
/-- Reading an edge to a node that has a number, which may lower the low link of its source. -/
theorem Inv.advance (h : Inv adj s) (hframes : s.frames = (v, w :: rest) :: below)
    (hseen : s.index w ≠ none) {low : α → Nat} (hother : ∀ x, x ≠ v → low x = s.low x)
    (hle : low v ≤ s.low v)
    (hreached : ∃ y ∈ s.stack, s.num y = low v ∧ ReflTransGen (fun a b => b ∈ adj a) v y)
    (hcover : w ∈ s.stack → low v ≤ s.num w) :
    Inv adj { s with frames := (v, rest) :: below, low } := by
  have hpath : Search.path { s with frames := (v, rest) :: below, low } = s.path := by
    simp [path, hframes]
  have hv : v ∈ s.path := top_mem hframes
  have hread : ∀ x y, Read adj ((v, rest) :: below) x y →
      Read adj s.frames x y ∨ x = v ∧ y = w := by
    rw [hframes]
    exact fun x y => read_advance
  have hless : ∀ x, low x ≤ s.low x := by
    intro x
    by_cases hx : x = v
    · rw [hx]
      exact hle
    · exact (hother x hx).le
  refine { h with
    onPath := hpath ▸ h.onPath, tree := hpath ▸ h.tree, above := hpath ▸ h.above
    owned := hpath ▸ h.owned, unread := ?unread, met := ?met, lowReached := ?lowReached, lowLe := ?lowLe, lowLt := ?lowLt
    covered := ?covered }
  case unread =>
    intro f hf
    rcases List.mem_cons.mp hf with rfl | hf
    · have hsub := h.unread (v, w :: rest) (hframes ▸ List.mem_cons_self)
      exact fun x hx => hsub (List.mem_cons_of_mem w hx)
    · exact h.unread f (hframes ▸ List.mem_cons_of_mem _ hf)
  case met =>
    intro x hx y hxy
    rcases hread x y hxy with hxy | ⟨-, rfl⟩
    · exact h.met x hx y hxy
    · exact hseen
  case lowReached =>
    intro x hx
    by_cases hxv : x = v
    · rw [hxv]
      exact hreached
    · obtain ⟨y, hy, hnum, hxy⟩ := h.lowReached x hx
      exact ⟨y, hy, hnum.trans (hother x hxv).symm, hxy⟩
  case lowLe => exact fun x hx => (hless x).trans (h.lowLe x hx)
  case lowLt =>
    intro x hx hnot
    rw [hpath] at hnot
    exact (hless x).trans_lt (h.lowLt x hx hnot)
  case covered =>
    rw [hpath]
    intro p hp x hx hle y hy hxy
    rcases hread x y hxy with hxy | ⟨rfl, rfl⟩
    · obtain ⟨q, hq, hpq, hqy⟩ := h.covered p hp x hx hle y hy hxy
      exact ⟨q, hq, hpq, (hless q).trans hqy⟩
    · exact ⟨x, hv, hle, hcover hy⟩

theorem Inv.back (h : Inv adj s) (hframes : s.frames = (v, w :: rest) :: below)
    (hon : w ∈ s.stack) :
    Inv adj ({ s with frames := (v, rest) :: below }.lower v (s.num w)) := by
  have hv : v ∈ s.stack := h.mem_stack_of_path (top_mem hframes)
  have hself : Function.update s.low v (min (s.low v) (s.num w)) v = min (s.low v) (s.num w) :=
    Function.update_self ..
  refine h.advance hframes ((h.visited w).mpr (.inl hon))
    (fun x hx => Function.update_of_ne hx _ _) ?_ ?_ ?_
  · rw [hself]
    exact min_le_left _ _
  · rw [hself]
    rcases min_choice (s.low v) (s.num w) with hmin | hmin
    · rw [hmin]
      exact h.lowReached v hv
    · rw [hmin]
      have hedge : w ∈ adj v :=
        h.unread (v, w :: rest) (hframes ▸ List.mem_cons_self) List.mem_cons_self
      exact ⟨w, hon, rfl, .single hedge⟩
  · intro _
    rw [hself]
    exact min_le_right _ _

/-- Leaving a node that is not the root of its component. -/
theorem Inv.leave {p : α} (h : Inv adj s) (hframes : s.frames = (v, []) :: (p, rest) :: below)
    (hinner : s.low v ≠ s.num v) :
    Inv adj ({ s with frames := (p, rest) :: below }.lower p (s.low v)) := by
  have hpath : s.path = v :: p :: below.map Prod.fst := by simp [path, hframes]
  have hpath' : ({ s with frames := (p, rest) :: below }.lower p (s.low v)).path =
      p :: below.map Prod.fst := rfl
  have hv : v ∈ s.stack := h.mem_stack_of_path (top_mem hframes)
  have hp : p ∈ s.path := by
    rw [hpath]
    exact List.mem_cons_of_mem v List.mem_cons_self
  have hlow : s.low v < s.num v := lt_of_le_of_ne (h.lowLe v hv) hinner
  have hpv : s.num p < s.num v := h.lt_top hframes List.mem_cons_self
  have hne : v ≠ p := fun heq => Nat.lt_irrefl _ (heq ▸ hpv)
  have htree := h.tree
  have hfalling := h.path_falling
  have honPath := h.onPath
  rw [hpath] at htree hfalling honPath
  have hsub : ∀ q, q ∈ p :: below.map Prod.fst → q ∈ s.path := by
    intro q hq
    rw [hpath]
    exact List.mem_cons_of_mem v hq
  have hcases : ∀ q ∈ s.path, q = v ∨ q ∈ p :: below.map Prod.fst := by
    rw [hpath]
    exact fun q => List.mem_cons.mp
  have hother : ∀ x, x ≠ p → Function.update s.low p (min (s.low p) (s.low v)) x = s.low x :=
    fun x hx => Function.update_of_ne hx _ _
  have hself : Function.update s.low p (min (s.low p) (s.low v)) p = min (s.low p) (s.low v) :=
    Function.update_self ..
  have hless : ∀ x, Function.update s.low p (min (s.low p) (s.low v)) x ≤ s.low x := by
    intro x
    by_cases hx : x = p
    · rw [hx, hself]
      exact min_le_left _ _
    · exact (hother x hx).le
  have hread : ∀ x y, Read adj ((p, rest) :: below) x y → Read adj s.frames x y := by
    rw [hframes]
    exact fun x y => read_pop
  refine { h with
    onPath := (List.sublist_cons_self v _).trans honPath, tree := (List.pairwise_cons.mp htree).2
    above := fun q hq => h.above q (hsub q hq), met := fun x hx y hy => h.met x hx y (hread x y hy)
    owned := ?owned, unread := ?unread, lowReached := ?lowReached, lowLe := fun x hx => (hless x).trans (h.lowLe x hx)
    lowLt := ?lowLt, covered := ?covered }
  case owned =>
    intro x hx
    obtain ⟨q, hq, hle⟩ := h.owned x hx
    rcases hcases q hq with rfl | hq
    · exact ⟨p, List.mem_cons_self, hpv.le.trans hle⟩
    · exact ⟨q, hq, hle⟩
  case unread => exact fun f hf => h.unread f (hframes ▸ List.mem_cons_of_mem _ hf)
  case lowReached =>
    intro x hx
    show ∃ y ∈ s.stack, s.num y = Function.update s.low p (min (s.low p) (s.low v)) x ∧ _
    by_cases hxp : x = p
    · rw [hxp, hself]
      rcases min_choice (s.low p) (s.low v) with hmin | hmin
      · rw [hmin]
        exact h.lowReached p (hxp ▸ hx)
      · rw [hmin]
        obtain ⟨y, hy, hnum, hvy⟩ := h.lowReached v hv
        exact ⟨y, hy, hnum, ((List.pairwise_cons.mp htree).1 p List.mem_cons_self).trans hvy⟩
    · rw [hother x hxp]
      exact h.lowReached x hx
  case lowLt =>
    intro x hx hnot
    rw [hpath'] at hnot
    refine (hless x).trans_lt ?_
    by_cases hxv : x = v
    · rw [hxv]
      exact hlow
    · refine h.lowLt x hx fun hmem => ?_
      rcases hcases x hmem with heq | hmem
      · exact hxv heq
      · exact hnot hmem
  case covered =>
    rw [hpath']
    intro q hq x hx hle y hy hxy
    obtain ⟨r, hr, hqr, hry⟩ := h.covered q (hsub q hq) x hx hle y hy (hread x y hxy)
    rcases hcases r hr with rfl | hr
    · -- what the finished node accounted for, its parent does now
      refine ⟨p, List.mem_cons_self, ?_, ?_⟩
      · rcases List.mem_cons.mp hq with rfl | hq
        · exact Nat.le_refl _
        · exact ((List.pairwise_cons.mp (List.pairwise_cons.mp hfalling).2).1 q hq).le
      · show Function.update s.low p (min (s.low p) (s.low r)) p ≤ s.num y
        rw [hself]
        exact (min_le_right _ _).trans hry
    · exact ⟨r, hr, hqr, (hless r).trans hry⟩

/-! ### Closing a component -/

omit [DecidableEq α] in
/-- Once every edge of `v` was read and its low link is its number, what is open from `v` on
reaches nothing else that is open. -/
theorem Inv.reach_from_root (h : Inv adj s) (hframes : s.frames = (v, []) :: below)
    (hroot : s.low v = s.num v) {x y : α} (hx : x ∈ s.stack) (hvx : s.num v ≤ s.num x)
    (hxy : ReflTransGen (fun a b => b ∈ adj a) x y) :
    y ∈ s.stack ∧ s.num v ≤ s.num y ∨ y ∈ s.closed.flatten := by
  induction hxy with
  | refl => exact .inl ⟨hx, hvx⟩
  | @tail y z _ hedge ih =>
    rcases ih with ⟨hy, hvy⟩ | hclosed
    · -- no node above `v` is on the path, so the edge was read
      have hread : Read adj s.frames y z := by
        refine ⟨hedge, fun unread hmem => ?_⟩
        rw [hframes] at hmem
        rcases List.mem_cons.mp hmem with heq | hmem
        · cases heq
          exact List.not_mem_nil
        · have hlt := h.lt_top hframes (List.mem_map.mpr ⟨_, hmem, rfl⟩)
          exact absurd hvy (Nat.not_le.mpr hlt)
      rcases (h.visited z).mp (h.met y hy z hread) with hz | hz
      · obtain ⟨q, hq, hvq, hqz⟩ :=
          h.covered v (top_mem hframes) y hy hvy z hz hread
        rcases path_cases hframes hq with rfl | hq
        · exact .inl ⟨hz, hroot ▸ hqz⟩
        · exact absurd hvq (Nat.not_le.mpr (h.lt_top hframes hq))
      · exact .inr hz
    · exact .inr (h.closedEdges y hclosed z hedge)

omit [DecidableEq α] in
/-- Then what is open from `v` on is the component of `v`. -/
theorem Inv.component_of_root (h : Inv adj s) (hframes : s.frames = (v, []) :: below)
    (hroot : s.low v = s.num v) (x : α) :
    x ∈ s.stack ∧ s.num v ≤ s.num x ↔ Mutual (fun a b => b ∈ adj a) v x := by
  have hv : v ∈ s.stack := h.mem_stack_of_path (top_mem hframes)
  constructor
  · rintro ⟨hx, hvx⟩
    refine ⟨h.above v (top_mem hframes) x hx hvx, ?_⟩
    -- follow the low links down to `v`
    induction hk : s.num x using Nat.strong_induction_on generalizing x with
    | _ k ih =>
      subst hk
      by_cases hxv : x = v
      · rw [hxv]
      · have hnot : x ∉ s.path := by
          intro hmem
          rcases path_cases hframes hmem with heq | hmem
          · exact hxv heq
          · exact absurd hvx (Nat.not_le.mpr (h.lt_top hframes hmem))
        obtain ⟨y, hy, hnum, hxy⟩ := h.lowReached x hx
        have hlt : s.num y < s.num x := by
          rw [hnum]
          exact h.lowLt x hx hnot
        rcases h.reach_from_root hframes hroot hx hvx hxy with ⟨-, hvy⟩ | hclosed
        · exact hxy.trans (ih _ hlt y hy hvy rfl)
        · exact absurd hclosed (h.apart y hy)
  · rintro ⟨hvx, hxv⟩
    rcases h.reach_from_root hframes hroot hv (Nat.le_refl _) hvx with hx | hclosed
    · exact hx
    · exact absurd (h.closed_reach hclosed hxv) (h.apart v hv)

omit [DecidableEq α] in
/-- The component is the top of the stack down to `v`. -/
theorem Inv.split_at_root {before kept : List α} (h : Inv adj s)
    (hstack : s.stack = before ++ v :: kept) :
    (∀ x, x ∈ s.stack ∧ s.num v ≤ s.num x ↔ x ∈ before ++ [v]) ∧
      (∀ x ∈ kept, s.num x < s.num v) ∧ v ∉ before := by
  have hfalling := h.falling
  rw [hstack] at hfalling
  obtain ⟨-, hlower, hupper⟩ := List.pairwise_append.mp hfalling
  have hkept : ∀ x ∈ kept, s.num x < s.num v := (List.pairwise_cons.mp hlower).1
  refine ⟨fun x => ?_, hkept, fun hmem => Nat.lt_irrefl _ (hupper v hmem v List.mem_cons_self)⟩
  rw [hstack, List.mem_append, List.mem_append, List.mem_cons, List.mem_singleton]
  constructor
  · rintro ⟨hx | hx | hx, hle⟩
    · exact .inl hx
    · exact .inr hx
    · exact absurd hle (Nat.not_le.mpr (hkept x hx))
  · rintro (hx | rfl)
    · exact ⟨.inl hx, (hupper x hx v List.mem_cons_self).le⟩
    · exact ⟨.inr (.inl rfl), Nat.le_refl _⟩

omit [DecidableEq α] in
theorem sublist_of_cons {before kept path : List α} (hnot : v ∉ before)
    (h : (v :: path).Sublist (before ++ v :: kept)) : path.Sublist kept := by
  induction before with
  | nil => exact List.cons_sublist_cons.mp h
  | cons a before ih =>
    cases h with
    | cons _ h => exact ih (fun hmem => hnot (List.mem_cons_of_mem a hmem)) h
    | cons_cons => exact absurd List.mem_cons_self hnot

omit [DecidableEq α] in
theorem Inv.close {before kept : List α} (h : Inv adj s) (hframes : s.frames = (v, []) :: below)
    (hroot : s.low v = s.num v) (hstack : s.stack = before ++ v :: kept) :
    Inv adj { s with
      frames := below, stack := kept, closed := s.closed ++ [before ++ [v]] } := by
  obtain ⟨hsplit, hkept, hnot⟩ := h.split_at_root hstack
  have hcomponent : ∀ x, x ∈ before ++ [v] ↔ Mutual (fun a b => b ∈ adj a) v x :=
    fun x => (hsplit x).symm.trans (h.component_of_root hframes hroot x)
  have hmem : ∀ x, x ∈ s.stack ↔ x ∈ before ++ [v] ∨ x ∈ kept := by
    intro x
    rw [hstack]
    simp [or_assoc]
  have hold : ∀ x ∈ kept, x ∈ s.stack := fun x hx => (hmem x).mpr (.inr hx)
  have hflat : (s.closed ++ [before ++ [v]]).flatten = s.closed.flatten ++ (before ++ [v]) := by
    simp
  have hpath : s.path = v :: below.map Prod.fst := by simp [path, hframes]
  have honPath := h.onPath
  have htree := h.tree
  rw [hpath] at honPath htree
  have hsub : ∀ q ∈ below.map Prod.fst, q ∈ s.path := by
    intro q hq
    rw [hpath]
    exact List.mem_cons_of_mem v hq
  have hlower : ∀ x ∈ s.stack, s.num x < s.num v → x ∈ kept := by
    intro x hx hlt
    rcases (hmem x).mp hx with hx | hx
    · exact absurd ((hsplit x).mpr hx).2 (Nat.not_le.mpr hlt)
    · exact hx
  have hread : ∀ x y, Read adj below x y → Read adj s.frames x y := by
    rw [hframes]
    exact fun x y => read_pop
  have hnodup := h.nodup_stack
  have hfalling := h.falling
  rw [hstack, List.append_cons] at hnodup hfalling
  refine { h with
    visited := ?visited, apart := ?apart, falling := (List.pairwise_append.mp hfalling).2.1
    onPath := sublist_of_cons hnot (hstack ▸ honPath), tree := (List.pairwise_cons.mp htree).2
    unread := fun f hf => h.unread f (hframes ▸ List.mem_cons_of_mem _ hf)
    above := fun p hp x hx => h.above p (hsub p hp) x (hold x hx), owned := ?owned
    met := fun x hx y hy => h.met x (hold x hx) y (hread x y hy), lowReached := ?lowReached
    lowLe := fun x hx => h.lowLe x (hold x hx), lowLt := ?lowLt, covered := ?covered
    closedEdges := ?closedEdges, nodup := ?nodup, component := ?component }
  case visited =>
    intro x
    refine (h.visited x).trans ?_
    rw [hflat, hmem x, @List.mem_append _ x s.closed.flatten]
    tauto
  case apart =>
    intro x hx hclosed
    rw [hflat] at hclosed
    rcases List.mem_append.mp hclosed with hclosed | hx'
    · exact h.apart x (hold x hx) hclosed
    · exact List.disjoint_of_nodup_append hnodup hx' hx
  case owned =>
    intro x hx
    obtain ⟨q, hq, hle⟩ := h.owned x (hold x hx)
    rcases path_cases hframes hq with rfl | hq
    · exact absurd hle (Nat.not_le.mpr (hkept x hx))
    · exact ⟨q, hq, hle⟩
  case lowReached =>
    intro x hx
    obtain ⟨y, hy, hnum, hxy⟩ := h.lowReached x (hold x hx)
    refine ⟨y, hlower y hy ?_, hnum, hxy⟩
    rw [hnum]
    exact (h.lowLe x (hold x hx)).trans_lt (hkept x hx)
  case lowLt =>
    intro x hx hnot
    refine h.lowLt x (hold x hx) fun hpathx => ?_
    rcases path_cases hframes hpathx with rfl | hpathx
    · exact Nat.lt_irrefl _ (hkept x hx)
    · exact hnot hpathx
  case covered =>
    intro p hp x hx hle y hy hxy
    obtain ⟨q, hq, hpq, hqy⟩ :=
      h.covered p (hsub p hp) x (hold x hx) hle y (hold y hy) (hread x y hxy)
    rcases path_cases hframes hq with rfl | hq
    · rw [hroot] at hqy
      exact absurd hqy (Nat.not_le.mpr (hkept y hy))
    · exact ⟨q, hq, hpq, hqy⟩
  case closedEdges =>
    rw [hflat]
    intro x hx y hxy
    rw [List.mem_append] at hx ⊢
    rcases hx with hx | hx
    · exact .inl (h.closedEdges x hx y hxy)
    · obtain ⟨hx, hvx⟩ := (hsplit x).mpr hx
      rcases h.reach_from_root hframes hroot hx hvx (.single hxy) with hy | hy
      · exact .inr ((hsplit y).mp hy)
      · exact .inl hy
  case nodup =>
    rw [hflat]
    refine h.nodup.append (List.nodup_append.mp hnodup).1 fun x hclosed hx => ?_
    exact h.apart x ((hmem x).mpr (.inl hx)) hclosed
  case component =>
    intro c hc
    rcases List.mem_append.mp hc with hc | hc
    · exact h.component c hc
    · rw [List.mem_singleton.mp hc]
      exact ⟨v, List.mem_append_right _ List.mem_cons_self, hcomponent⟩

/-- Every step keeps the invariant. -/
theorem Step.inv (hstep : Step adj s s') (h : Inv adj s) : Inv adj s' := by
  cases hstep with
  | @enter v w rest below hframes hnew =>
    have hedge : w ∈ adj v :=
      h.unread (v, w :: rest) (hframes ▸ List.mem_cons_self) List.mem_cons_self
    refine h.enter hnew ?_ ?_ ?_ ?_
    · simp [path, hframes]
    · intro f hf
      rcases List.mem_cons.mp hf with rfl | hf
      · exact fun x hx => h.unread (v, w :: rest) (hframes ▸ List.mem_cons_self)
          (List.mem_cons_of_mem w hx)
      · exact h.unread f (hframes ▸ List.mem_cons_of_mem _ hf)
    · intro x y hxy
      rw [hframes]
      exact (read_advance hxy).imp_right And.right
    · intro p hp
      have htree := h.tree
      rw [path, hframes] at htree hp
      rcases List.mem_cons.mp hp with rfl | hp
      · exact .single hedge
      · exact ((List.pairwise_cons.mp htree).1 p hp).tail hedge
  | @done v w rest below hframes hseen hoff =>
    refine h.advance hframes hseen (fun _ _ => rfl) (Nat.le_refl _) ?_ fun hon => absurd hon hoff
    exact h.lowReached v (h.mem_stack_of_path (top_mem hframes))
  | back hframes hon => exact h.back hframes hon
  | leave hframes hinner => exact h.leave hframes hinner
  | close hframes hroot hstack => exact h.close hframes hroot hstack

/-- A node keeps its number. -/
theorem Step.visited (hstep : Step adj s s') {x : α} (hx : s.index x ≠ none) : s'.index x ≠ none := by
  cases hstep with
  | @enter v w rest below hframes hnew =>
    show Function.update s.index w (some s.next) x ≠ none
    by_cases hxw : x = w
    · subst hxw
      simp
    · rw [Function.update_of_ne hxw]
      exact hx
  | done | back | leave | close => exact hx

omit [DecidableEq α] in
/-- The bottom of the path is the root of its component. -/
theorem Inv.root_of_last (h : Inv adj s) (hframes : s.frames = [(v, rest)]) :
    s.low v = s.num v := by
  have hv : v ∈ s.stack := h.mem_stack_of_path (top_mem hframes)
  obtain ⟨y, hy, hnum, -⟩ := h.lowReached v hv
  obtain ⟨p, hp, hle⟩ := h.owned y hy
  rcases path_cases hframes hp with rfl | hp
  · exact (h.lowLe p hv).antisymm (hnum ▸ hle)
  · cases hp

omit [DecidableEq α] in
/-- The root of a component does not lower the low link of its parent. -/
theorem Inv.low_parent {p : α} {unread : List α} (h : Inv adj s)
    (hframes : s.frames = (v, rest) :: (p, unread) :: below) (hroot : s.low v = s.num v) :
    s.low p ≤ s.low v := by
  have hlt : s.num p < s.num v := h.lt_top hframes List.mem_cons_self
  have hp : p ∈ s.path := by
    rw [path, hframes]
    exact List.mem_cons_of_mem v List.mem_cons_self
  have hle := h.lowLe p (h.mem_stack_of_path hp)
  omega

/-! ### Termination -/

/-- What the search still has to read: the frames, and the nodes without a number. -/
def work (nodes : List α) (adj : α → List α) (s : Search α) : Nat :=
  (s.frames.map fun f => f.2.length + 1).sum +
    ((nodes.filter fun v => (s.index v).isNone).map fun v => (adj v).length + 1).sum

omit [DecidableEq α] in
theorem sum_filter_remove {nodes : List α} {f : α → Nat} {p q : α → Bool} (hnodup : nodes.Nodup)
    (hw : w ∈ nodes) (hp : p w = true) (hq : q w = false) (hsame : ∀ x, x ≠ w → q x = p x) :
    ((nodes.filter p).map f).sum = ((nodes.filter q).map f).sum + f w := by
  induction nodes with
  | nil => cases hw
  | cons x rest ih =>
    obtain ⟨hx, hrest⟩ := List.nodup_cons.mp hnodup
    by_cases hxw : x = w
    · subst hxw
      have hkeep : rest.filter p = rest.filter q := by
        refine List.filter_congr fun y hy => (hsame y fun hyx => hx (hyx ▸ hy)).symm
      rw [List.filter_cons_of_pos hp, List.filter_cons_of_neg (by simp [hq]), hkeep, List.map_cons,
        List.sum_cons, Nat.add_comm]
    · have hw' : w ∈ rest := (List.mem_cons.mp hw).resolve_left fun h => hxw h.symm
      have hrec := ih hrest hw'
      cases hpx : p x with
      | true =>
        have hqx : q x = true := (hsame x hxw).trans hpx
        rw [List.filter_cons_of_pos hpx, List.filter_cons_of_pos hqx, List.map_cons, List.map_cons,
          List.sum_cons, List.sum_cons, hrec]
        omega
      | false =>
        have hqx : q x = false := (hsame x hxw).trans hpx
        rw [List.filter_cons_of_neg (by simp [hpx]), List.filter_cons_of_neg (by simp [hqx]), hrec]

theorem work_enter {nodes : List α} (hnodup : nodes.Nodup) (hw : w ∈ nodes)
    (hnew : s.index w = none) : (s.enter adj w).work nodes adj = s.work nodes adj := by
  have hsum : ((nodes.filter fun v => (s.index v).isNone).map fun v => (adj v).length + 1).sum =
      ((nodes.filter fun v => (Function.update s.index w (some s.next) v).isNone).map
        fun v => (adj v).length + 1).sum + ((adj w).length + 1) := by
    refine sum_filter_remove hnodup hw (by simp [hnew]) (by simp) fun x hx => ?_
    rw [Function.update_of_ne hx]
  unfold work
  rw [hsum]
  simp only [enter, List.map_cons, List.sum_cons]
  omega

/-- Every step does one piece of the work. -/
theorem Step.work {nodes : List α} (hnodup : nodes.Nodup)
    (htargets : ∀ v, ∀ w ∈ adj v, w ∈ nodes) (h : Inv adj s) (hstep : Step adj s s') :
    s'.work nodes adj + 1 = s.work nodes adj := by
  cases hstep with
  | @enter v w rest below hframes hnew =>
    have hw : w ∈ nodes := htargets v w
      (h.unread (v, w :: rest) (hframes ▸ List.mem_cons_self) List.mem_cons_self)
    have henter := @work_enter α adj { s with frames := (v, rest) :: below } w _ nodes hnodup hw hnew
    rw [henter]
    simp only [Search.work, hframes, List.map_cons, List.sum_cons, List.length_cons]
    omega
  | done hframes | back hframes =>
    simp only [Search.work, lower, hframes, List.map_cons, List.sum_cons, List.length_cons]
    omega
  | leave hframes | close hframes =>
    simp only [Search.work, lower, hframes, List.map_cons, List.sum_cons, List.length_nil]
    omega

end Search

/-! ## What the search found -/

/-- The parts are components, each listed once. -/
structure Parts (edge : α → α → Prop) (parts : List (List α)) : Prop where
  nodup : parts.flatten.Nodup
  component : ∀ c ∈ parts, ∃ v ∈ c, ∀ w, w ∈ c ↔ Mutual edge v w

theorem Search.Inv.parts {adj : α → List α} {s : Search α} (h : Search.Inv adj s) :
    Parts (fun a b => b ∈ adj a) s.closed := ⟨h.nodup, h.component⟩

namespace Parts

variable {edge : α → α → Prop} {parts : List (List α)} {c : List α} {v : α}

/-- Any member stands for its part. -/
theorem mem_iff (h : Parts edge parts) (hc : c ∈ parts) (hv : v ∈ c) (w : α) :
    w ∈ c ↔ Mutual edge v w := by
  obtain ⟨root, -, hroot⟩ := h.component c hc
  rw [hroot]
  exact ⟨((hroot v).mp hv).symm.trans, ((hroot v).mp hv).trans⟩

/-- A part has a cycle when it has two members or an edge from a member to itself. -/
theorem onCycle_iff (h : Parts edge parts) (hc : c ∈ parts) (hv : v ∈ c) :
    OnCycle edge v ↔ 1 < c.length ∨ ∃ w ∈ c, edge w w := by
  have hnodup : c.Nodup := (List.nodup_flatten.mp h.nodup).1 c hc
  constructor
  · intro hcycle
    rcases Components.onCycle_iff.mp hcycle with hself | ⟨w, hwv, hmutual⟩
    · exact .inr ⟨v, hv, hself⟩
    · have hw : w ∈ c := (h.mem_iff hc hv w).mpr hmutual
      refine .inl (Nat.lt_of_not_le fun hle => hwv ?_)
      match c, hle with
      | [], _ => cases hv
      | [x], _ => rw [List.mem_singleton.mp hv, List.mem_singleton.mp hw]
  · rintro (hlength | ⟨w, hw, hself⟩)
    · have hother : ∃ w ∈ c, w ≠ v := by
        match c, hlength, hnodup with
        | x :: y :: rest, _, hnodup =>
          by_cases hxv : x = v
          · refine ⟨y, by simp, fun hyv => ?_⟩
            rw [hxv, hyv] at hnodup
            simp at hnodup
          · exact ⟨x, List.mem_cons_self, hxv⟩
      obtain ⟨w, hw, hne⟩ := hother
      exact Components.onCycle_iff.mpr (.inr ⟨w, hne, (h.mem_iff hc hv w).mp hw⟩)
    · exact OnCycle.mutual (.single hself) ((h.mem_iff hc hw v).mp hv)

/-- Parts that hold every node on a cycle include one for every component that has one. -/
theorem ncard_cyclicComponents (h : Parts edge parts) (hcover : ∀ v, OnCycle edge v → v ∈ parts.flatten)
    {cyclic : List α → Bool} (hcyclic : ∀ c ∈ parts, cyclic c = true ↔ ∃ v ∈ c, OnCycle edge v) :
    (cyclicComponents edge).ncard = (parts.filter cyclic).length := by
  classical
  have hmem : ∀ C, C ∈ cyclicComponents edge ↔
      C ∈ (parts.filter cyclic).map fun c => {x | x ∈ c} := by
    intro C
    rw [List.mem_map]
    constructor
    · rintro ⟨v, hcycle, rfl⟩
      obtain ⟨c, hc, hv⟩ := List.mem_flatten.mp (hcover v hcycle)
      refine ⟨c, List.mem_filter.mpr ⟨hc, (hcyclic c hc).mpr ⟨v, hv, hcycle⟩⟩, ?_⟩
      exact Set.ext fun w => h.mem_iff hc hv w
    · rintro ⟨c, hc, rfl⟩
      obtain ⟨hc, hyes⟩ := List.mem_filter.mp hc
      obtain ⟨v, hv, hcycle⟩ := (hcyclic c hc).mp hyes
      exact ⟨v, hcycle, Set.ext fun w => h.mem_iff hc hv w⟩
  have hnodup : ((parts.filter cyclic).map fun c => {x | x ∈ c}).Nodup := by
    have hdisjoint : parts.Pairwise fun c d => {x | x ∈ c} ≠ {x | x ∈ d} := by
      refine (List.nodup_flatten.mp h.nodup).2.imp_of_mem fun {c d} hc _ hdisjoint heq => ?_
      obtain ⟨v, hv, -⟩ := h.component c hc
      have hvd : v ∈ {x | x ∈ d} := heq ▸ hv
      exact hdisjoint hv hvd
    exact List.pairwise_map.mpr (hdisjoint.sublist List.filter_sublist)
  have hset : cyclicComponents edge =
      (((parts.filter cyclic).map fun c => {x | x ∈ c}).toFinset : Set (Set α)) :=
    Set.ext fun C => (hmem C).trans (by simp)
  rw [hset, Set.ncard_coe_finset, List.toFinset_card_of_nodup hnodup, List.length_map]

end Parts

end Lib.Components
