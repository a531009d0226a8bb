import Backpressure.Lib.Components
import Backpressure.Model.OutEdges

/-!
# The cycles of a topology

The iterative search of `Topology::build` goes through the steps of the search for strongly
connected components, with cursors into the compressed out-edge lists in place of the lists of
unread targets. What it reports as cyclic is what lies on a directed cycle of the dependencies.
-/

namespace Backpressure

namespace Topology

open Relation Lib.Components

/-! ## Tables -/

section Tables

variable {β : Type} {n v : Nat} {f : Nat → β}

theorem getD_map_range (hv : v < n) (d : β) : ((List.range n).map f).getD v d = f v := by
  rw [List.getD_eq_getElem?_getD, List.getElem?_map, List.getElem?_range hv]
  rfl

theorem set_map_range (x : β) :
    ((List.range n).map f).set v x = (List.range n).map (Function.update f v x) := by
  apply List.ext_getElem
  · simp
  · intro i hi hi'
    rw [List.getElem_set]
    by_cases hvi : v = i
    · subst hvi
      simp
    · rw [if_neg hvi]
      simp [Function.update_of_ne (Ne.symm hvi)]

theorem foldl_set_map_range (members : List Nat) (x : β) :
    members.foldl (fun l m => l.set m x) ((List.range n).map f) =
      (List.range n).map fun v => if v ∈ members then x else f v := by
  induction members generalizing f with
  | nil => simp
  | cons m rest ih =>
    rw [List.foldl_cons, set_map_range, ih]
    refine List.map_congr_left fun v _ => ?_
    by_cases hm : v = m
    · subst hm
      simp
    · simp [hm]

end Tables

/-! ## The search of the source -/

variable {g : Graph} {c : Search} {a : Lib.Components.Search Nat} {v w cursor : Nat}
  {rest : List (Nat × Nat)}

/-- The targets of a node from a cursor on. -/
def Graph.unread (g : Graph) (f : Nat × Nat) : List Nat :=
  (g.targets.take (g.outOffsets.getD (f.1 + 1) 0)).drop f.2

def Graph.adj (g : Graph) (v : Nat) : List Nat := g.unread (v, g.outOffsets.getD v 0)

/-- The compressed lists are in order and hold indices of resources. -/
structure Graph.Wf (g : Graph) : Prop where
  ascending : ∀ v < g.resources.length, g.outOffsets.getD v 0 ≤ g.outOffsets.getD (v + 1) 0
  inside : ∀ v < g.resources.length, g.outOffsets.getD (v + 1) 0 ≤ g.targets.length
  targets : ∀ w ∈ g.targets, w < g.resources.length
  selfLoop : ∀ v < g.resources.length, g.selfLoop.getD v false = true ↔ v ∈ g.adj v

/-- What the source tests of a component that it takes off the stack. -/
def Graph.cyclic (g : Graph) (members : List Nat) : Bool :=
  decide (1 < members.length) || members.any fun v => g.selfLoop.getD v false

/-- The state of the source stands for the abstract one. -/
structure Stands (g : Graph) (c : Search) (a : Lib.Components.Search Nat) : Prop where
  index : c.index = (List.range g.resources.length).map a.index
  low : c.low = (List.range g.resources.length).map a.low
  stack : c.stack = a.stack
  onStack : c.onStack = (List.range g.resources.length).map fun v => decide (v ∈ a.stack)
  frames : a.frames = c.frames.map fun f => (f.1, g.unread f)
  next : c.nextIndex = a.next
  components : c.components = (a.closed.filter g.cyclic).length
  inCycle : c.inCycle = (List.range g.resources.length).map fun v =>
    decide (v ∈ (a.closed.filter g.cyclic).flatten)
  inside : ∀ v, a.index v ≠ none → v < g.resources.length

theorem unread_cons (hlt : cursor < g.outOffsets.getD (v + 1) 0)
    (hinside : g.outOffsets.getD (v + 1) 0 ≤ g.targets.length) :
    g.unread (v, cursor) = g.targets.getD cursor 0 :: g.unread (v, cursor + 1) := by
  have hlen : cursor < (g.targets.take (g.outOffsets.getD (v + 1) 0)).length := by
    rw [List.length_take]
    omega
  have hget : g.targets.getD cursor 0 = g.targets.get ⟨cursor, by omega⟩ := by
    rw [List.getD_eq_getElem?_getD, List.getElem?_eq_getElem (by omega), Option.getD_some,
      List.get_eq_getElem]
  unfold Graph.unread
  rw [List.drop_eq_getElem_cons hlen, List.getElem_take, hget]
  rfl

theorem unread_nil (hle : ¬cursor < g.outOffsets.getD (v + 1) 0) : g.unread (v, cursor) = [] := by
  refine List.drop_eq_nil_of_le ?_
  rw [List.length_take]
  show min (g.outOffsets.getD (v + 1) 0) _ ≤ cursor
  omega

/-- Entering a node. -/
theorem Stands.visit (h : Stands g c a) (hv : v < g.resources.length) :
    Stands g (c.visit g v) (a.enter g.adj v) := by
  constructor
  case index =>
    show c.index.set v (some c.nextIndex) = _
    rw [h.index, set_map_range, h.next]
    rfl
  case low =>
    show c.low.set v c.nextIndex = _
    rw [h.low, set_map_range, h.next]
    rfl
  case stack => exact congrArg (v :: ·) h.stack
  case onStack =>
    show c.onStack.set v true = _
    rw [h.onStack, set_map_range]
    refine List.map_congr_left fun x _ => ?_
    show _ = decide (x ∈ v :: a.stack)
    by_cases hx : x = v
    · subst hx
      simp
    · simp [hx]
  case frames => exact congrArg ((v, g.adj v) :: ·) h.frames
  case next => exact congrArg (· + 1) h.next
  case components => exact h.components
  case inCycle => exact h.inCycle
  case inside =>
    intro x hx
    by_cases hxv : x = v
    · exact hxv ▸ hv
    · refine h.inside x fun hnone => hx ?_
      exact (Function.update_of_ne hxv _ _).trans hnone

/-- Moving the cursor of the top frame. -/
theorem Stands.moved (h : Stands g c a) (rest : List (Nat × Nat)) :
    Stands g { c with frames := rest } { a with frames := rest.map fun f => (f.1, g.unread f) } :=
  { h with frames := rfl }

/-- Lowering a low link. -/
theorem Stands.lowered (h : Stands g c a) (hv : v < g.resources.length) (i : Nat) :
    Stands g (if i < c.low.getD v 0 then { c with low := c.low.set v i } else c) (a.lower v i) := by
  have hlow : c.low.getD v 0 = a.low v := by rw [h.low, getD_map_range hv]
  rw [hlow]
  split
  case isTrue hlt =>
    refine { h with low := ?_ }
    show c.low.set v i = (List.range _).map (Function.update a.low v (min (a.low v) i))
    rw [h.low, set_map_range, min_eq_right hlt.le]
  case isFalse hge =>
    refine { h with low := ?_ }
    show c.low = (List.range _).map (Function.update a.low v (min (a.low v) i))
    rw [h.low, min_eq_left (Nat.le_of_not_lt hge), Function.update_eq_self]

/-- The members of a component and what stays below its root. -/
theorem split_stack {l : List Nat} (hv : v ∈ l) :
    l = l.takeWhile (· != v) ++ v :: l.drop ((l.takeWhile (· != v)).length + 1) := by
  induction l with
  | nil => cases hv
  | cons x rest ih =>
    by_cases hx : x = v
    · subst hx
      simp
    · have hmem : v ∈ rest := (List.mem_cons.mp hv).resolve_left fun h => hx h.symm
      have hne : (x != v) = true := by simpa using hx
      have hwhile : (x :: rest).takeWhile (· != v) = x :: rest.takeWhile (· != v) :=
        List.takeWhile_cons_of_pos hne
      rw [hwhile, List.length_cons, List.drop_succ_cons, List.cons_append, ← ih hmem]

/-- Taking a component off the stack. -/
theorem Stands.closed (h : Stands g c a) (hnodup : a.stack.Nodup) {before kept : List Nat}
    (hstack : a.stack = before ++ v :: kept) (hsplit : before = a.stack.takeWhile (· != v))
    (hkept : kept = a.stack.drop (before.length + 1)) :
    Stands g (c.closeComponent g v)
      { a with stack := kept, closed := a.closed ++ [before ++ [v]] } := by
  have hmembers : c.stack.takeWhile (· != v) ++ [v] = before ++ [v] := by rw [h.stack, hsplit]
  have hcyclic : (1 < (before ++ [v]).length ∨ g.selfLoop.getD v false = true) ↔
      g.cyclic (before ++ [v]) = true := by
    unfold Graph.cyclic
    rw [Bool.or_eq_true, decide_eq_true_iff, List.any_append, Bool.or_eq_true]
    cases before with
    | nil => simp
    | cons x rest => simp
  have hdisjoint : ∀ x ∈ kept, x ∉ before ++ [v] := by
    intro x hx hmem
    rw [hstack, List.append_cons] at hnodup
    exact List.disjoint_of_nodup_append hnodup hmem hx
  have hon : (before ++ [v]).foldl (fun l m => l.set m false) c.onStack =
      (List.range g.resources.length).map fun x => decide (x ∈ kept) := by
    rw [h.onStack, foldl_set_map_range]
    refine List.map_congr_left fun x _ => ?_
    by_cases hx : x ∈ before ++ [v]
    · rw [if_pos hx]
      exact (decide_eq_false fun hk => hdisjoint x hk hx).symm
    · rw [if_neg hx, hstack, List.append_cons]
      simp only [List.mem_append] at hx ⊢
      exact decide_eq_decide.mpr ⟨fun hmem => hmem.resolve_left hx, .inr⟩
  have hflat : (a.closed ++ [before ++ [v]]).filter g.cyclic = a.closed.filter g.cyclic ++
      if g.cyclic (before ++ [v]) then [before ++ [v]] else [] := by
    rw [List.filter_append, List.filter_cons, List.filter_nil]
  unfold Search.closeComponent
  dsimp only
  rw [hmembers]
  split
  case isTrue hyes =>
    have hyes := hcyclic.mp hyes
    constructor
    case index => exact h.index
    case low => exact h.low
    case stack =>
      show c.stack.drop _ = kept
      rw [h.stack, hkept, hsplit]
    case onStack => exact hon
    case frames => exact h.frames
    case next => exact h.next
    case components =>
      show c.components + 1 = _
      rw [hflat, if_pos hyes, List.length_append, h.components]
      rfl
    case inCycle =>
      show (before ++ [v]).foldl (fun l m => l.set m true) c.inCycle = _
      rw [h.inCycle, foldl_set_map_range, hflat, if_pos hyes, List.flatten_append]
      refine List.map_congr_left fun x _ => ?_
      by_cases hx : x ∈ before ++ [v]
      · rw [if_pos hx]
        exact (decide_eq_true (List.mem_append_right _ (by simpa using hx))).symm
      · rw [if_neg hx]
        have hnew : x ∉ [before ++ [v]].flatten := by simpa using hx
        refine decide_eq_decide.mpr ⟨List.mem_append_left _, fun hmem => ?_⟩
        exact (List.mem_append.mp hmem).resolve_right hnew
    case inside => exact h.inside
  case isFalse hno =>
    have hno : ¬g.cyclic (before ++ [v]) = true := fun hyes => hno (hcyclic.mpr hyes)
    rw [if_neg hno, List.append_nil] at hflat
    constructor
    case index => exact h.index
    case low => exact h.low
    case stack =>
      show c.stack.drop _ = kept
      rw [h.stack, hkept, hsplit]
    case onStack => exact hon
    case frames => exact h.frames
    case next => exact h.next
    case components =>
      rw [hflat]
      exact h.components
    case inCycle =>
      rw [hflat]
      exact h.inCycle
    case inside => exact h.inside

/-! ### The branches of an iteration -/

theorem advance_enter (hframes : c.frames = (v, cursor) :: rest)
    (hlt : cursor < g.outOffsets.getD (v + 1) 0)
    (hnew : c.index.getD (g.targets.getD cursor 0) none = none) :
    c.advance g =
      Search.visit g { c with frames := (v, cursor + 1) :: rest } (g.targets.getD cursor 0) := by
  unfold Search.advance
  rw [hframes]
  dsimp only
  rw [if_pos hlt, hnew]

theorem advance_seen (hframes : c.frames = (v, cursor) :: rest)
    (hlt : cursor < g.outOffsets.getD (v + 1) 0) {i : Nat}
    (hseen : c.index.getD (g.targets.getD cursor 0) none = some i) :
    c.advance g =
      if c.onStack.getD (g.targets.getD cursor 0) false ∧ i < c.low.getD v 0 then
        { c with frames := (v, cursor + 1) :: rest, low := c.low.set v i }
      else { c with frames := (v, cursor + 1) :: rest } := by
  unfold Search.advance
  rw [hframes]
  dsimp only
  rw [if_pos hlt, hseen]

/-- Leaving the last frame. -/
theorem advance_last (hframes : c.frames = [(v, cursor)])
    (hge : ¬cursor < g.outOffsets.getD (v + 1) 0)
    (hroot : some (c.low.getD v 0) = c.index.getD v none) :
    c.advance g = Search.closeComponent g { c with frames := [] } v := by
  unfold Search.advance
  rw [hframes]
  dsimp only
  rw [if_neg hge, if_pos hroot]

/-- The parent after a frame was left. -/
def Search.passLow (c : Search) (v parent : Nat) (rest : List (Nat × Nat)) : Search :=
  if c.low.getD v 0 < c.low.getD parent 0 then
    { c with frames := rest, low := c.low.set parent (c.low.getD v 0) }
  else { c with frames := rest }

theorem advance_leave {parent k : Nat} (hframes : c.frames = (v, cursor) :: (parent, k) :: rest)
    (hge : ¬cursor < g.outOffsets.getD (v + 1) 0) :
    c.advance g =
      if some ((c.passLow v parent ((parent, k) :: rest)).low.getD v 0) =
          (c.passLow v parent ((parent, k) :: rest)).index.getD v none then
        Search.closeComponent g (c.passLow v parent ((parent, k) :: rest)) v
      else c.passLow v parent ((parent, k) :: rest) := by
  unfold Search.advance Search.passLow
  rw [hframes]
  dsimp only
  rw [if_neg hge]

/-- An iteration of the source is a step of the search. -/
theorem Stands.advance (hwf : g.Wf) (h : Stands g c a) (hinv : a.Inv g.adj)
    (hframes : c.frames ≠ []) : ∃ a', a.Step g.adj a' ∧ Stands g (c.advance g) a' := by
  obtain ⟨⟨v, cursor⟩, rest, hc⟩ := List.exists_cons_of_ne_nil hframes
  have ha : a.frames = (v, g.unread (v, cursor)) :: rest.map fun f => (f.1, g.unread f) := by
    rw [h.frames, hc]
    rfl
  have hvstack : v ∈ a.stack := hinv.mem_stack_of_path (Search.top_mem ha)
  have hv : v < g.resources.length := h.inside v ((hinv.visited v).mpr (.inl hvstack))
  have hindexv : a.index v = some (a.num v) := by
    cases hindex : a.index v with
    | none => exact absurd hindex ((hinv.visited v).mpr (.inl hvstack))
    | some i => simp [Lib.Components.Search.num, hindex]
  by_cases hlt : cursor < g.outOffsets.getD (v + 1) 0
  · -- the frame has a target left
    have hinside := hwf.inside v hv
    rw [unread_cons hlt hinside] at ha
    have hw : g.targets.getD cursor 0 < g.resources.length := by
      rw [List.getD_eq_getElem?_getD, List.getElem?_eq_getElem (by omega), Option.getD_some]
      exact hwf.targets _ (List.getElem_mem _)
    generalize hwdef : g.targets.getD cursor 0 = w at ha hw
    have hindex : c.index.getD w none = a.index w := by rw [h.index, getD_map_range hw]
    have hon : c.onStack.getD w false = decide (w ∈ a.stack) := by rw [h.onStack, getD_map_range hw]
    have hmoved := h.moved ((v, cursor + 1) :: rest)
    cases hcase : a.index w with
    | none =>
      refine ⟨_, .enter ha hcase, ?_⟩
      rw [advance_enter hc hlt (by rw [hwdef, hindex, hcase]), hwdef]
      exact hmoved.visit hw
    | some i =>
      have hnum : a.num w = i := by simp [Lib.Components.Search.num, hcase]
      rw [advance_seen hc hlt (hwdef ▸ hindex.trans hcase), hwdef, hon]
      by_cases hmem : w ∈ a.stack
      · refine ⟨_, .back ha hmem, ?_⟩
        have hlowered := hmoved.lowered hv i
        rw [hnum]
        simpa [hmem] using hlowered
      · refine ⟨_, .done ha (by simp [hcase]) hmem, ?_⟩
        rw [if_neg (by simp [hmem])]
        exact hmoved
  · -- the frame is left
    rw [unread_nil hlt] at ha
    have hlowv : c.low.getD v 0 = a.low v := by rw [h.low, getD_map_range hv]
    have hindex : c.index.getD v none = some (a.num v) := by
      rw [h.index, getD_map_range hv, hindexv]
    have hsplit := split_stack hvstack
    have hnodup := hinv.nodup_stack
    cases rest with
    | nil =>
      have hroot := hinv.root_of_last ha
      refine ⟨_, .close ha hroot hsplit, ?_⟩
      rw [advance_last hc hlt (by rw [hlowv, hindex, hroot])]
      exact (h.moved []).closed hnodup hsplit rfl rfl
    | cons parent rest =>
      obtain ⟨parent, k⟩ := parent
      have hparent : parent < g.resources.length := by
        have hmem : parent ∈ a.path := by
          rw [Lib.Components.Search.path, ha]
          exact List.mem_cons_of_mem v List.mem_cons_self
        exact h.inside parent ((hinv.visited parent).mpr (.inl (hinv.mem_stack_of_path hmem)))
      have hpass : Stands g (c.passLow v parent ((parent, k) :: rest))
          (Lib.Components.Search.lower
            { a with frames := ((parent, k) :: rest).map fun f => (f.1, g.unread f) }
            parent (a.low v)) := by
        have hlowered := (h.moved ((parent, k) :: rest)).lowered hparent (a.low v)
        unfold Search.passLow
        rw [hlowv]
        exact hlowered
      have hne : v ≠ parent := fun heq => by
        have hlt := hinv.lt_top ha (p := parent) List.mem_cons_self
        rw [heq] at hlt
        exact Nat.lt_irrefl _ hlt
      have hlowpass : (c.passLow v parent ((parent, k) :: rest)).low.getD v 0 = a.low v := by
        rw [hpass.low, getD_map_range hv]
        exact Function.update_of_ne hne _ _
      have hindexpass : (c.passLow v parent ((parent, k) :: rest)).index.getD v none =
          some (a.num v) := by
        rw [hpass.index, getD_map_range hv]
        exact hindexv
      rw [advance_leave hc hlt, hlowpass, hindexpass]
      by_cases hroot : a.low v = a.num v
      · -- the root of a component leaves its parent as it was
        have hsame : Lib.Components.Search.lower
            { a with frames := ((parent, k) :: rest).map fun f => (f.1, g.unread f) }
            parent (a.low v) =
              { a with frames := ((parent, k) :: rest).map fun f => (f.1, g.unread f) } := by
          have hle := hinv.low_parent ha hroot
          unfold Lib.Components.Search.lower
          dsimp only
          rw [min_eq_left hle, Function.update_eq_self]
        rw [hsame] at hpass
        refine ⟨_, .close ha hroot hsplit, ?_⟩
        rw [if_pos (congrArg some hroot)]
        exact hpass.closed hnodup hsplit rfl rfl
      · refine ⟨_, .leave ha hroot, ?_⟩
        rw [if_neg fun heq => hroot (Option.some.inj heq)]
        exact hpass

/-! ### The whole search -/

theorem mem_adj_targets (h : w ∈ g.adj v) : w ∈ g.targets :=
  List.mem_of_mem_take (List.mem_of_mem_drop h)

theorem length_adj : (g.adj v).length ≤ g.outOffsets.getD (v + 1) 0 - g.outOffsets.getD v 0 := by
  unfold Graph.adj Graph.unread
  rw [List.length_drop, List.length_take]
  dsimp only
  omega

/-- The nodes have no more targets than the compressed lists have entries. -/
theorem sum_length_adj (hwf : g.Wf) :
    ((List.range g.resources.length).map fun v => (g.adj v).length + 1).sum ≤
      g.resources.length + g.targets.length := by
  have hprefix : ∀ k, k ≤ g.resources.length →
      ((List.range k).map fun v => (g.adj v).length + 1).sum + g.outOffsets.getD 0 0 ≤
        k + g.outOffsets.getD k 0 := by
    intro k
    induction k with
    | zero => simp
    | succ k ih =>
      intro hk
      have hrec := ih (by omega)
      have hascending := hwf.ascending k (by omega)
      have hlength := @length_adj g k
      rw [List.range_succ, List.map_append, List.sum_append, List.map_singleton, List.sum_singleton]
      omega
  have hall := hprefix _ (Nat.le_refl _)
  cases hn : g.resources.length with
  | zero => simp
  | succ n =>
    have hinside := hwf.inside n (by omega)
    rw [hn] at hall
    omega

theorem runFrames_stands (hwf : g.Wf) {fuel : Nat} (h : Stands g c a) (hinv : a.Inv g.adj)
    (hwork : a.work (List.range g.resources.length) g.adj < fuel) :
    ∃ a' : Lib.Components.Search Nat, a'.Inv g.adj ∧ Stands g (c.runFrames g fuel) a' ∧
      a'.frames = [] ∧ ∀ x, a.index x ≠ none → a'.index x ≠ none := by
  induction fuel generalizing c a with
  | zero => omega
  | succ fuel ih =>
    unfold Search.runFrames
    by_cases hempty : c.frames = []
    · rw [hempty, List.isEmpty_nil, if_pos rfl]
      exact ⟨a, hinv, h, by rw [h.frames, hempty, List.map_nil], fun _ hx => hx⟩
    · rw [if_neg (by simpa using hempty)]
      obtain ⟨a₁, hstep, hstands⟩ := h.advance hwf hinv hempty
      have hless : a₁.work (List.range g.resources.length) g.adj + 1 =
          a.work (List.range g.resources.length) g.adj := hstep.work List.nodup_range
        (fun v w hw => List.mem_range.mpr (hwf.targets w (mem_adj_targets hw))) hinv
      obtain ⟨a', hinv', hstands', hframes', hkeep⟩ := ih hstands (hstep.inv hinv) (by omega)
      exact ⟨a', hinv', hstands', hframes', fun x hx => hkeep x (hstep.visited hx)⟩

/-- The search enters every node and closes it again. -/
theorem run_stands (hwf : g.Wf) (h : Stands g c {}) :
    ∃ a : Lib.Components.Search Nat, a.Inv g.adj ∧ Stands g (Search.run g c) a ∧ a.frames = [] ∧
      ∀ x < g.resources.length, a.index x ≠ none := by
  have hroots : ∀ k, k ≤ g.resources.length →
      ∃ a : Lib.Components.Search Nat, a.Inv g.adj ∧
        Stands g ((List.range k).foldl (fun s root =>
          if (s.index.getD root none).isSome then s
          else (s.visit g root).runFrames g (g.resources.length + g.targets.length + 1)) c) a ∧
        a.frames = [] ∧ ∀ x < k, a.index x ≠ none := by
    intro k
    induction k with
    | zero => exact fun _ => ⟨{}, Lib.Components.Search.inv_empty, h, rfl, by simp⟩
    | succ k ih =>
      intro hk
      obtain ⟨a, hinv, hstands, hframes, hseen⟩ := ih (by omega)
      rw [List.range_succ, List.foldl_append, List.foldl_cons, List.foldl_nil]
      have hindex := hstands.index
      generalize (List.range k).foldl _ c = c₁ at hstands hindex ⊢
      have hget : c₁.index.getD k none = a.index k := by rw [hindex, getD_map_range (by omega)]
      rw [hget]
      cases hk' : a.index k with
      | some i =>
        rw [Option.isSome_some, if_pos rfl]
        refine ⟨a, hinv, hstands, hframes, fun x hx => ?_⟩
        rcases Nat.lt_succ_iff_lt_or_eq.mp hx with hx | rfl
        · exact hseen x hx
        · simp [hk']
      | none =>
        rw [Option.isSome_none, if_neg Bool.false_ne_true]
        have henter : (a.enter g.adj k).Inv g.adj := by
          refine hinv.enter hk' rfl hinv.unread (fun _ _ hxy => .inl hxy) fun p hp => ?_
          rw [Lib.Components.Search.path, hframes] at hp
          cases hp
        have hwork : (a.enter g.adj k).work (List.range g.resources.length) g.adj <
            g.resources.length + g.targets.length + 1 := by
          rw [Lib.Components.Search.work_enter List.nodup_range (List.mem_range.mpr (by omega)) hk',
            Lib.Components.Search.work, hframes, List.map_nil, List.sum_nil, Nat.zero_add]
          have hall := sum_length_adj hwf
          have hsome : (((List.range g.resources.length).filter fun v => (a.index v).isNone).map
              fun v => (g.adj v).length + 1).sum ≤
              ((List.range g.resources.length).map fun v => (g.adj v).length + 1).sum :=
            (List.filter_sublist.map _).sum_le_sum fun _ _ => Nat.zero_le _
          omega
        obtain ⟨a', hinv', hstands', hframes', hkeep⟩ :=
          runFrames_stands hwf (hstands.visit (by omega)) henter hwork
        refine ⟨a', hinv', hstands', hframes', fun x hx => hkeep x ?_⟩
        by_cases hxk : x = k
        · subst hxk
          simp [Lib.Components.Search.enter]
        · show Function.update a.index k (some a.next) x ≠ none
          rw [Function.update_of_ne hxk]
          exact hseen x (by omega)
  exact hroots _ (Nat.le_refl _)

/-- What the search reports of the graph: the members of components with a cycle, and the number
of these components. -/
theorem run_parts (hwf : g.Wf) (h : Stands g c {}) : ∃ parts : List (List Nat),
    Parts (fun v w => w ∈ g.adj v) parts ∧
      (∀ v, v ∈ parts.flatten ↔ v < g.resources.length) ∧
      (∀ m ∈ parts, g.cyclic m = true ↔ ∃ v ∈ m, OnCycle (fun v w => w ∈ g.adj v) v) ∧
      (Search.run g c).components = (parts.filter g.cyclic).length ∧
      (Search.run g c).inCycle = (List.range g.resources.length).map fun v =>
        decide (v ∈ (parts.filter g.cyclic).flatten) := by
  obtain ⟨a, hinv, hstands, hframes, hseen⟩ := run_stands hwf h
  have hmem : ∀ v, v ∈ a.closed.flatten ↔ v < g.resources.length := by
    intro v
    have hvisited := hinv.visited v
    rw [hinv.stack_nil hframes] at hvisited
    constructor
    · exact fun hv => hstands.inside v (hvisited.mpr (.inr hv))
    · exact fun hv => (hvisited.mp (hseen v hv)).resolve_left List.not_mem_nil
  refine ⟨a.closed, hinv.parts, hmem, fun m hm => ?_, hstands.components, hstands.inCycle⟩
  have hloop : (∃ w ∈ m, g.selfLoop.getD w false = true) ↔ ∃ w ∈ m, w ∈ g.adj w := by
    refine exists_congr fun w => and_congr_right fun hw => hwf.selfLoop w ?_
    exact (hmem w).mp (List.mem_flatten.mpr ⟨m, hm, hw⟩)
  have hcyclic : g.cyclic m = true ↔ 1 < m.length ∨ ∃ w ∈ m, w ∈ g.adj w := by
    unfold Graph.cyclic
    rw [Bool.or_eq_true, decide_eq_true_iff, List.any_eq_true, hloop]
  obtain ⟨root, hroot, -⟩ := hinv.component m hm
  rw [hcyclic]
  constructor
  · exact fun hyes => ⟨root, hroot, (hinv.parts.onCycle_iff hm hroot).mpr hyes⟩
  · rintro ⟨v, hv, hcycle⟩
    exact (hinv.parts.onCycle_iff hm hv).mp hcycle

/-! ## The graph of the declarations -/

variable {topo : Topology} {resources : List Resource} {edges : List DependencyEdge}

/-- The index of the target of an edge. -/
def targetIndex (resources : List Resource) (edges : List DependencyEdge) (e : Nat) : Nat :=
  indexIn resources ((edges[e]?.map DependencyEdge.dst).getD {})

/-- The graph that a build searches. -/
def graphOf (resources : List Resource) (edges : List DependencyEdge) : Graph :=
  { resources
    outOffsets := offsets (outDegrees resources edges)
    targets := (placeEdges resources edges (offsets (outDegrees resources edges))).map
      (targetIndex resources edges)
    selfLoop := edges.foldl (fun l e =>
      if e.isSelfLoop then l.set (indexIn resources e.src) true else l)
      (List.replicate resources.length false) }

/-- The issues and statistics that a build has found before the search. -/
def findingsOf (resources : List Resource) (edges : List DependencyEdge) : Findings :=
  edges.foldl edgeFindings ((resources.zip ((outDegrees resources edges).zip
    (inDegrees resources edges))).foldl resourceFindings
      { stats := { maxOutDegree := (outDegrees resources edges).foldl max 0
                   maxInDegree := (inDegrees resources edges).foldl max 0 } })

/-- The search of a build at its end. -/
def searched (resources : List Resource) (edges : List DependencyEdge) : Search :=
  Search.run (graphOf resources edges)
    { index := List.replicate resources.length none, low := List.replicate resources.length 0
      onStack := List.replicate resources.length false
      inCycle := List.replicate resources.length false, findings := findingsOf resources edges }

/-- The resources that a build reports as cyclic. -/
def cyclicOf (resources : List Resource) (edges : List DependencyEdge) : List ResourceId :=
  ((resources.zip (searched resources edges).inCycle).filter Prod.snd).map fun r => r.1.id

/-- The cycle check is the last one. -/
theorem cycles_of_assemble {limits : TopologyLimits}
    {ascending : resources.Pairwise fun a b => a.id < b.id}
    (h : assemble resources edges limits true ascending = .ok topo) :
    topo.cyclicResources = cyclicOf resources edges ∧
      topo.stats.cyclicResourceCount = (cyclicOf resources edges).length ∧
      topo.stats.stronglyConnectedComponents = (searched resources edges).components ∧
      assemble resources edges limits false ascending =
        if cyclicOf resources edges = [] then .ok topo
        else fail .cycleDetected "topology contains cycles" (cyclicOf resources edges).length := by
  unfold assemble at h ⊢
  dsimp only at h ⊢
  cases hcheck : checkDegrees limits
      ((outDegrees resources edges).zip (inDegrees resources edges)) with
  | error st =>
    rw [hcheck] at h
    cases h
  | ok =>
    rw [hcheck] at h
    dsimp only at h ⊢
    rw [if_neg (by simp)] at h
    cases h
    refine ⟨rfl, rfl, rfl, ?_⟩
    by_cases hnone : cyclicOf resources edges = []
    · have hempty : (!false && !(cyclicOf resources edges).isEmpty) = false := by simp [hnone]
      rw [if_pos hnone]
      exact if_neg (by rw [Bool.not_eq_true]; exact hempty)
    · have hsome : (!false && !(cyclicOf resources edges).isEmpty) = true := by
        simpa using hnone
      rw [if_neg hnone]
      exact if_pos hsome

theorem indexIn_lt {id : ResourceId} (h : 0 < resources.length) :
    indexIn resources id < resources.length := by
  unfold indexIn
  cases hfind : resources.findIdx? fun r => r.id == id with
  | none => exact h
  | some i => exact (List.findIdx?_eq_some_iff_getElem.mp hfind).1

theorem length_placeEdges {cursors : List Nat} :
    (placeEdges resources edges cursors).length = edges.length := by
  have hlength : ∀ (l : List (DependencyEdge × Nat)) (st : List Nat × List Nat),
      (l.foldl (fun s e => (s.1.set (s.2.getD (indexIn resources e.1.src) 0) e.2,
        bump s.2 (indexIn resources e.1.src))) st).1.length = st.1.length := by
    intro l
    induction l with
    | nil => exact fun _ => rfl
    | cons e rest ih =>
      intro st
      rw [List.foldl_cons, ih, List.length_set]
  exact (hlength _ _).trans List.length_replicate

theorem getD_offsets {s : Nat} (hs : s ≤ resources.length) :
    (offsets (outDegrees resources edges)).getD s 0 =
      Lib.Buckets.start resources.length (sourced resources edges) s := by
  rw [List.getD_eq_getElem?_getD, getElem?_offsets, if_pos hs, Option.getD_some]

theorem adj_graphOf (hlaid : topo.Laid resources edges)
    (hcheck : checkEndpoints resources edges = .ok ()) (hv : v < resources.length) :
    (graphOf resources edges).adj v =
      (Lib.Buckets.members (sourced resources edges) v).map (targetIndex resources edges) := by
  rw [← outEdgeIndicesAt_eq hlaid hcheck hv]
  unfold Graph.adj Graph.unread outEdgeIndicesAt
  rw [hlaid.outOffsets, hlaid.outEdgeIndices, getElem?_offsets, getElem?_offsets,
    if_pos (by omega), if_pos (by omega)]
  dsimp only [graphOf]
  rw [getD_offsets (by omega), getD_offsets (by omega), ← List.map_take, ← List.map_drop,
    List.drop_take]

/-- The targets of a node are those of the edges that leave its resource. -/
theorem mem_adj_graphOf (hlaid : topo.Laid resources edges)
    (hcheck : checkEndpoints resources edges = .ok ()) (hv : v < resources.length) :
    w ∈ (graphOf resources edges).adj v ↔
      ∃ e ∈ edges, indexIn resources e.src = v ∧ indexIn resources e.dst = w := by
  rw [adj_graphOf hlaid hcheck hv, List.mem_map]
  constructor
  · rintro ⟨k, hk, rfl⟩
    obtain ⟨e, he, hsrc⟩ := mem_sourced.mp (Lib.Buckets.mem_members.mp hk)
    refine ⟨e, List.mem_of_getElem? he, hsrc, ?_⟩
    rw [targetIndex, he]
    rfl
  · rintro ⟨e, he, hsrc, hdst⟩
    obtain ⟨k, hk⟩ := List.getElem?_of_mem he
    refine ⟨k, Lib.Buckets.mem_members.mpr (mem_sourced.mpr ⟨e, hk, hsrc⟩), ?_⟩
    rw [targetIndex, hk]
    exact hdst

theorem selfLoop_foldl {l : List Bool} (hv : v < l.length) :
    (edges.foldl (fun l e => if e.isSelfLoop then l.set (indexIn resources e.src) true else l)
      l).getD v false = true ↔
      l.getD v false = true ∨ ∃ e ∈ edges, e.src = e.dst ∧ indexIn resources e.src = v := by
  induction edges generalizing l with
  | nil => simp
  | cons e rest ih =>
    rw [List.foldl_cons]
    by_cases hself : e.isSelfLoop = true
    · have heq : e.src = e.dst := eq_of_beq hself
      rw [if_pos hself, ih (by rwa [List.length_set])]
      by_cases hsrc : indexIn resources e.src = v
      · have hset : (l.set (indexIn resources e.src) true).getD v false = true := by
          rw [hsrc, List.getD_eq_getElem?_getD, List.getElem?_set_self hv, Option.getD_some]
        exact ⟨fun _ => .inr ⟨e, List.mem_cons_self, heq, hsrc⟩, fun _ => .inl hset⟩
      · have hset : (l.set (indexIn resources e.src) true).getD v false = l.getD v false := by
          rw [List.getD_eq_getElem?_getD, List.getElem?_set_ne hsrc, ← List.getD_eq_getElem?_getD]
        rw [hset]
        simp [hsrc]
    · have hne : e.src ≠ e.dst := fun heq => hself (beq_iff_eq.mpr heq)
      rw [if_neg hself, ih hv]
      simp [hne]

/-! ## Resources and their indices -/

/-- One resource depends on another by a declared edge. -/
def Depends (edges : List DependencyEdge) (a b : ResourceId) : Prop :=
  ∃ e ∈ edges, e.src = a ∧ e.dst = b

def idAt (resources : List Resource) (v : Nat) : ResourceId :=
  (resources[v]?.map Resource.id).getD {}

theorem idAt_indexIn {id : ResourceId} (h : hasResource resources id = true) :
    idAt resources (indexIn resources id) = id := by
  obtain ⟨i, hfind, hi, -⟩ := hasResource_iff.mp h
  obtain ⟨hlt, hid, -⟩ := List.findIdx?_eq_some_iff_getElem.mp hfind
  unfold idAt
  rw [hi, List.getElem?_eq_getElem hlt]
  exact eq_of_beq hid

theorem indexIn_lt_of_declared {id : ResourceId} (h : hasResource resources id = true) :
    indexIn resources id < resources.length := by
  obtain ⟨i, -, hi, hlt⟩ := hasResource_iff.mp h
  exact hi ▸ hlt

theorem idAt_eq (hv : v < resources.length) : idAt resources v = resources[v].id := by
  unfold idAt
  rw [List.getElem?_eq_getElem hv]
  rfl

section Declared

variable (hlaid : topo.Laid resources edges) (hcheck : checkEndpoints resources edges = .ok ())

include hlaid in
theorem indexIn_idAt (hv : v < resources.length) :
    indexIn resources (idAt resources v) = v := by
  have hat : topo.resourceAt v = some resources[v] := by
    unfold resourceAt
    rw [hlaid.resources]
    exact List.getElem?_eq_getElem hv
  have hindex := indexOf_of_resourceAt hat
  unfold indexOf at hindex
  rw [hlaid.resources] at hindex
  rw [idAt_eq hv, indexIn, hindex]
  rfl

theorem lt_of_mem_adj (h : w ∈ (graphOf resources edges).adj v) : v < resources.length := by
  by_contra hge
  have hoffset : (offsets (outDegrees resources edges)).getD (v + 1) 0 = 0 := by
    rw [List.getD_eq_getElem?_getD, getElem?_offsets, if_neg (by omega), Option.getD_none]
  have hempty : (graphOf resources edges).adj v = [] := by
    refine List.drop_eq_nil_of_le ?_
    show (List.take ((offsets (outDegrees resources edges)).getD (v + 1) 0) _).length ≤ _
    rw [hoffset, List.take_zero, List.length_nil]
    exact Nat.zero_le _
  rw [hempty] at h
  cases h

include hlaid hcheck

theorem depends_idAt (h : w ∈ (graphOf resources edges).adj v) :
    Depends edges (idAt resources v) (idAt resources w) := by
  obtain ⟨e, he, rfl, rfl⟩ := (mem_adj_graphOf hlaid hcheck (lt_of_mem_adj h)).mp h
  have hends := endpoints_of_check hcheck e he
  exact ⟨e, he, (idAt_indexIn hends.1).symm, (idAt_indexIn hends.2).symm⟩

theorem adj_indexIn {x y : ResourceId} (h : Depends edges x y) :
    indexIn resources y ∈ (graphOf resources edges).adj (indexIn resources x) := by
  obtain ⟨e, he, rfl, rfl⟩ := h
  have hends := endpoints_of_check hcheck e he
  exact (mem_adj_graphOf hlaid hcheck (indexIn_lt_of_declared hends.1)).mpr ⟨e, he, rfl, rfl⟩

omit hlaid in
theorem declared_of_reach {x y : ResourceId} (hx : hasResource resources x = true)
    (h : ReflTransGen (Depends edges) x y) : hasResource resources y = true := by
  cases h with
  | refl => exact hx
  | tail _ hedge =>
    obtain ⟨e, he, -, rfl⟩ := hedge
    exact (endpoints_of_check hcheck e he).2

omit hlaid in
theorem declared_of_onCycle {x : ResourceId} (h : OnCycle (Depends edges) x) :
    hasResource resources x = true := by
  obtain ⟨y, hedge, -⟩ := TransGen.head'_iff.mp h
  obtain ⟨e, he, rfl, -⟩ := hedge
  exact (endpoints_of_check hcheck e he).1

omit hlaid hcheck in
theorem declared_idAt (hv : v < resources.length) :
    hasResource resources (idAt resources v) = true := by
  rw [idAt_eq hv]
  exact List.any_eq_true.mpr ⟨_, List.getElem_mem hv, beq_self_eq_true _⟩

/-- Cycles of resources are cycles of indices. -/
theorem onCycle_idAt (hv : v < resources.length) : OnCycle (Depends edges) (idAt resources v) ↔
    OnCycle (fun v w => w ∈ (graphOf resources edges).adj v) v := by
  constructor
  · intro h
    have hindices : ∀ x y, TransGen (Depends edges) x y →
        TransGen (fun v w => w ∈ (graphOf resources edges).adj v) (indexIn resources x)
          (indexIn resources y) :=
      TransGen.lift (indexIn resources) fun _ _ hxy => adj_indexIn hlaid hcheck hxy
    have hcycle := hindices _ _ h
    rw [indexIn_idAt hlaid hv] at hcycle
    exact hcycle
  · intro h
    exact TransGen.lift (idAt resources) (fun _ _ hxy => depends_idAt hlaid hcheck hxy) _ _ h

theorem mutual_idAt (hv : v < resources.length) {y : ResourceId} :
    Mutual (Depends edges) (idAt resources v) y ↔
      ∃ w, Mutual (fun v w => w ∈ (graphOf resources edges).adj v) v w ∧ idAt resources w = y := by
  constructor
  · rintro ⟨hto, hback⟩
    have hy := declared_of_reach hcheck (declared_idAt hv) hto
    have hindices : ∀ x y, ReflTransGen (Depends edges) x y →
        ReflTransGen (fun v w => w ∈ (graphOf resources edges).adj v) (indexIn resources x)
          (indexIn resources y) :=
      ReflTransGen.lift (indexIn resources) fun _ _ hxy => adj_indexIn hlaid hcheck hxy
    have hto' := hindices _ _ hto
    have hback' := hindices _ _ hback
    rw [indexIn_idAt hlaid hv] at hto' hback'
    exact ⟨indexIn resources y, ⟨hto', hback'⟩, idAt_indexIn hy⟩
  · rintro ⟨w, ⟨hto, hback⟩, rfl⟩
    have hids : ∀ v w, ReflTransGen (fun v w => w ∈ (graphOf resources edges).adj v) v w →
        ReflTransGen (Depends edges) (idAt resources v) (idAt resources w) :=
      ReflTransGen.lift (idAt resources) fun _ _ hvw => depends_idAt hlaid hcheck hvw
    exact ⟨hids _ _ hto, hids _ _ hback⟩

theorem wf_graphOf : (graphOf resources edges).Wf where
  ascending v hv := by
    have hv : v < resources.length := hv
    show (offsets (outDegrees resources edges)).getD v 0 ≤
      (offsets (outDegrees resources edges)).getD (v + 1) 0
    rw [getD_offsets (Nat.le_of_lt hv), getD_offsets hv]
    exact Lib.Buckets.start_le (Nat.le_succ v)
  inside v hv := by
    have hkeys : ∀ x ∈ sourced resources edges, x.1 < resources.length := by
      rintro ⟨k, e⟩ hx
      obtain ⟨edge, he, rfl⟩ := mem_sourced.mp hx
      exact indexIn_lt_of_declared (endpoints_of_check hcheck edge (List.mem_of_getElem? he)).1
    have hle := @Lib.Buckets.start_le_length _ resources.length (v + 1) (sourced resources edges) hkeys
    have hv : v < resources.length := hv
    show (offsets (outDegrees resources edges)).getD (v + 1) 0 ≤ (List.map _ _).length
    rw [getD_offsets hv, List.length_map, length_placeEdges]
    simpa [sourced] using hle
  targets w hw := by
    obtain ⟨e, he, rfl⟩ := List.mem_map.mp hw
    have hsome : edges ≠ [] := by
      intro hnil
      have hlength := List.length_pos_of_mem he
      rw [length_placeEdges, hnil] at hlength
      exact Nat.lt_irrefl 0 hlength
    obtain ⟨edge, hedge⟩ := List.exists_mem_of_ne_nil edges hsome
    exact indexIn_lt (Nat.zero_lt_of_lt
      (indexIn_lt_of_declared (endpoints_of_check hcheck edge hedge).1))
  selfLoop v hv := by
    rw [mem_adj_graphOf hlaid hcheck hv]
    refine (selfLoop_foldl (by rwa [List.length_replicate])).trans ?_
    have hv : v < resources.length := hv
    have hinitial : (List.replicate resources.length false).getD v false = false := by
      rw [List.getD_eq_getElem?_getD, List.getElem?_replicate_of_lt hv, Option.getD_some]
    rw [hinitial]
    simp only [Bool.false_eq_true, false_or]
    refine exists_congr fun e => and_congr_right fun he => ?_
    have hends := endpoints_of_check hcheck e he
    constructor
    · rintro ⟨heq, hsrc⟩
      exact ⟨hsrc, heq ▸ hsrc⟩
    · rintro ⟨hsrc, hdst⟩
      refine ⟨?_, hsrc⟩
      rw [← idAt_indexIn hends.1, ← idAt_indexIn hends.2, hsrc, hdst]

/-- Components of indices are components of resources. -/
theorem parts_idAt {parts : List (List Nat)}
    (h : Parts (fun v w => w ∈ (graphOf resources edges).adj v) parts)
    (hmem : ∀ v, v ∈ parts.flatten ↔ v < resources.length) :
    Parts (Depends edges) (parts.map (List.map (idAt resources))) := by
  refine ⟨?_, fun m hm => ?_⟩
  · rw [← List.map_flatten]
    refine h.nodup.map_on fun v hv w hw heq => ?_
    rw [← indexIn_idAt hlaid ((hmem v).mp hv), heq, indexIn_idAt hlaid ((hmem w).mp hw)]
  · obtain ⟨c, hc, rfl⟩ := List.mem_map.mp hm
    obtain ⟨v, hv, hcomponent⟩ := h.component c hc
    refine ⟨idAt resources v, List.mem_map_of_mem hv, fun y => ?_⟩
    rw [mutual_idAt hlaid hcheck ((hmem v).mp (List.mem_flatten.mpr ⟨c, hc, hv⟩)), List.mem_map]
    exact exists_congr fun w => and_congr_left' (hcomponent w)

/-- What the search of a build reports. -/
theorem searched_spec : (∀ id, id ∈ cyclicOf resources edges ↔ OnCycle (Depends edges) id) ∧
    (cyclicOf resources edges).Pairwise (· < ·) ∧
      (searched resources edges).components = (cyclicComponents (Depends edges)).ncard := by
  have hstands : Stands (graphOf resources edges)
      { index := List.replicate resources.length none, low := List.replicate resources.length 0
        onStack := List.replicate resources.length false
        inCycle := List.replicate resources.length false, findings := findingsOf resources edges }
      {} := by
    constructor <;> simp [graphOf, List.map_const']
  obtain ⟨parts, hparts, hmem, hcyclic, hcomponents, hinCycle⟩ :=
    run_parts (wf_graphOf hlaid hcheck) hstands
  have hmem : ∀ v, v ∈ parts.flatten ↔ v < resources.length := hmem
  have hinside : ∀ m ∈ parts, ∀ v ∈ m, v < resources.length :=
    fun m hm v hv => (hmem v).mp (List.mem_flatten.mpr ⟨m, hm, hv⟩)
  -- the table marks the indices on a cycle
  have hmarked : ∀ v, v ∈ (parts.filter (graphOf resources edges).cyclic).flatten ↔
      v < resources.length ∧ OnCycle (Depends edges) (idAt resources v) := by
    intro v
    rw [List.mem_flatten]
    constructor
    · rintro ⟨m, hm, hv⟩
      obtain ⟨hm, hyes⟩ := List.mem_filter.mp hm
      obtain ⟨w, hw, hcycle⟩ := (hcyclic m hm).mp hyes
      refine ⟨hinside m hm v hv, (onCycle_idAt hlaid hcheck (hinside m hm v hv)).mpr ?_⟩
      exact hcycle.mutual ((hparts.mem_iff hm hw v).mp hv)
    · rintro ⟨hv, hcycle⟩
      obtain ⟨m, hm, hvm⟩ := List.mem_flatten.mp ((hmem v).mpr hv)
      refine ⟨m, List.mem_filter.mpr ⟨hm, (hcyclic m hm).mpr ⟨v, hvm, ?_⟩⟩, hvm⟩
      exact (onCycle_idAt hlaid hcheck hv).mp hcycle
  have htable : (searched resources edges).inCycle = (List.range resources.length).map fun v =>
      decide (v ∈ (parts.filter (graphOf resources edges).cyclic).flatten) := hinCycle
  refine ⟨fun id => ?_, ?_, ?_⟩
  · have hzip : ∀ r, (r, true) ∈ resources.zip (searched resources edges).inCycle ↔
        ∃ v : Nat, resources[v]? = some r ∧ OnCycle (Depends edges) r.id := by
      intro r
      rw [htable, List.mem_iff_getElem?]
      refine exists_congr fun v => ?_
      rw [List.getElem?_zip_eq_some]
      refine and_congr_right fun hr => ?_
      have hv := (List.getElem?_eq_some_iff.mp hr).1
      have hid : idAt resources v = r.id := by rw [idAt, hr]; rfl
      rw [List.getElem?_map, List.getElem?_range hv, Option.map_some, Option.some.injEq,
        decide_eq_true_iff, hmarked, hid]
      exact and_iff_right hv
    unfold cyclicOf
    rw [List.mem_map]
    constructor
    · rintro ⟨⟨r, marked⟩, hr, rfl⟩
      obtain ⟨hr, hmarked⟩ := List.mem_filter.mp hr
      obtain rfl : marked = true := hmarked
      obtain ⟨-, -, hcycle⟩ := (hzip r).mp hr
      exact hcycle
    · intro hcycle
      have hdeclared := declared_of_onCycle hcheck hcycle
      have hlt := indexIn_lt_of_declared hdeclared
      have hid : resources[indexIn resources id].id = id := by
        rw [← idAt_eq hlt, idAt_indexIn hdeclared]
      refine ⟨(resources[indexIn resources id], true), List.mem_filter.mpr ⟨?_, rfl⟩, hid⟩
      exact (hzip _).mpr ⟨_, List.getElem?_eq_getElem hlt, hid.symm ▸ hcycle⟩
  · have hlength : resources.length ≤ (searched resources edges).inCycle.length := by
      rw [htable, List.length_map, List.length_range]
    have hsub : (cyclicOf resources edges).Sublist (resources.map Resource.id) := by
      have hfst : (resources.zip (searched resources edges).inCycle).map Prod.fst = resources :=
        List.map_fst_zip hlength
      have hfiltered := (List.filter_sublist (p := Prod.snd)
        (l := resources.zip (searched resources edges).inCycle)).map fun r => r.1.id
      have hids : ((resources.zip (searched resources edges).inCycle).map fun r => r.1.id) =
          resources.map Resource.id :=
        List.map_map.symm.trans (congrArg (List.map Resource.id) hfst)
      rw [← hids]
      exact hfiltered
    have hascending := topo.ascending
    rw [hlaid.resources] at hascending
    exact (List.pairwise_map.mpr hascending).sublist hsub
  · show (Search.run _ _).components = _
    rw [hcomponents]
    classical
    rw [@Parts.ncard_cyclicComponents _ _ _ (parts_idAt hlaid hcheck hparts hmem) ?_
      (fun m => decide (∃ id ∈ m, OnCycle (Depends edges) id)) fun _ _ => decide_eq_true_iff]
    · rw [List.filter_map, List.length_map]
      refine congrArg List.length (List.filter_congr fun m hm => ?_)
      refine Bool.eq_iff_iff.mpr ((hcyclic m hm).trans ?_)
      rw [Function.comp_apply, decide_eq_true_iff]
      constructor
      · rintro ⟨v, hv, hcycle⟩
        exact ⟨_, List.mem_map_of_mem hv, (onCycle_idAt hlaid hcheck (hinside m hm v hv)).mpr hcycle⟩
      · rintro ⟨id, hid, hcycle⟩
        obtain ⟨v, hv, rfl⟩ := List.mem_map.mp hid
        exact ⟨v, hv, (onCycle_idAt hlaid hcheck (hinside m hm v hv)).mp hcycle⟩
    · intro id hcycle
      have hdeclared := declared_of_onCycle hcheck hcycle
      rw [← List.map_flatten, ← idAt_indexIn hdeclared]
      exact List.mem_map_of_mem ((hmem _).mpr (indexIn_lt_of_declared hdeclared))

end Declared

/-! ## The cycle analysis of a build -/

/-- The report of a topology on the cycles of the declared dependencies. -/
structure CycleReport (edges : List DependencyEdge) (topo : Topology) : Prop where
  cyclic : ∀ id, id ∈ topo.cyclicResources ↔ OnCycle (Depends edges) id
  ordered : topo.cyclicResources.Pairwise (· < ·)
  resourceCount : topo.stats.cyclicResourceCount = topo.cyclicResources.length
  components : topo.stats.stronglyConnectedComponents = (cyclicComponents (Depends edges)).ncard

/-- Declarations that pass every check before the cycle check are reported on correctly, and
refused without leave for cycles exactly when there is one. -/
theorem cycles_of_build {limits : TopologyLimits}
    (h : build resources edges limits true = .ok topo) :
    CycleReport edges topo ∧
      ((∃ st, build resources edges limits false = .error st ∧ st.code = .cycleDetected) ↔
        ∃ id, OnCycle (Depends edges) id) ∧
      ((¬∃ id, OnCycle (Depends edges) id) → build resources edges limits false = .ok topo) := by
  have hdeclared := declared_of_build h
  rw [hdeclared.build_eq] at h
  have hdepends : Depends (sortEdges edges) = Depends edges := by
    funext x y
    unfold Depends
    simp only [sortEdges, List.mem_insertionSort]
  obtain ⟨hcyclic, hordered, hcomponents⟩ :=
    searched_spec (laid_of_assemble h) hdeclared.endpoints
  obtain ⟨hreported, hcount, hstats, hrefused⟩ := cycles_of_assemble h
  rw [hdepends] at hcyclic hcomponents
  rw [hdeclared.build_eq, hrefused]
  have hnone : cyclicOf (sortById resources) (sortEdges edges) = [] ↔
      ¬∃ id, OnCycle (Depends edges) id := by
    rw [List.eq_nil_iff_forall_not_mem, not_exists]
    exact forall_congr' fun id => not_congr (hcyclic id)
  refine ⟨⟨?_, ?_, ?_, ?_⟩, ?_, fun hacyclic => if_pos (hnone.mpr hacyclic)⟩
  · rw [hreported]
    exact hcyclic
  · rw [hreported]
    exact hordered
  · rw [hcount, hreported]
  · rw [hstats, hcomponents]
  · by_cases hcase : cyclicOf (sortById resources) (sortEdges edges) = []
    · rw [if_pos hcase]
      refine ⟨?_, fun hsome => absurd hsome (hnone.mp hcase)⟩
      rintro ⟨st, hst, -⟩
      cases hst
    · rw [if_neg hcase]
      exact ⟨fun _ => not_not.mp fun hno => hcase (hnone.mpr hno), fun _ => ⟨_, rfl, rfl⟩⟩

/-- Two resources that depend on each other, and a third that depends on them. -/
def triangle : List Resource :=
  [{ id := ⟨3⟩, definitionGeneration := ⟨1⟩ }, { id := ⟨1⟩, definitionGeneration := ⟨1⟩ },
    { id := ⟨2⟩, definitionGeneration := ⟨1⟩ }]

def mutualEdges : List DependencyEdge :=
  [{ id := ⟨1⟩, src := ⟨1⟩, dst := ⟨3⟩, dependencyGeneration := ⟨1⟩ },
    { id := ⟨2⟩, src := ⟨3⟩, dst := ⟨1⟩, dependencyGeneration := ⟨1⟩ },
    { id := ⟨3⟩, src := ⟨3⟩, dst := ⟨2⟩, dependencyGeneration := ⟨1⟩ }]

theorem mutual_reported : ∃ topo, build triangle mutualEdges {} true = .ok topo ∧
    CycleReport mutualEdges topo ∧ topo.cyclicResources = [⟨1⟩, ⟨3⟩] ∧
      ∃ st, build triangle mutualEdges {} false = .error st ∧ st.code = .cycleDetected := by
  have hcyclic : (build triangle mutualEdges {} true).toOption.map Topology.cyclicResources =
      some [⟨1⟩, ⟨3⟩] := by decide +kernel
  cases hbuild : build triangle mutualEdges {} true with
  | error st =>
    rw [hbuild] at hcyclic
    cases hcyclic
  | ok topo =>
    rw [hbuild] at hcyclic
    obtain ⟨hreport, hrefused, -⟩ := cycles_of_build hbuild
    have hto : Depends mutualEdges ⟨1⟩ ⟨3⟩ := ⟨_, List.mem_cons_self, rfl, rfl⟩
    have hback : Depends mutualEdges ⟨3⟩ ⟨1⟩ :=
      ⟨_, List.mem_cons_of_mem _ List.mem_cons_self, rfl, rfl⟩
    exact ⟨topo, rfl, hreport, Option.some.inj hcyclic,
      hrefused.mpr ⟨⟨1⟩, (TransGen.single hto).tail hback⟩⟩

end Topology

end Backpressure
