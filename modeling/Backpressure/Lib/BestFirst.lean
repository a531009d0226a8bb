import Mathlib.Data.List.Nodup
import Mathlib.Order.Bounds.Basic

/-!
# Best-first settlement

Values travel along the arcs of a graph. An arc turns a value into one that is not larger, and
larger values stay larger; values below a floor do not travel on. A search that always settles
the largest frontier value settles every node with the greatest value that reaches it.
-/

namespace Lib.BestFirst

variable {ν α : Type} [LinearOrder α]

/-- A graph whose arcs carry values on. -/
structure Network (ν α : Type) [LinearOrder α] where
  arc : ν → ν → (α → α) → Prop
  floor : α
  mono : ∀ {u v f}, arc u v f → Monotone f
  shrinks : ∀ {u v f}, arc u v f → ∀ a, f a ≤ a

/-- The value reaches the node along some path from the source. -/
inductive Arrives (N : Network ν α) (source : ν) (seed : α) : ν → α → Prop
  | start : Arrives N source seed source seed
  | cross {u v : ν} {a : α} {f : α → α} : Arrives N source seed u a → N.arc u v f → N.floor ≤ f a →
      Arrives N source seed v (f a)

/-- With more arcs, a lower floor and a larger seed, at least as much arrives. -/
theorem Arrives.mono {N N' : Network ν α} {source v : ν} {seed seed' a : α}
    (harc : ∀ u v f, N.arc u v f → N'.arc u v f) (hfloor : N'.floor ≤ N.floor)
    (hseed : seed ≤ seed') (h : Arrives N source seed v a) :
    ∃ b, Arrives N' source seed' v b ∧ a ≤ b := by
  induction h with
  | start => exact ⟨seed', .start, hseed⟩
  | @cross u v a f _ hcross hroom ih =>
    obtain ⟨b, hb, hle⟩ := ih
    have hgrow : f a ≤ f b := N'.mono (harc u v f hcross) hle
    exact ⟨f b, .cross hb (harc u v f hcross) (hfloor.trans (hroom.trans hgrow)), hgrow⟩

/-- What holds of the settled pairs and the frontier while a search runs. -/
structure Search (N : Network ν α) (source : ν) (seed : α) (settled frontier : List (ν × α)) :
    Prop where
  distinct : (settled.map Prod.fst).Nodup
  begun : (source, seed) ∈ frontier ∨ ∃ b, (source, b) ∈ settled ∧ seed ≤ b
  attained : ∀ x, x ∈ settled ∨ x ∈ frontier → Arrives N source seed x.1 x.2
  ordered : ∀ x ∈ settled, ∀ y ∈ frontier, y.2 ≤ x.2
  closed : ∀ x ∈ settled, ∀ v f, N.arc x.1 v f → N.floor ≤ f x.2 →
    (∃ b, (v, b) ∈ settled ∧ f x.2 ≤ b) ∨ (v, f x.2) ∈ frontier

namespace Search

variable {N : Network ν α} {source : ν} {seed : α} {settled frontier rest : List (ν × α)}
  {y : ν × α}

theorem start : Search N source seed [] [(source, seed)] where
  distinct := List.nodup_nil
  begun := .inl List.mem_cons_self
  attained x hx := by
    rcases hx with hx | hx
    · cases hx
    · rw [List.mem_singleton.mp hx]
      exact .start
  ordered _ hx := by cases hx
  closed _ hx := by cases hx

/-- Drop a frontier pair of a node that is settled already. -/
theorem skip (h : Search N source seed settled frontier)
    (hpop : ∀ z, z ∈ frontier ↔ z = y ∨ z ∈ rest) (hy : y.1 ∈ settled.map Prod.fst) :
    Search N source seed settled rest := by
  obtain ⟨x, hx, hxy⟩ := List.mem_map.mp hy
  have hle : y.2 ≤ x.2 := h.ordered x hx y ((hpop y).mpr (.inl rfl))
  -- what the dropped pair offered, its node has already
  have hoffer : ∀ v a, (v, a) ∈ frontier → (∃ b, (v, b) ∈ settled ∧ a ≤ b) ∨ (v, a) ∈ rest := by
    intro v a hva
    rcases (hpop _).mp hva with heq | hrest
    · refine .inl ⟨x.2, ?_, ?_⟩
      · have hv : v = x.1 := by rw [hxy, ← heq]
        rw [hv]
        exact hx
      · rw [← heq] at hle
        exact hle
    · exact .inr hrest
  refine ⟨h.distinct, ?_, fun z hz => ?_, fun z hz w hw => ?_, fun z hz v f harc hfloor => ?_⟩
  · rcases h.begun with hseed | hseed
    · exact (hoffer _ _ hseed).symm
    · exact .inr hseed
  · exact h.attained z (hz.imp_right fun hz => (hpop z).mpr (.inr hz))
  · exact h.ordered z hz w ((hpop w).mpr (.inr hw))
  · rcases h.closed z hz v f harc hfloor with hsettled | hfrontier
    · exact .inl hsettled
    · exact hoffer _ _ hfrontier

/-- Settle a largest frontier pair and put what it carries on into the frontier. -/
theorem settle {frontier' : List (ν × α)} (h : Search N source seed settled frontier)
    (hpop : ∀ z, z ∈ frontier ↔ z = y ∨ z ∈ rest) (hnew : y.1 ∉ settled.map Prod.fst)
    (top : ∀ z ∈ rest, z.2 ≤ y.2) (hkept : ∀ z ∈ rest, z ∈ frontier')
    (hfrom : ∀ z ∈ frontier', z ∈ rest ∨
      ∃ f, N.arc y.1 z.1 f ∧ N.floor ≤ f y.2 ∧ z.2 = f y.2)
    (hall : ∀ v f, N.arc y.1 v f → N.floor ≤ f y.2 →
      v = y.1 ∨ v ∈ settled.map Prod.fst ∨ (v, f y.2) ∈ frontier') :
    Search N source seed (y :: settled) frontier' := by
  have hmem : y ∈ frontier := (hpop y).mpr (.inl rfl)
  have hattained : Arrives N source seed y.1 y.2 := h.attained y (.inr hmem)
  -- a frontier pair is the one just settled, or is still there
  have hoffer : ∀ v a, (v, a) ∈ frontier →
      (∃ b, (v, b) ∈ y :: settled ∧ a ≤ b) ∨ (v, a) ∈ frontier' := by
    intro v a hva
    rcases (hpop _).mp hva with heq | hrest
    · exact .inl ⟨a, heq ▸ List.mem_cons_self, le_rfl⟩
    · exact .inr (hkept _ hrest)
  refine ⟨List.nodup_cons.mpr ⟨hnew, h.distinct⟩, ?_, fun z hz => ?_, fun z hz w hw => ?_,
    fun z hz v f harc hfloor => ?_⟩
  · rcases h.begun with hseed | ⟨b, hb, hle⟩
    · exact (hoffer _ _ hseed).symm
    · exact .inr ⟨b, List.mem_cons_of_mem y hb, hle⟩
  · rcases hz with hz | hz
    · rcases List.mem_cons.mp hz with rfl | hz
      · exact hattained
      · exact h.attained z (.inl hz)
    · rcases hfrom z hz with hrest | ⟨f, harc, hfloor, hval⟩
      · exact h.attained z (.inr ((hpop z).mpr (.inr hrest)))
      · rw [hval]
        exact .cross hattained harc hfloor
  · have hwy : w.2 ≤ y.2 := by
      rcases hfrom w hw with hrest | ⟨f, harc, -, hval⟩
      · exact top w hrest
      · rw [hval]
        exact N.shrinks harc _
    rcases List.mem_cons.mp hz with rfl | hz
    · exact hwy
    · exact hwy.trans (h.ordered z hz y hmem)
  · rcases List.mem_cons.mp hz with rfl | hz
    · rcases hall v f harc hfloor with rfl | hset | hfrontier
      · exact .inl ⟨z.2, List.mem_cons_self, N.shrinks harc _⟩
      · obtain ⟨x, hx, rfl⟩ := List.mem_map.mp hset
        exact .inl ⟨x.2, List.mem_cons_of_mem z hx,
          (N.shrinks harc _).trans (h.ordered x hx z hmem)⟩
      · exact .inr hfrontier
    · rcases h.closed z hz v f harc hfloor with ⟨b, hb, hle⟩ | hfrontier
      · exact .inl ⟨b, List.mem_cons_of_mem y hb, hle⟩
      · exact hoffer _ _ hfrontier

/-- With the frontier empty, every value that arrives is matched by a settled one. -/
theorem covers (h : Search N source seed settled []) {v : ν} {a : α}
    (ha : Arrives N source seed v a) : ∃ b, (v, b) ∈ settled ∧ a ≤ b := by
  induction ha with
  | start =>
    rcases h.begun with hseed | hseed
    · cases hseed
    · exact hseed
  | @cross u v a f _ harc hfloor ih =>
    obtain ⟨b, hb, hle⟩ := ih
    have hgrow : f a ≤ f b := N.mono harc hle
    rcases h.closed (u, b) hb v f harc (hfloor.trans hgrow) with ⟨c, hc, hle'⟩ | hfrontier
    · exact ⟨c, hc, hgrow.trans hle'⟩
    · cases hfrontier

/-- A search that has emptied its frontier has settled each node with the greatest value that
arrives there. -/
theorem optimal (h : Search N source seed settled []) {v : ν} {b : α} :
    (v, b) ∈ settled ↔ IsGreatest {a | Arrives N source seed v a} b := by
  constructor
  · intro hb
    refine ⟨h.attained (v, b) (.inl hb), fun a ha => ?_⟩
    obtain ⟨c, hc, hle⟩ := h.covers ha
    have hsame : ((v, c) : ν × α) = (v, b) := List.inj_on_of_nodup_map h.distinct hc hb rfl
    rwa [(Prod.mk.inj hsame).2] at hle
  · intro hgreatest
    obtain ⟨c, hc, hle⟩ := h.covers hgreatest.1
    have hcb : c ≤ b := hgreatest.2 (h.attained (v, c) (.inl hc))
    rwa [← le_antisymm hcb hle]

/-- A node is settled exactly when some value arrives there. -/
theorem settled_iff (h : Search N source seed settled []) {v : ν} :
    v ∈ settled.map Prod.fst ↔ ∃ a, Arrives N source seed v a := by
  constructor
  · intro hv
    obtain ⟨x, hx, rfl⟩ := List.mem_map.mp hv
    exact ⟨x.2, h.attained x (.inl hx)⟩
  · rintro ⟨a, ha⟩
    obtain ⟨b, hb, -⟩ := h.covers ha
    exact List.mem_map.mpr ⟨(v, b), hb, rfl⟩

end Search

end Lib.BestFirst
