import Backpressure.Model.Generation
import Mathlib.Data.List.Basic

/-!
# Propagation fences

`fence.hpp`: a fence is an explicit refusal at one resource. The engine asks the table for
the single fence that governs a resource, chosen by strength and then by insertion order.
-/

namespace Backpressure

inductive FenceKind
  | refuseIngress | refuseEgress | barrier | count
  deriving DecidableEq, Repr

def FenceKind.toNat : FenceKind → Nat := FenceKind.ctorIdx

structure Fence where
  id : FenceId := {}
  resource : ResourceId := {}
  kind : FenceKind := .barrier
  epoch : Epoch := {}
  dependencyGeneration : Generation := {}
  expiresAt : Tick := kNoTick
  durable : Bool := false
  provenance : Digest128 := {}
  deriving DecidableEq, Repr

namespace Fence

def validate (f : Fence) : Status :=
  if !f.id.valid then .error .invalidArgument "fence id" 0
  else if !f.resource.valid then .error .invalidArgument "fence resource" 0
  else if f.kind = .count then .error .invalidArgument "fence kind" f.kind.toNat
  else if !f.epoch.known then .error .staleEpoch "fence epoch unbound" 0
  else .success

def refusesIngress (f : Fence) : Bool := f.kind == .refuseIngress || f.kind == .barrier

def refusesEgress (f : Fence) : Bool := f.kind == .refuseEgress || f.kind == .barrier

def expiredAt (f : Fence) (now : Tick) : Bool := f.expiresAt != kNoTick && decide (f.expiresAt < now)

/-- Strength used to pick the governing fence at a resource. -/
def strength (f : Fence) : Nat := if f.kind = .barrier then 2 else 1

/-- The fence counts at `now` for `resource`. -/
def liveOn (f : Fence) (resource : ResourceId) (now : Tick) : Bool :=
  f.resource == resource && !f.expiredAt now

/-- What validation leaves true of a fence for ever; the epoch may be re-bound later. -/
structure WellFormed (f : Fence) : Prop where
  id : f.id.valid = true
  resource : f.resource.valid = true
  kind : f.kind ≠ .count

theorem wellFormed_of_validate {f : Fence} (h : f.validate.ok = true) : f.WellFormed := by
  simp only [validate, Status.ok_guard, ne_eq, reduceCtorEq, not_false_eq_true,
    Bool.not_eq_true', Bool.not_eq_false] at h
  exact ⟨h.1, h.2.1, h.2.2.1⟩

end Fence

def kMaxFences : Nat := 4096

/-- Bounded fence set, in insertion order. -/
structure FenceTable where
  fences : List Fence := []
  wellFormed : ∀ f ∈ fences, f.WellFormed := by simp
  bounded : fences.length ≤ kMaxFences := by decide

namespace FenceTable

theorem forall_replaceF {P : Fence → Prop} {replace : Fence → Option Fence} {l : List Fence}
    (hl : ∀ f ∈ l, P f) (hnew : ∀ f g, replace f = some g → P g) : ∀ f ∈ l.replaceF replace, P f := by
  induction l with
  | nil => simp
  | cons c rest ih =>
    intro f hf
    rw [List.replaceF] at hf
    split at hf
    case h_1 =>
      rcases List.mem_cons.mp hf with heq | hf
      · rw [heq]
        exact hl c List.mem_cons_self
      · exact ih (fun x hx => hl x (List.mem_cons_of_mem c hx)) f hf
    case h_2 g hg =>
      rcases List.mem_cons.mp hf with heq | hf
      · rw [heq]
        exact hnew c g hg
      · exact hl f (List.mem_cons_of_mem c hf)

/-- A fence of the same identity is replaced where it is; another one is put at the end. -/
def add (t : FenceTable) (fence : Fence) : Status × FenceTable :=
  if h : fence.validate.ok = true then
    if t.fences.any fun existing => existing.id == fence.id then
      (.success,
        { fences := t.fences.replaceF fun existing =>
            if existing.id = fence.id then some fence else none
          wellFormed := forall_replaceF t.wellFormed fun _ replaced hg => by
            split at hg
            · cases hg
              exact Fence.wellFormed_of_validate h
            · cases hg
          bounded := by
            rw [List.length_replaceF]
            exact t.bounded })
    else if hfull : kMaxFences ≤ t.fences.length then
      (.error .limitExceeded "fence table" t.fences.length, t)
    else
      (.success,
        { fences := t.fences ++ [fence]
          wellFormed := fun f hf => (List.mem_append.mp hf).elim (t.wellFormed f) fun hlast => by
            rw [List.mem_singleton.mp hlast]
            exact Fence.wellFormed_of_validate h
          bounded := by
            rw [List.length_append, List.length_singleton]
            omega })
  else (fence.validate, t)

/-- The first fence of that identity is taken out. -/
def remove (t : FenceTable) (id : FenceId) : Status × FenceTable :=
  if t.fences.any fun f => f.id == id then
    (.success,
      { fences := t.fences.eraseP fun f => f.id == id
        wellFormed := fun f hf => t.wellFormed f (List.mem_of_mem_eraseP hf)
        bounded := (List.length_eraseP_le).trans t.bounded })
  else (.error .notFound "fence" id.value.toNat, t)

/-- One step of the scan in `governing`: the first of the strongest live fences wins. -/
def better (resource : ResourceId) (now : Tick) (best : Option Fence) (f : Fence) : Option Fence :=
  if f.liveOn resource now then
    match best with
    | none => some f
    | some b => if b.strength < f.strength then some f else some b
  else best

/-- Strongest live fence governing `resource`. -/
def governing (t : FenceTable) (resource : ResourceId) (now : Tick) : Option Fence :=
  t.fences.foldl (better resource now) none

/-- The fences on `resource` that count at `now`, in insertion order. -/
def live (t : FenceTable) (resource : ResourceId) (now : Tick) : List Fence :=
  t.fences.filter fun f => f.liveOn resource now

/-- A live refusal of ingress that `governing` does not see: the earliest live fence on the
resource refuses egress only, and no live barrier outranks it. -/
def Masked (t : FenceTable) (resource : ResourceId) (now : Tick) : Prop :=
  (∃ f ∈ t.live resource now, f.kind = .refuseIngress) ∧
    (∀ f ∈ t.live resource now, f.kind ≠ .barrier) ∧
    ∃ f, (t.live resource now).head? = some f ∧ f.kind = .refuseEgress

/-- The scan over live fences only. -/
def stronger (best : Option Fence) (f : Fence) : Option Fence :=
  match best with
  | none => some f
  | some b => if b.strength < f.strength then some f else some b

variable {t : FenceTable} {resource : ResourceId} {now : Tick} {f g : Fence}

theorem governing_eq : t.governing resource now = (t.live resource now).foldl stronger none := by
  unfold governing live
  generalize (none : Option Fence) = best
  induction t.fences generalizing best with
  | nil => rfl
  | cons f rest ih =>
    cases h : f.liveOn resource now with
    | true => simpa only [List.foldl_cons, List.filter_cons, h, better, stronger, if_pos] using ih _
    | false => simpa [List.foldl_cons, List.filter_cons, h, better] using ih _

theorem foldl_stronger_some {l : List Fence} {b : Fence} :
    ∃ g, l.foldl stronger (some b) = some g ∧ (g = b ∨ g ∈ l) ∧ b.strength ≤ g.strength ∧
      ∀ f ∈ l, f.strength ≤ g.strength := by
  induction l generalizing b with
  | nil => exact ⟨b, rfl, .inl rfl, Nat.le_refl _, by simp⟩
  | cons c rest ih =>
    rw [List.foldl_cons, stronger]
    split
    case isTrue hlt =>
      obtain ⟨g, hg, hmem, hle, hall⟩ := ih (b := c)
      refine ⟨g, hg, .inr ?_, by omega, fun f hf => ?_⟩
      · rcases hmem with rfl | hmem
        · exact List.mem_cons_self
        · exact List.mem_cons_of_mem c hmem
      · rcases List.mem_cons.mp hf with rfl | hf
        · exact hle
        · exact hall f hf
    case isFalse hlt =>
      obtain ⟨g, hg, hmem, hle, hall⟩ := ih (b := b)
      refine ⟨g, hg, hmem.imp_right (List.mem_cons_of_mem c), hle, fun f hf => ?_⟩
      rcases List.mem_cons.mp hf with rfl | hf
      · omega
      · exact hall f hf

/-- A strongest live fence governs as soon as any fence is live. -/
theorem exists_governing (hf : f ∈ t.live resource now) :
    ∃ g, t.governing resource now = some g ∧ g ∈ t.live resource now ∧
      ∀ f ∈ t.live resource now, f.strength ≤ g.strength := by
  rw [governing_eq]
  cases hl : t.live resource now with
  | nil => simp [hl] at hf
  | cons c rest =>
    obtain ⟨g, hg, hmem, hle, hall⟩ := foldl_stronger_some (l := rest) (b := c)
    refine ⟨g, hg, by simpa using hmem, fun f hf => ?_⟩
    rcases List.mem_cons.mp hf with rfl | hf
    · exact hle
    · exact hall f hf

theorem governing_mem (h : t.governing resource now = some g) : g ∈ t.live resource now := by
  cases hl : t.live resource now with
  | nil =>
    rw [governing_eq, hl] at h
    cases h
  | cons c rest =>
    obtain ⟨g', hg', hmem, -⟩ := exists_governing (f := c) (t := t) (by rw [hl]; simp)
    rw [h] at hg'
    obtain rfl := Option.some.inj hg'
    exact hl ▸ hmem

theorem kind_of_live (hf : f ∈ t.live resource now) : f.kind ≠ .count :=
  (t.wellFormed f (List.mem_filter.mp hf).1).kind

theorem kind_of_governing_barrier (hf : f ∈ t.live resource now) (hkind : f.kind = .barrier)
    (h : t.governing resource now = some g) : g.kind = .barrier := by
  obtain ⟨g', hg', -, hall⟩ := exists_governing hf
  obtain rfl := Option.some.inj (h.symm.trans hg')
  have hle := hall f hf
  by_contra hne
  simp [Fence.strength, hkind, hne] at hle

/-- Without a live barrier the earliest live fence governs. -/
theorem governing_eq_head? (h : ∀ f ∈ t.live resource now, f.kind ≠ .barrier) :
    t.governing resource now = (t.live resource now).head? := by
  rw [governing_eq]
  cases hl : t.live resource now with
  | nil => rfl
  | cons c rest =>
    rw [hl] at h
    have hweak : ∀ f : Fence, f.kind ≠ .barrier → f.strength = 1 := fun f hf => if_neg hf
    have hkeep : ∀ l : List Fence, (∀ f ∈ l, f.kind ≠ .barrier) →
        l.foldl stronger (some c) = some c := by
      intro l hl
      induction l with
      | nil => rfl
      | cons d rest ih =>
        rw [List.foldl_cons, stronger, hweak c (h c List.mem_cons_self),
          hweak d (hl d List.mem_cons_self), if_neg (by omega)]
        exact ih fun f hf => hl f (List.mem_cons_of_mem d hf)
    exact hkeep rest fun f hf => h f (List.mem_cons_of_mem c hf)

/-- The governing fence refuses ingress exactly when a live fence does and is not masked. -/
theorem governing_refusesIngress_iff :
    (∃ g, t.governing resource now = some g ∧ g.refusesIngress = true) ↔
      (∃ f ∈ t.live resource now, f.refusesIngress = true) ∧ ¬t.Masked resource now := by
  have hrefuses : ∀ f : Fence, f.refusesIngress = true ↔ f.kind = .refuseIngress ∨ f.kind = .barrier :=
    fun f => by simp [Fence.refusesIngress]
  constructor
  · rintro ⟨g, hg, hin⟩
    refine ⟨⟨g, governing_mem hg, hin⟩, ?_⟩
    rintro ⟨-, hbarrier, f, hhead, hegress⟩
    rw [governing_eq_head? hbarrier, hhead] at hg
    obtain rfl := Option.some.inj hg
    rw [hrefuses, hegress] at hin
    simp at hin
  · rintro ⟨⟨f, hf, hin⟩, hmask⟩
    obtain ⟨g, hg, hmem, -⟩ := exists_governing hf
    refine ⟨g, hg, ?_⟩
    by_cases hbarrier : ∃ b ∈ t.live resource now, b.kind = .barrier
    · obtain ⟨b, hb, hkind⟩ := hbarrier
      exact (hrefuses g).mpr (.inr (kind_of_governing_barrier hb hkind hg))
    · have hnone : ∀ b ∈ t.live resource now, b.kind ≠ .barrier :=
        fun b hb hkind => hbarrier ⟨b, hb, hkind⟩
      have hfin : f.kind = .refuseIngress := ((hrefuses f).mp hin).resolve_right (hnone f hf)
      have hhead := hg.symm.trans (governing_eq_head? hnone)
      rw [hrefuses]
      cases hkind : g.kind with
      | refuseIngress => exact .inl rfl
      | refuseEgress => exact absurd ⟨⟨f, hf, hfin⟩, hnone, g, hhead.symm, hkind⟩ hmask
      | barrier => exact .inr rfl
      | count => exact absurd hkind (kind_of_live hmem)

/-- Whatever governs a resource with a live refusal of egress refuses egress, or ingress. -/
theorem governing_refuses (hf : f ∈ t.live resource now) :
    ∃ g, t.governing resource now = some g ∧ (g.refusesEgress = true ∨ g.refusesIngress = true) := by
  obtain ⟨g, hg, hmem, -⟩ := exists_governing hf
  refine ⟨g, hg, ?_⟩
  have hkind := kind_of_live hmem
  revert hkind
  cases h : g.kind <;> simp [Fence.refusesEgress, Fence.refusesIngress, h]

end FenceTable

end Backpressure
