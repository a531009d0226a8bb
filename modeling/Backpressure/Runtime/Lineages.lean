import Backpressure.Runtime.Fabric

/-!
# The two lineage windows

The durable store and the ledger each keep the last lineages of a fabric, by code of their own: the
store makes room before it inserts, the ledger afterwards. Both take the capacity that the fabric
was configured with, but only the ledger counts a capacity of zero as one.
-/

namespace Backpressure

/-- A new lineage would be removed for from a queue that is empty. -/
def RecoveredState.Underflows (s : RecoveredState) (maxLineages : Nat) (lineage : Digest128) :
    Prop :=
  lineage ∉ s.lineages ∧ maxLineages ≤ s.lineages.length ∧ s.lineages = []

namespace Fabric

/-- A store that has remembered the lineages, under the configuration of its fabric. -/
def remembered (config : FabricConfig) (lineages : List Digest128) : RecoveredState :=
  lineages.foldl (fun s => s.rememberLineage (durableConfig config).maxLineages) {}

/-- The ledger of a fabric that has marked the lineages. -/
def marked (config : FabricConfig) (incarnation : Incarnation) (lineages : List Digest128) :
    PropagationLedger :=
  lineages.foldl PropagationLedger.markLineage (blank config incarnation).ledger

structure WindowsAgree (config : FabricConfig) (incarnation : Incarnation)
    (lineages : List Digest128) : Prop where
  order : (remembered config lineages).lineages =
    (marked config incarnation lineages).lineages.queue
  evictions : (remembered config lineages).lineageEvictions =
    (marked config incarnation lineages).lineageEvictions
  /-- The store never removes from an empty queue. -/
  sound : ∀ before lineage, before ++ [lineage] <+: lineages →
    ¬(remembered config before).Underflows (durableConfig config).maxLineages lineage
  /-- The index of the ledger is the set of its queue, after each lineage. -/
  indexed : ∀ before, before <+: lineages → ∀ lineage,
    lineage ∈ (marked config incarnation before).lineages.index ↔
      lineage ∈ (marked config incarnation before).lineages.queue

section Step

variable {s : RecoveredState} {l : PropagationLedger} {maxLineages : Nat} {lineage : Digest128}

/-- The store and the ledger hold the same window of a capacity that is not zero. -/
structure InStep (maxLineages : Nat) (s : RecoveredState) (l : PropagationLedger) : Prop where
  capacity : l.lineages.capacity = maxLineages
  order : s.lineages = l.lineages.queue
  evictions : s.lineageEvictions = l.lineageEvictions

theorem InStep.step (h : InStep maxLineages s l) :
    InStep maxLineages (s.rememberLineage maxLineages lineage) (l.markLineage lineage) := by
  have hcapacity : (l.markLineage lineage).lineages.capacity = maxLineages :=
    Lib.Window.capacity_mark.trans h.capacity
  by_cases hknown : lineage ∈ l.lineages.queue
  · have hsame : l.markLineage lineage = l := by
      rw [PropagationLedger.markLineage, Lib.Window.mark_of_mem hknown]
    rw [hsame, RecoveredState.rememberLineage, if_pos (h.order ▸ hknown)]
    exact h
  · obtain ⟨hqueue, hevictions⟩ := Lib.Window.mark_new hknown
    rw [h.capacity, ← h.order] at hqueue hevictions
    rw [← h.order] at hknown
    refine ⟨hcapacity, Eq.trans ?_ hqueue.symm, Eq.trans ?_ hevictions.symm⟩
    · rw [RecoveredState.rememberLineage, if_neg hknown]
      split <;> rfl
    · rw [RecoveredState.rememberLineage, if_neg hknown]
      have hcount : s.lineageEvictions = l.lineages.evictions := h.evictions
      split <;> simp only [hcount]

theorem InStep.run (h : InStep maxLineages s l) (lineages : List Digest128) :
    InStep maxLineages (lineages.foldl (fun s => s.rememberLineage maxLineages) s)
      (lineages.foldl PropagationLedger.markLineage l) := by
  induction lineages generalizing s l with
  | nil => exact h
  | cons lineage rest ih => exact ih h.step

/-- Within the window of a ledger, the queue of the store is not empty when it is full. -/
theorem InStep.not_underflows (h : InStep maxLineages s l) : ¬s.Underflows maxLineages lineage := by
  rintro ⟨-, hfull, hempty⟩
  have hpositive := l.lineages.positive
  rw [hempty, List.length_nil] at hfull
  rw [h.capacity] at hpositive
  omega

end Step

/-- Windows of a capacity that is not zero agree from the start. -/
theorem inStep_remembered {config : FabricConfig} (h : config.ledgerLineageCapacity ≠ 0)
    (incarnation : Incarnation) (lineages : List Digest128) :
    InStep config.ledgerLineageCapacity (remembered config lineages)
      (marked config incarnation lineages) :=
  InStep.run ⟨if_neg h, rfl, rfl⟩ lineages

/-- The two windows agree after every sequence of lineages exactly when their capacity is not
zero. -/
theorem windows_agree_iff (config : FabricConfig) (incarnation : Incarnation)
    (lineages : List Digest128) :
    WindowsAgree config incarnation lineages ↔
      config.ledgerLineageCapacity ≠ 0 ∨ lineages = [] := by
  constructor
  · intro h
    by_contra hcon
    obtain ⟨hzero, hne⟩ := not_or.mp hcon
    rw [not_not] at hzero
    -- the very first lineage finds a full queue that holds nothing
    obtain ⟨lineage, rest, rfl⟩ := List.exists_cons_of_ne_nil hne
    refine h.sound [] lineage (List.prefix_append _ _) ⟨List.not_mem_nil, ?_, rfl⟩
    exact hzero.le
  · intro h
    have hindexed : ∀ before lineage, lineage ∈ (marked config incarnation before).lineages.index ↔
        lineage ∈ (marked config incarnation before).lineages.queue :=
      fun before => (marked config incarnation before).lineages.coherent
    rcases h with hpos | rfl
    · have hrun := inStep_remembered hpos incarnation
      exact {
        order := (hrun lineages).order
        evictions := (hrun lineages).evictions
        sound := fun before _ _ => (hrun before).not_underflows
        indexed := fun before _ => hindexed before }
    · exact {
        order := rfl
        evictions := rfl
        sound := fun before lineage hbefore => by simp at hbefore
        indexed := fun before _ => hindexed before }

/-- Without a capacity the store counts an eviction at its first lineage, from an empty queue; the
ledger keeps the lineage and counts none. -/
theorem windows_differ :
    ¬WindowsAgree { ledgerLineageCapacity := 0 } {} [⟨1, 2⟩] := by
  intro h
  have hevictions := h.evictions
  revert hevictions
  decide

end Fabric

end Backpressure
