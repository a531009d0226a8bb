import Backpressure.Core.Fixed
import Backpressure.Core.Digest
import Backpressure.Core.Ids
import Backpressure.Lib.Window
import Mathlib.Data.List.AList

/-!
# The propagation ledger

`PropagationLedger` of `engine.hpp` and `engine.cpp`: applied lineages, the pressure
currently applied per source and resource, and the damping history per target and edge.
Every container is bounded; lineages leave first in, first out.
-/

namespace Backpressure

/-- One directed dependency application. -/
structure EdgeTargetKey where
  target : ResourceId
  edge : EdgeId
  deriving DecidableEq, Repr

/-- One `(source, resource)` application. -/
structure SourceResourceKey where
  source : SourceId
  resource : ResourceId
  deriving DecidableEq, Repr

/-- The record of an application or of a damped crossing. -/
structure LedgerRecord where
  magnitude : Magnitude := .zero
  tick : Tick := kNoTick
  present : Bool := false
  deriving DecidableEq, Repr

abbrev ApplicationRecord := LedgerRecord
abbrev DampingRecord := LedgerRecord

structure PropagationLedger where
  lineages : Lib.Window Digest128
  applicationCapacity : Nat
  dampingCapacity : Nat
  applications : AList fun _ : SourceResourceKey => ApplicationRecord
  applicationRejections : Nat := 0
  dampings : AList fun _ : EdgeTargetKey => DampingRecord
  dampingRejections : Nat := 0
  applicationCapacity_pos : 0 < applicationCapacity
  dampingCapacity_pos : 0 < dampingCapacity

namespace PropagationLedger

/-- An empty ledger; every capacity of zero counts as one. -/
def make (lineageCapacity applicationCapacity dampingCapacity : Nat) : PropagationLedger where
  lineages := .ofCapacity lineageCapacity
  applicationCapacity := if applicationCapacity = 0 then 1 else applicationCapacity
  dampingCapacity := if dampingCapacity = 0 then 1 else dampingCapacity
  applications := ∅
  dampings := ∅
  applicationCapacity_pos := Lib.Window.ite_zero_pos applicationCapacity
  dampingCapacity_pos := Lib.Window.ite_zero_pos dampingCapacity

def markLineage (l : PropagationLedger) (lineage : Digest128) : PropagationLedger :=
  { l with lineages := l.lineages.mark lineage }

def hasLineage (l : PropagationLedger) (lineage : Digest128) : Bool := l.lineages.has lineage

def lineageEvictions (l : PropagationLedger) : Nat := l.lineages.evictions

def application (l : PropagationLedger) (source : SourceId) (resource : ResourceId) :
    ApplicationRecord :=
  (l.applications.lookup ⟨source, resource⟩).getD {}

def recordApplication (l : PropagationLedger) (source : SourceId) (resource : ResourceId)
    (m : Magnitude) (tick : Tick) : Status × PropagationLedger :=
  let key : SourceResourceKey := ⟨source, resource⟩
  if key ∉ l.applications ∧ l.applicationCapacity ≤ l.applications.entries.length then
    (.error .limitExceeded "application ledger" l.applications.entries.length,
      { l with applicationRejections := l.applicationRejections + 1 })
  else (.success, { l with applications := l.applications.insert key ⟨m, tick, true⟩ })

def damping (l : PropagationLedger) (target : ResourceId) (edge : EdgeId) : DampingRecord :=
  (l.dampings.lookup ⟨target, edge⟩).getD {}

def recordDamping (l : PropagationLedger) (target : ResourceId) (edge : EdgeId) (m : Magnitude)
    (tick : Tick) : Status × PropagationLedger :=
  let key : EdgeTargetKey := ⟨target, edge⟩
  if key ∉ l.dampings ∧ l.dampingCapacity ≤ l.dampings.entries.length then
    (.error .limitExceeded "damping ledger" l.dampings.entries.length,
      { l with dampingRejections := l.dampingRejections + 1 })
  else (.success, { l with dampings := l.dampings.insert key ⟨m, tick, true⟩ })

/-- Everything is forgotten but the counts of what was refused or evicted. -/
def clear (l : PropagationLedger) : PropagationLedger :=
  { l with lineages := l.lineages.clear, applications := ∅, dampings := ∅ }

end PropagationLedger

end Backpressure
