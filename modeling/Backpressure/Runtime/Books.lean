import Backpressure.Runtime.Fabric

/-!
# The books of the fabric

The durable part of a publish and the end of the fabric change its ledger and its store; its
configuration, its publishers, its counters and its shutdown flag are changed by the calls
themselves.
-/

namespace Backpressure

namespace Fabric

variable {pq : EntryQueue} {F F' F'' : Fabric} {d : Disk} {now : Tick}

structure SameBooks (F F' : Fabric) : Prop where
  config : F'.config = F.config
  publishers : F'.publishers = F.publishers
  accepted : F'.signalsAccepted = F.signalsAccepted
  rejected : F'.signalsRejected = F.signalsRejected
  shuttingDown : F'.shuttingDown = F.shuttingDown

theorem SameBooks.refl (F : Fabric) : SameBooks F F := ⟨rfl, rfl, rfl, rfl, rfl⟩

theorem SameBooks.trans (h : SameBooks F F') (h' : SameBooks F' F'') : SameBooks F F'' :=
  ⟨h'.config.trans h.config, h'.publishers.trans h.publishers, h'.accepted.trans h.accepted,
    h'.rejected.trans h.rejected, h'.shuttingDown.trans h.shuttingDown⟩

theorem books_propagate {request : PropagationRequest} :
    SameBooks F (F.propagate pq request).2 := ⟨rfl, rfl, rfl, rfl, rfl⟩

theorem books_abandon {attempt : Option AttemptId} : SameBooks F (F.abandon attempt now d).1 := by
  unfold abandon
  split
  · exact ⟨rfl, rfl, rfl, rfl, rfl⟩
  · exact .refl F

theorem books_apply {attempt : Option AttemptId} {request : PropagationRequest}
    {planned : PropagationOutcome} :
    SameBooks F (F.apply pq attempt request planned d).2.1 := by
  have hran : SameBooks F (F.propagate pq { request with dryRun := false }).2 := books_propagate
  unfold apply
  dsimp only
  split
  · exact hran.trans books_abandon
  · split
    · exact hran.trans books_abandon
    · split
      · split
        · exact hran.trans ⟨rfl, rfl, rfl, rfl, rfl⟩
        · exact hran.trans ⟨rfl, rfl, rfl, rfl, rfl⟩
      · exact hran

theorem books_transact {request : PropagationRequest} {planned : PropagationOutcome}
    {durableIntent : Bool} : SameBooks F (F.transact pq request planned durableIntent d).2.1 := by
  unfold transact
  split
  · exact books_apply
  case h_2 store hstore =>
    split
    · dsimp only
      have hbegun : ∀ store', SameBooks F { F.draw.2 with store := some store' } := fun _ =>
        ⟨rfl, rfl, rfl, rfl, rfl⟩
      split
      · exact hbegun _
      · exact (hbegun _).trans books_apply
    · exact books_apply

theorem books_journalCompactionLocked : SameBooks F (F.journalCompactionLocked d).1 := by
  unfold journalCompactionLocked
  split
  · exact .refl F
  · exact ⟨rfl, rfl, rfl, rfl, rfl⟩

theorem books_flushLocked : SameBooks F (F.flushLocked now d).2.1 := by
  unfold flushLocked
  split
  · exact .refl F
  · dsimp only
    split
    · exact ⟨rfl, rfl, rfl, rfl, rfl⟩
    · exact ⟨rfl, rfl, rfl, rfl, rfl⟩

end Fabric

end Backpressure
