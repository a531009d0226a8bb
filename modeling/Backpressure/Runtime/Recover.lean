import Backpressure.Engine.Recovery
import Backpressure.Runtime.Fabric

/-!
# Recoveries of a fabric

`Fabric::recover`: a publisher that is live tells how much of its pressure is left. The records of
its source are lowered in memory; nothing is written to the store.
-/

namespace Backpressure

namespace Fabric

variable {F : Fabric} {source : SourceId} {origin : ResourceId} {originGeneration : Generation}
  {residual : Magnitude} {authority : AuthorityVector} {now : Tick}

/-- What a recovery asks of the engine. -/
def recoveryOf (topology : Topology) (epoch : Epoch) (id : UInt64) (source : SourceId)
    (origin : ResourceId) (originGeneration : Generation) (residual : Magnitude)
    (authority : AuthorityVector) (now : Tick) : RecoveryRequest where
  id := ⟨id⟩
  source
  origin
  originGeneration
  topologyDigest := topology.digest
  epoch
  now
  residual
  authority

def recover (F : Fabric) (source : SourceId) (origin : ResourceId) (originGeneration : Generation)
    (residual : Magnitude) (authority : AuthorityVector) (now : Tick) :
    Result PropagationOutcome × Fabric :=
  if F.shuttingDown then (fail .shuttingDown "recover" 0, F)
  else
    match F.topology, F.policy with
    | some topology, some _ =>
      match F.publishers.lookup source with
      | none => (fail .notFound "publisher" source.value.toNat, F)
      | some record =>
        if record.state ≠ .live then (fail .notReady "publisher not live" 0, F)
        else
          let (id, F) := F.draw
          let (outcome, ledger) := PropagationEngine.recover F.context
            (recoveryOf topology F.epoch id source origin originGeneration residual authority now)
          (.ok outcome, { F with ledger := ledger.getD F.ledger })
    | _, _ => (fail .notReady "fabric not configured" 0, F)

/-- What a recovery leaves as it is: everything but the magnitudes of the ledger. -/
structure Recovered (F F' : Fabric) : Prop where
  config : F'.config = F.config
  store : F'.store = F.store
  topology : F'.topology = F.topology
  shuttingDown : F'.shuttingDown = F.shuttingDown
  lineages : F'.ledger.lineages = F.ledger.lineages
  keys : ∀ key, key ∈ F'.ledger.applications ↔ key ∈ F.ledger.applications

theorem recovered :
    F.Recovered (F.recover source origin originGeneration residual authority now).2 := by
  have hsame : F.Recovered F := ⟨rfl, rfl, rfl, rfl, rfl, fun _ => .rfl⟩
  unfold recover
  split
  · exact hsame
  split
  case h_2 => exact hsame
  case h_1 topology policy htopology hpolicy =>
    split
    · exact hsame
    split
    · exact hsame
    dsimp only
    generalize recoveryOf topology _ _ source origin originGeneration residual authority now =
      request
    rcases PropagationEngine.recover_cases F.draw.2.context request with
      ⟨-, hledger⟩ | ⟨topo, policy', ledger, hctx, hchecked⟩
    · rw [hledger]
      exact ⟨rfl, rfl, rfl, rfl, rfl, fun _ => .rfl⟩
    · have hheld : ledger = F.ledger := Option.some.inj (congrArg EngineContext.ledger hctx).symm
      obtain ⟨outcome, hrecover, -, -⟩ :=
        @PropagationEngine.recover_of_checked policy' request ledger topo F.draw.2.context.fences _
          hchecked
      rw [← hctx] at hrecover
      rw [hrecover]
      obtain ⟨-, hlineages, -, hkeys⟩ := @PropagationEngine.recoverTargets_frame policy' request
        ledger _ fun k hk => (PropagationEngine.mem_recoveryTargets.mp hk).1
      rw [hheld] at hlineages hkeys
      subst hheld
      exact ⟨rfl, rfl, rfl, rfl, hlineages, hkeys⟩

end Fabric

end Backpressure
