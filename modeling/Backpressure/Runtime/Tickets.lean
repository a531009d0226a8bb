import Mathlib.Data.List.AList
import Backpressure.Runtime.Fabric
import Backpressure.Runtime.Pool

/-!
# Tickets

Asynchronous publishing of `fabric.cpp`: the ticket store, the callers of `publish_async`, the jobs
on the worker pool, cancellation and `shutdown`. A step is one critical section of one of the three
mutexes, or what a thread does between two of them. Ticket ids do not wrap around.
-/

namespace Backpressure

abbrev TicketId := Nat

def kInvalidTicket : TicketId := 0

inductive TicketState
  | pending | running | completed | failed | cancelled | count
  deriving DecidableEq, Repr

/-- Neither pending nor running. -/
def TicketState.isSettled : TicketState → Bool
  | .pending => false
  | .running => false
  | _ => true

structure PublishTicket where
  id : TicketId := kInvalidTicket
  state : TicketState := .pending
  status : Status := .success
  outcome : PropagationOutcome := {}
  committed : Bool := false
  cancelled : Bool := false
  /-- Which of the shared flags it holds. -/
  cancelFlag : Option Nat := none

namespace PublishTicket

/-- Cancelled, unless its job has started. -/
def cancelPending (ticket : PublishTicket) (context : String) : PublishTicket :=
  if ticket.state = .pending then
    { ticket with
      state := .cancelled, cancelled := true, committed := false
      status := .error .cancelled context 0 }
  else ticket

/-- The ticket of a job that saw its flag before it published. -/
def ofFlag (flag : Nat) : PublishTicket where
  state := .cancelled
  status := .error .cancelled "publish cancelled" 0
  cancelled := true
  committed := false
  cancelFlag := some flag

/-- The ticket of a job whose publish has returned. -/
def ofResult (flag : Nat) : Result PropagationOutcome → PublishTicket
  | .ok outcome =>
    let ticket : PublishTicket := { cancelFlag := some flag, outcome, status := outcome.status }
    if outcome.status.code = .cancelled then
      { ticket with state := .cancelled, cancelled := true, committed := false }
    else if outcome.status.ok then { ticket with state := .completed, committed := true }
    else
      { ticket with state := .failed, committed := decide (0 < outcome.counters.signalsAccepted) }
  | .error st =>
    { cancelFlag := some flag
      status := st
      state := if st.code = .cancelled then .cancelled else .failed
      cancelled := decide (st.code = .cancelled) }

end PublishTicket

/-- Where the job of a ticket is. -/
inductive JobPhase
  | queued
  | marked
  | flagged (flag : Nat)
  | publishing (flag : Nat)
  | completing (ticket : PublishTicket)
  | returned

structure TicketJob where
  id : TicketId
  signal : PressureSignal
  now : Tick
  phase : JobPhase := .queued

/-- Where a call of `publish_async` is. -/
inductive CallPhase
  | idle
  /-- Past the check of the shutdown flag. -/
  | admitted (signal : PressureSignal) (now : Tick)
  /-- Past the check of the pool, in front of the draw of its id. -/
  | drawing (signal : PressureSignal) (now : Tick)
  | allocating (id : TicketId) (signal : PressureSignal) (now : Tick)
  | submitting (id : TicketId) (signal : PressureSignal) (now : Tick)
  | withdrawing (id : TicketId) (st : Status)

/-- A thread that calls `publish_async`, one call after another. -/
structure Caller where
  phase : CallPhase := .idle
  /-- What its calls have returned. -/
  returned : List (Result TicketId) := []

/-- How far `shutdown` has come. -/
inductive Stop
  | serving
  | cancelling (now : Tick)
  | stopping (now : Tick)
  | joining (now : Tick)
  | flushing (now : Tick)
  | closed

/-- A fabric with its tickets, its pool and the threads that use it. -/
structure Host where
  fabric : Fabric
  disk : Disk
  pool : WorkerPool TicketJob := {}
  tickets : AList fun _ : TicketId => PublishTicket := ∅
  ticketOrder : List TicketId := []
  nextTicket : TicketId := 1
  /-- The flags that were allocated. -/
  flags : List Bool := []
  callers : List Caller := []
  stop : Stop := .serving

namespace Host

/-- `open` starts the pool if the configuration asks for workers. -/
def openAt (F : Fabric) (d : Disk) (callers : Nat) : Host where
  fabric := F
  disk := d
  callers := List.replicate callers {}
  pool :=
    if 0 < F.config.workerThreads then
      (({} : WorkerPool TicketJob).start F.config.workerThreads F.config.workerQueueCapacity).2
    else {}

/-! ## The ticket store -/

def removeTicket (h : Host) (id : TicketId) : Host :=
  { h with tickets := h.tickets.erase id, ticketOrder := h.ticketOrder.erase id }

def isSettled (h : Host) (id : TicketId) : Bool := (h.tickets.lookup id).any (·.state.isSettled)

def markTicketRunning (h : Host) (id : TicketId) : Host :=
  match h.tickets.lookup id with
  | none => h
  | some ticket => { h with tickets := h.tickets.insert id { ticket with state := .running } }

def completeTicket (h : Host) (id : TicketId) (ticket : PublishTicket) : Host :=
  { h with tickets := h.tickets.insert id { ticket with id } }

/-- Room for one more ticket; a full store gives up its oldest settled one. -/
def reclaim (h : Host) : Option Host :=
  if h.fabric.config.maxTickets ≤ h.tickets.entries.length then
    (h.ticketOrder.find? h.isSettled).map h.removeTicket
  else some h

def allocate (h : Host) (id : TicketId) : Host :=
  { h with
    tickets := h.tickets.insert id { id, cancelFlag := some h.flags.length }
    ticketOrder := h.ticketOrder ++ [id]
    flags := h.flags ++ [false] }

def raise (flags : List Bool) (ticket : PublishTicket) : List Bool :=
  match ticket.cancelFlag with
  | none => flags
  | some flag => flags.set flag true

def cancel (h : Host) (id : TicketId) : Status × Host :=
  match h.tickets.lookup id with
  | none => (.error .notFound "ticket" id, h)
  | some ticket =>
    (.success, { h with
      flags := raise h.flags ticket
      tickets := h.tickets.insert id (ticket.cancelPending "publish cancelled") })

def releaseTicket (h : Host) (id : TicketId) : Status × Host :=
  match h.tickets.lookup id with
  | none => (.error .notFound "ticket" id, h)
  | some ticket =>
    if !ticket.state.isSettled then (.error .conflict "ticket still in flight" id, h)
    else (.success, h.removeTicket id)

/-- The first part of `shutdown`: cancel every ticket whose job has not started. -/
def cancelTickets (h : Host) : Host :=
  { h with
    flags := h.tickets.entries.foldl (fun flags entry => raise flags entry.2) h.flags
    tickets :=
      ⟨h.tickets.entries.map (Sigma.map id fun _ ticket => ticket.cancelPending "fabric shutdown"),
        h.tickets.nodupKeys.map₂ _ _⟩ }

/-! ## `publish_async` -/

def setCaller (h : Host) (i : Nat) (c : Caller) : Host := { h with callers := h.callers.set i c }

/-- The call returns. -/
def giveBack (h : Host) (i : Nat) (c : Caller) (result : Result TicketId) : Host :=
  h.setCaller i { phase := .idle, returned := c.returned ++ [result] }

/-- The beginning of a call. -/
def publishAsync (h : Host) (i : Nat) (c : Caller) (signal : PressureSignal) (now : Tick) : Host :=
  if h.fabric.shuttingDown then h.giveBack i c (fail .shuttingDown "publish async" 0)
  else h.setCaller i { c with phase := .admitted signal now }

def submit (h : Host) (job : TicketJob) : Status × Host :=
  if !h.pool.started then (.error .notReady "worker pool not started" 0, h)
  else
    let (st, pool) := h.pool.submit job
    (st, { h with pool })

/-- The next step of a call. -/
def advance (h : Host) (i : Nat) (c : Caller) : Option Host :=
  match c.phase with
  | .idle => none
  | .admitted signal now =>
    if !h.pool.started then some (h.giveBack i c (fail .notReady "worker pool not started" 0))
    else some (h.setCaller i { c with phase := .drawing signal now })
  | .drawing signal now =>
    some { h.setCaller i { c with phase := .allocating h.nextTicket signal now } with
      nextTicket := h.nextTicket + 1 }
  | .allocating id signal now =>
    match h.reclaim with
    | none => some (h.giveBack i c (fail .limitExceeded "ticket store" h.tickets.entries.length))
    | some h => some ((h.allocate id).setCaller i { c with phase := .submitting id signal now })
  | .submitting id signal now =>
    let (st, h) := h.submit { id, signal, now }
    if st.ok then some (h.giveBack i c (.ok id))
    else some (h.setCaller i { c with phase := .withdrawing id st })
  | .withdrawing id st => some ((h.removeTicket id).giveBack i c (.error st))

/-! ## The job -/

/-- The job on a worker has come to another place. -/
def setPhase (h : Host) (i : Nat) (job : Job TicketJob) (phase : JobPhase) : Host :=
  { h with pool := h.pool.setWorker i (.running { job with work := { job.work with phase } }) }

/-- What a job does next. -/
def jobStep (pq : EntryQueue) (h : Host) (i : Nat) (job : Job TicketJob) : Option Host :=
  match job.work.phase with
  | .queued => some ((h.markTicketRunning job.work.id).setPhase i job .marked)
  | .marked =>
    match (h.tickets.lookup job.work.id).bind PublishTicket.cancelFlag with
    | none => some (h.setPhase i job .returned)
    | some flag => some (h.setPhase i job (.flagged flag))
  | .flagged flag =>
    if h.flags[flag]?.getD false then some (h.setPhase i job (.completing (.ofFlag flag)))
    else some (h.setPhase i job (.publishing flag))
  | .publishing flag =>
    let (result, fabric, disk) :=
      h.fabric.publishLocked pq job.work.signal job.work.now true (h.flags[flag]?.getD false) h.disk
    some ({ h with fabric, disk }.setPhase i job (.completing (.ofResult flag result)))
  | .completing ticket => some ((h.completeTicket job.work.id ticket).setPhase i job .returned)
  | .returned => (h.pool.work i).map fun pool => { h with pool }

/-- The next step of a worker. -/
def worker (pq : EntryQueue) (h : Host) (i : Nat) : Option Host :=
  match h.pool.workers[i]? with
  | some (.running job) => h.jobStep pq i job
  | _ => (h.pool.work i).map fun pool => { h with pool }

/-! ## Shutdown -/

/-- The beginning of `shutdown`; it returns at once if another call was first. -/
def shutdown (h : Host) (now : Tick) : Host :=
  if h.fabric.shuttingDown then h
  else { h with fabric := { h.fabric with shuttingDown := true }, stop := .cancelling now }

/-- What `shutdown` does next. -/
def stopStep (h : Host) : Option Host :=
  match h.stop with
  | .serving => none
  | .cancelling now => some { h.cancelTickets with stop := .stopping now }
  | .stopping now =>
    if h.pool.started then some { h with pool := h.pool.abort, stop := .joining now }
    else some { h with stop := .flushing now }
  | .joining now => h.pool.join.map fun pool => { h with pool, stop := .flushing now }
  | .flushing now =>
    let (_, fabric, disk) := h.fabric.shutdownLocked now h.disk
    some { h with fabric, disk, stop := .closed }
  | .closed => none

inductive Action
  | call (i : Nat) (signal : PressureSignal) (now : Tick)
  | caller (i : Nat)
  | worker (i : Nat)
  | cancel (id : TicketId)
  | release (id : TicketId)
  | shutdown (now : Tick)
  | stop

/-- One step of one thread; none if that thread has to wait. -/
def step (pq : EntryQueue) (h : Host) : Action → Option Host
  | .call i signal now =>
    match h.callers[i]? with
    | some { phase := .idle, returned } => some (h.publishAsync i { returned } signal now)
    | _ => none
  | .caller i => h.callers[i]?.bind (h.advance i)
  | .worker i => h.worker pq i
  | .cancel id => some (h.cancel id).2
  | .release id => some (h.releaseTicket id).2
  | .shutdown now => some (h.shutdown now)
  | .stop => h.stopStep

/-- The steps of all threads, in some order. -/
def run (pq : EntryQueue) (h : Host) (acts : List Action) : Option Host :=
  Lib.Runs.run (step pq) h acts

end Host

end Backpressure
