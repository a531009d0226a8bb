import Backpressure.Runtime.Agreement
import Backpressure.Runtime.TicketStore

/-!
# Cancellation

A ticket that is cancelled before its job has started is not published, and a publish that sees its
flag leaves no trace in the ledger, in the store or in the counts of accepted signals. The tickets
in the store, the jobs on the workers and the flags they share are followed together.
-/

namespace Backpressure

namespace Fabric

variable {pq : EntryQueue} {F : Fabric} {d : Disk}

/-- As if a signal had not been submitted, but for the counts of rejected signals. -/
structure Untouched (F : Fabric) (d : Disk) (F' : Fabric) (d' : Disk) : Prop where
  ledger : F'.ledger = F.ledger
  store : F'.store = F.store
  disk : d' = d
  accepted : F'.signalsAccepted = F.signalsAccepted
  publishers : ∀ source,
    (F'.publishers.lookup source).map PublisherRecord.accepted =
      (F.publishers.lookup source).map PublisherRecord.accepted

theorem Untouched.refl : F.Untouched d F d := ⟨rfl, rfl, rfl, rfl, fun _ => rfl⟩

theorem untouched_rejectFrom {source : SourceId} {F' : Fabric} (h : F.Untouched d F' d) :
    F.Untouched d (F'.rejectFrom source) d where
  ledger := h.ledger
  store := h.store
  disk := rfl
  accepted := h.accepted
  publishers other := by
    rw [← h.publishers other]
    unfold rejectFrom
    dsimp only
    cases hrecord : F'.publishers.lookup source with
    | none => rfl
    | some record =>
      dsimp only
      by_cases hother : other = source
      · subst hother
        rw [AList.lookup_insert, hrecord]
        rfl
      · rw [AList.lookup_insert_ne hother]

/-- A publish whose cancellation was asked for leaves no trace. -/
theorem publishLocked_cancelled {signal : PressureSignal} {now : Tick} {durableIntent : Bool}
    {result : Result PropagationOutcome} {F' : Fabric} {d' : Disk}
    (h : F.publishLocked pq signal now durableIntent true d = (result, F', d')) :
    F.Untouched d F' d' := by
  unfold publishLocked at h
  split at h
  · cases h
    exact .refl
  split at h
  case h_2 =>
    cases h
    exact .refl
  split at h
  · cases h
    exact .refl
  iterate 4
    split at h
    · cases h
      exact untouched_rejectFrom .refl
  dsimp only at h
  rw [propagate_dryRun] at h
  dsimp only at h
  have hdrawn : F.Untouched d F.draw.2 d := ⟨rfl, rfl, rfl, rfl, fun _ => rfl⟩
  split at h
  · cases h
    exact untouched_rejectFrom hdrawn
  · rw [if_pos rfl] at h
    cases h
    exact { hdrawn with }

end Fabric

/-- A job that comes into the queue does not concern the workers. -/
theorem WorkerPool.workers_submit {σ : Type} {p : WorkerPool σ} {work : σ} :
    (p.submit work).2.workers = p.workers := by
  rcases p.submit_cases work with ⟨-, hpool⟩ | ⟨-, hpool⟩
  · rw [hpool]
  · rw [hpool]

namespace Host

variable {pq : EntryQueue} {h h' : Host} {a : Action} {i : Nat} {c c' : Caller} {id : TicketId}

/-! ## The flags -/

/-- Flags are added and set. -/
structure Grows (flags flags' : List Bool) : Prop where
  length : flags.length ≤ flags'.length
  set : ∀ f : Nat, flags[f]? = some true → flags'[f]? = some true

theorem Grows.refl {flags : List Bool} : Grows flags flags := ⟨Nat.le_refl _, fun _ hf => hf⟩

theorem Grows.trans {flags flags' flags'' : List Bool} (h : Grows flags flags')
    (h' : Grows flags' flags'') : Grows flags flags'' :=
  ⟨h.length.trans h'.length, fun f hf => h'.set f (h.set f hf)⟩

theorem grows_raise {flags : List Bool} {ticket : PublishTicket} : Grows flags (raise flags ticket) := by
  unfold raise
  split
  · exact .refl
  · refine ⟨(List.length_set ..).ge, fun f hf => ?_⟩
    obtain ⟨hlt, -⟩ := List.getElem?_eq_some_iff.mp hf
    rw [List.getElem?_set]
    split
    · rw [if_pos (by omega)]
    · exact hf

theorem grows_cancelTickets : Grows h.flags h.cancelTickets.flags := by
  show Grows h.flags (h.tickets.entries.foldl (fun flags entry => raise flags entry.2) h.flags)
  generalize h.flags = flags
  induction h.tickets.entries generalizing flags with
  | nil => exact .refl
  | cons entry rest ih => exact grows_raise.trans (ih _)

theorem grows_allocate {flags : List Bool} : Grows flags (flags ++ [false]) where
  length := by
    rw [List.length_append]
    exact Nat.le_add_right _ _
  set f hf := by
    obtain ⟨hlt, -⟩ := List.getElem?_eq_some_iff.mp hf
    rw [List.getElem?_append_left hlt]
    exact hf

/-! ## Tickets and jobs together -/

/-- Whatever step is taken, a ticket keeps `T` as long as the jobs that have it keep `J`. -/
structure Stable (T : List Bool → PublishTicket → Prop) (J : List Bool → JobPhase → Prop) : Prop where
  ticket_grows : ∀ {flags flags' ticket}, Grows flags flags' → T flags ticket → T flags' ticket
  job_grows : ∀ {flags flags' phase}, Grows flags flags' → J flags phase → J flags' phase
  queued : ∀ flags, J flags .queued
  marked : ∀ flags, J flags .marked
  returned : ∀ flags, J flags .returned
  runs : ∀ {flags ticket}, T flags ticket → T flags { ticket with state := .running }
  cancels : ∀ {flags ticket} context, T flags ticket → T flags (ticket.cancelPending context)
  finds : ∀ {flags ticket flag}, T flags ticket → ticket.cancelFlag = some flag →
    J flags (.flagged flag)
  sees : ∀ {flags} {flag : Nat}, J flags (.flagged flag) → flags[flag]?.getD false = true →
    J flags (.completing (.ofFlag flag))
  passes : ∀ {flags} {flag : Nat}, J flags (.flagged flag) → flags[flag]?.getD false = false →
    J flags (.publishing flag)
  publishes : ∀ {flags flag} result, J flags (.publishing flag) →
    J flags (.completing (.ofResult flag result))
  completes : ∀ {flags ticket} id, J flags (.completing ticket) → T flags { ticket with id }

/-- The ticket, if it is there, has `T`, and the jobs that have it are in places with `J`. -/
structure Sits (T : List Bool → PublishTicket → Prop) (J : List Bool → JobPhase → Prop) (h : Host)
    (id : TicketId) : Prop where
  ticket : ∀ ticket, h.tickets.lookup id = some ticket → T h.flags ticket
  jobs : ∀ (i : Nat) (job : Job TicketJob), h.pool.workers[i]? = some (.running job) →
    job.work.id = id → J h.flags job.work.phase

namespace Sits

variable {T : List Bool → PublishTicket → Prop} {J : List Bool → JobPhase → Prop}
  {job : Job TicketJob} {phase : JobPhase}

theorem thin {pool : WorkerPool TicketJob} (hsits : Sits T J h id) (hstable : Stable T J)
    (hinv : h.Inv) (hthin : h.pool.Thins pool) : Sits T J { h with pool } id where
  ticket := hsits.ticket
  jobs j job hj hid := by
    rcases hthin.workers j job hj with hj | hqueue
    · exact hsits.jobs j job hj hid
    · rw [hinv.queued job hqueue]
      exact hstable.queued _

/-- Tickets and flags change. -/
theorem update {tickets : AList fun _ : TicketId => PublishTicket} {flags : List Bool}
    (hsits : Sits T J h id) (hstable : Stable T J) (hgrows : Grows h.flags flags)
    (htickets : ∀ ticket, tickets.lookup id = some ticket → T flags ticket) :
    Sits T J { h with tickets, flags } id where
  ticket := htickets
  jobs j job hj hid := hstable.job_grows hgrows (hsits.jobs j job hj hid)

theorem remove {id' : TicketId} (hsits : Sits T J h id) : Sits T J (h.removeTicket id') id where
  ticket ticket hticket := by
    by_cases hid : id = id'
    · rw [hid, show (h.removeTicket id').tickets = h.tickets.erase id' from rfl,
        AList.lookup_erase] at hticket
      cases hticket
    · exact hsits.ticket ticket ((AList.lookup_erase_ne hid).symm.trans hticket)
  jobs := hsits.jobs

theorem reclaim {room : Host} (hsits : Sits T J h id) (hinv : h.Inv)
    (hreclaim : h.reclaim = some room) : Sits T J room id ∧ room.flags = h.flags := by
  rcases hinv.reclaim_cases hreclaim with ⟨-, rfl⟩ | ⟨id', -, -, rfl⟩
  · exact ⟨hsits, rfl⟩
  · exact ⟨hsits.remove, rfl⟩

theorem setPhase {fabric : Fabric} {disk : Disk} (hsits : Sits T J h id)
    (hi : h.pool.workers[i]? = some (.running job)) (hphase : job.work.id = id → J h.flags phase) :
    Sits T J (Host.setPhase { h with fabric, disk } i job phase) id where
  ticket := hsits.ticket
  jobs j job' hj hid := by
    replace hj : (h.pool.workers.set i _)[j]? = some (.running job') := hj
    by_cases hij : i = j
    · subst hij
      obtain ⟨hlt, -⟩ := List.getElem?_eq_some_iff.mp hi
      rw [List.getElem?_set_self hlt] at hj
      cases hj
      exact hphase hid
    · rw [List.getElem?_set_ne hij] at hj
      exact hsits.jobs j job' hj hid

theorem insert {id' : TicketId} {ticket : PublishTicket} (hsits : Sits T J h id)
    (hticket : id = id' → T h.flags ticket) :
    Sits T J { h with tickets := h.tickets.insert id' ticket } id where
  ticket ticket' hlookup := by
    by_cases hid : id = id'
    · subst hid
      rw [show ({ h with tickets := h.tickets.insert id ticket } : Host).tickets =
        h.tickets.insert id ticket from rfl, AList.lookup_insert] at hlookup
      cases hlookup
      exact hticket rfl
    · exact hsits.ticket ticket' ((AList.lookup_insert_ne hid).symm.trans hlookup)
  jobs := hsits.jobs

theorem markTicketRunning {id' : TicketId} (hsits : Sits T J h id) (hstable : Stable T J) :
    Sits T J (h.markTicketRunning id') id := by
  unfold Host.markTicketRunning
  split
  · exact hsits
  case h_2 ticket hticket =>
    exact hsits.insert fun hid => hstable.runs (hsits.ticket ticket (hid ▸ hticket))

/-- Every move keeps what tickets and jobs say, if it holds of a ticket that is allocated. -/
theorem move (hsits : Sits T J h id) (hstable : Stable T J) (hinv : h.Inv)
    (hmove : Move pq h a h')
    (hnew : h.Past id ∨ ∀ flags : List Bool,
      T (flags ++ [false]) { id, cancelFlag := some flags.length }) : Sits T J h' id := by
  cases hmove with
  | @allocates i c id' signal now room hi hphase hroom =>
    obtain ⟨hroomed, hflags⟩ := hsits.reclaim hinv hroom
    obtain ⟨-, hpool, -, -, -⟩ := hinv.reclaim_frame hroom
    have hgrown : Sits T J { room with flags := room.flags ++ [false] } id :=
      hroomed.update hstable grows_allocate fun ticket hticket =>
        hstable.ticket_grows grows_allocate (hroomed.ticket ticket hticket)
    have hall : Sits T J (room.allocate id') id := by
      have hinsert := @insert _ _ T J id' { id := id', cancelFlag := some room.flags.length } hgrown
        fun hid => by
          subst hid
          rcases hnew with hpast | hnew
          · exact absurd hphase (hpast.settled i c signal now hi)
          · exact hnew room.flags
      exact ⟨hinsert.ticket, hinsert.jobs⟩
    exact ⟨hall.ticket, hall.jobs⟩
  | submits hi hphase hok =>
    refine ⟨hsits.ticket, fun j job hj hid => hsits.jobs j job ?_ hid⟩
    rw [← WorkerPool.workers_submit]
    exact hj
  | withdraws hi hphase => exact ⟨hsits.remove.ticket, hsits.jobs⟩
  | works _ hwork => exact hsits.thin hstable hinv (Inv.thins_work hwork)
  | @marks i job hi hphase =>
    refine (hsits.markTicketRunning hstable).setPhase ?_ fun _ => hstable.marked _
    rw [Inv.markTicketRunning_pool]
    exact hi
  | loses hi hphase hnone => exact hsits.setPhase hi fun _ => hstable.returned _
  | @finds i job flag hi hphase hflag =>
    refine hsits.setPhase hi fun hid => ?_
    obtain ⟨ticket, hticket, hset⟩ := Option.bind_eq_some_iff.mp hflag
    exact hstable.finds (hsits.ticket ticket (hid ▸ hticket)) hset
  | @sees i job flag hi hphase hset =>
    refine hsits.setPhase hi fun hid => ?_
    exact hstable.sees (hphase ▸ hsits.jobs i job hi hid) hset
  | @passes i job flag hi hphase hset =>
    refine hsits.setPhase hi fun hid => ?_
    exact hstable.passes (hphase ▸ hsits.jobs i job hi hid) hset
  | @publishes i job flag result fabric disk hi hphase hpublish =>
    refine hsits.setPhase hi fun hid => ?_
    exact hstable.publishes result (hphase ▸ hsits.jobs i job hi hid)
  | @completes i job ticket hi hphase =>
    have hinserted : Sits T J (h.completeTicket job.work.id ticket) id :=
      hsits.insert fun hid => hstable.completes _ (hphase ▸ hsits.jobs i job hi hid.symm)
    exact hinserted.setPhase hi fun _ => hstable.returned _
  | @cancels id' ticket hticket =>
    refine hsits.update hstable grows_raise fun ticket' hlookup => ?_
    have hold : ∀ ticket', h.tickets.lookup id = some ticket' → T (raise h.flags ticket) ticket' :=
      fun ticket' hlookup => hstable.ticket_grows grows_raise (hsits.ticket ticket' hlookup)
    by_cases hid : id = id'
    · subst hid
      rw [AList.lookup_insert] at hlookup
      cases hlookup
      exact hstable.cancels _ (hold ticket hticket)
    · rw [AList.lookup_insert_ne hid] at hlookup
      exact hold ticket' hlookup
  | releases hsettled => exact hsits.remove
  | cancelsAll now hstop =>
    have hall := hsits.update hstable (grows_cancelTickets (h := h)) fun ticket hlookup => by
      rw [lookup_cancelTickets] at hlookup
      obtain ⟨old, hold, rfl⟩ := Option.map_eq_some_iff.mp hlookup
      exact hstable.cancels _ (hstable.ticket_grows grows_cancelTickets (hsits.ticket old hold))
    exact ⟨hall.ticket, hall.jobs⟩
  | aborts now hstop hstarted =>
    have hall := hsits.thin hstable hinv (Inv.thins_abort h.pool)
    exact ⟨hall.ticket, hall.jobs⟩
  | joins now hstop hjoin =>
    have hall := hsits.thin hstable hinv (Inv.thins_join hjoin)
    exact ⟨hall.ticket, hall.jobs⟩
  | _ => exact ⟨hsits.ticket, hsits.jobs⟩

theorem run (hsits : Sits T J h id) (hstable : Stable T J) (hinv : h.Inv) {acts : List Action}
    (hrun : h.run pq acts = some h')
    (hnew : h.Past id ∨ ∀ flags : List Bool,
      T (flags ++ [false]) { id, cancelFlag := some flags.length }) : Sits T J h' id := by
  have hall : h'.Inv ∧ Sits T J h' id ∧ (h'.Past id ∨ ∀ flags : List Bool,
      T (flags ++ [false]) { id, cancelFlag := some flags.length }) := by
    refine Lib.Runs.run_invariant (P := fun q : Host => q.Inv ∧ Sits T J q id ∧ (q.Past id ∨
      ∀ flags : List Bool, T (flags ++ [false]) { id, cancelFlag := some flags.length })) ?_
      ⟨hinv, hsits, hnew⟩ hrun
    intro q a q' _ ⟨hinv, hsits, hnew⟩ hstep
    have hmove := move_of_step hstep
    exact ⟨hinv.move hmove, hsits.move hstable hinv hmove hnew,
      hnew.imp_left fun hpast => hpast.move hinv hmove⟩
  exact hall.2.1

end Sits

/-! ## Cancelled or committed -/

/-- A flag is there, and a ticket that is cancelled is not committed. -/
structure Sane (flags : List Bool) (ticket : PublishTicket) : Prop where
  flag : ∃ f, ticket.cancelFlag = some f ∧ f < flags.length
  sole : ¬(ticket.cancelled = true ∧ ticket.committed = true)

def SanePhase (flags : List Bool) : JobPhase → Prop
  | .flagged f => f < flags.length
  | .publishing f => f < flags.length
  | .completing ticket => Sane flags ticket ∧ ticket.state.isSettled = true
  | _ => True

/-- The ticket of a publish that has returned is settled, and not both cancelled and committed. -/
theorem ofResult_sane {flag : Nat} (result : Result PropagationOutcome) :
    (PublishTicket.ofResult flag result).cancelFlag = some flag ∧
      ¬((PublishTicket.ofResult flag result).cancelled = true ∧
        (PublishTicket.ofResult flag result).committed = true) ∧
      (PublishTicket.ofResult flag result).state.isSettled = true := by
  unfold PublishTicket.ofResult
  cases result with
  | ok outcome =>
    dsimp only
    split
    · exact ⟨rfl, fun hboth => Bool.false_ne_true hboth.2, rfl⟩
    · split
      · exact ⟨rfl, fun hboth => Bool.false_ne_true hboth.1, rfl⟩
      · exact ⟨rfl, fun hboth => Bool.false_ne_true hboth.1, rfl⟩
  | error st =>
    refine ⟨rfl, fun hboth => Bool.false_ne_true hboth.2, ?_⟩
    dsimp only
    split
    · rfl
    · rfl

theorem stable_sane : Stable Sane SanePhase where
  ticket_grows hgrows hsane := by
    obtain ⟨⟨f, hf, hlt⟩, hsole⟩ := hsane
    exact ⟨⟨f, hf, hlt.trans_le hgrows.length⟩, hsole⟩
  job_grows {flags flags' phase} hgrows hphase := by
    cases phase with
    | flagged f => exact lt_of_lt_of_le hphase hgrows.length
    | publishing f => exact lt_of_lt_of_le hphase hgrows.length
    | completing ticket =>
      obtain ⟨⟨⟨f, hf, hlt⟩, hsole⟩, hsettled⟩ := hphase
      exact ⟨⟨⟨f, hf, hlt.trans_le hgrows.length⟩, hsole⟩, hsettled⟩
    | _ => trivial
  queued _ := trivial
  marked _ := trivial
  returned _ := trivial
  runs hsane := ⟨hsane.flag, hsane.sole⟩
  cancels context hsane := by
    unfold PublishTicket.cancelPending
    split
    · exact ⟨hsane.flag, fun hboth => Bool.false_ne_true hboth.2⟩
    · exact hsane
  finds hsane hflag := by
    obtain ⟨f, hf, hlt⟩ := hsane.flag
    rw [hflag] at hf
    cases hf
    exact hlt
  sees hlt _ := ⟨⟨⟨_, rfl, hlt⟩, fun hboth => Bool.false_ne_true hboth.2⟩, rfl⟩
  passes hlt _ := hlt
  publishes {flags flag} result hlt := by
    obtain ⟨hflag, hsole, hsettled⟩ := @ofResult_sane flag result
    exact ⟨⟨⟨flag, hflag, hlt⟩, hsole⟩, hsettled⟩
  completes id hphase := ⟨hphase.1.flag, hphase.1.sole⟩

theorem sane_allocated (flags : List Bool) :
    Sane (flags ++ [false]) { id, cancelFlag := some flags.length } := by
  refine ⟨⟨flags.length, rfl, ?_⟩, fun hboth => Bool.false_ne_true hboth.1⟩
  rw [List.length_append]
  exact Nat.lt_succ_self _

theorem sane_run (F : Fabric) (d : Disk) (callers : Nat) {acts : List Action}
    (hrun : (openAt F d callers).run pq acts = some h) (id : TicketId) : Sits Sane SanePhase h id := by
  have hstart : Sits Sane SanePhase (openAt F d callers) id := by
    refine ⟨fun ticket hticket => ?_, fun i job hi => ?_⟩
    · exact absurd (mem_of_lookup hticket) (AList.notMem_empty id)
    · cases workers_openAt hi
  exact hstart.run stable_sane (inv_openAt F d callers) hrun (.inr sane_allocated)

/-! ## Cancelled before the start -/

/-- The flag is set, and the ticket has not been committed. -/
structure Shut (flags : List Bool) (ticket : PublishTicket) : Prop where
  flag : ∃ f, ticket.cancelFlag = some f ∧ flags[f]? = some true
  uncommitted : ticket.committed = false
  incomplete : ticket.state ≠ .completed

def ShutPhase (flags : List Bool) : JobPhase → Prop
  | .flagged f => flags[f]? = some true
  | .publishing _ => False
  | .completing ticket => Shut flags ticket
  | _ => True

theorem stable_shut : Stable Shut ShutPhase where
  ticket_grows hgrows hshut := by
    obtain ⟨⟨f, hf, hset⟩, hcommitted, hstate⟩ := hshut
    exact ⟨⟨f, hf, hgrows.set f hset⟩, hcommitted, hstate⟩
  job_grows {flags flags' phase} hgrows hphase := by
    cases phase with
    | flagged f => exact hgrows.set f hphase
    | publishing f => exact hphase
    | completing ticket =>
      obtain ⟨⟨f, hf, hset⟩, hcommitted, hstate⟩ := hphase
      exact ⟨⟨f, hf, hgrows.set f hset⟩, hcommitted, hstate⟩
    | _ => trivial
  queued _ := trivial
  marked _ := trivial
  returned _ := trivial
  runs hshut := ⟨hshut.flag, hshut.uncommitted, fun hstate => by cases hstate⟩
  cancels context hshut := by
    unfold PublishTicket.cancelPending
    split
    · exact ⟨hshut.flag, rfl, fun hstate => by cases hstate⟩
    · exact hshut
  finds hshut hflag := by
    obtain ⟨f, hf, hset⟩ := hshut.flag
    rw [hflag] at hf
    cases hf
    exact hset
  sees hset _ := ⟨⟨_, rfl, hset⟩, rfl, fun hstate => by cases hstate⟩
  passes {flags flag} hset hclear := by
    change flags[flag]? = some true at hset
    rw [hset] at hclear
    cases hclear
  publishes result hno := hno.elim
  completes id hshut := ⟨hshut.flag, hshut.uncommitted, hshut.incomplete⟩

/-- A ticket that is cancelled while it is pending is shut for good. -/
theorem shut_cancel (hinv : h.Inv) (hsane : Sits Sane SanePhase h id) {ticket : PublishTicket}
    (hticket : h.tickets.lookup id = some ticket) (hpending : ticket.state = .pending) :
    Sits Shut ShutPhase (h.cancel id).2 id := by
  obtain ⟨f, hf, hlt⟩ := (hsane.ticket ticket hticket).flag
  have hraise : raise h.flags ticket = h.flags.set f true := by
    unfold raise
    rw [hf]
  unfold cancel
  rw [hticket]
  dsimp only
  refine ⟨fun ticket' hlookup => ?_, fun i job hi hid => ?_⟩
  · replace hlookup : (h.tickets.insert id _).lookup id = some ticket' := hlookup
    rw [AList.lookup_insert] at hlookup
    cases hlookup
    unfold PublishTicket.cancelPending
    rw [if_pos hpending, hraise]
    exact ⟨⟨f, hf, List.getElem?_set_self hlt⟩, rfl, fun hstate => by cases hstate⟩
  · -- a job that has found its ticket has made it run
    have hnot : ¬Runs h.tickets job.work.id := by
      rintro ⟨ticket', hticket', hrunning⟩
      rw [hid, hticket] at hticket'
      cases hticket'
      rw [hpending] at hrunning
      cases hrunning
    have hsound := hinv.jobs i job hi
    unfold Sound at hsound
    cases hphase : job.work.phase with
    | queued => trivial
    | marked => trivial
    | returned => trivial
    | _ =>
      rw [hphase] at hsound
      exact absurd hsound hnot

/-! ## One publish a ticket -/

/-- No call has the ticket, it does not wait in the queue, and the jobs that have it are in places
with `P`. -/
structure Beyond (P : JobPhase → Prop) (h : Host) (id : TicketId) : Prop where
  drawn : id < h.nextTicket
  callers : ∀ (i : Nat) c, h.callers[i]? = some c → c.phase.ticket ≠ some id
  queue : ∀ job ∈ h.pool.queue, job.work.id ≠ id
  workers : ∀ (i : Nat) (job : Job TicketJob), h.pool.workers[i]? = some (.running job) →
    job.work.id = id → P job.work.phase

namespace Beyond

variable {P : JobPhase → Prop} {job : Job TicketJob} {phase : JobPhase}

theorem setCaller (hbeyond : Beyond P h id) (hc : c'.phase.ticket ≠ some id) :
    Beyond P (h.setCaller i c') id :=
  { hbeyond with
    callers := fun j d hj => by
      rcases List.mem_or_eq_of_mem_set (List.mem_of_getElem? hj) with hd | rfl
      · obtain ⟨k, hk⟩ := List.mem_iff_getElem?.mp hd
        exact hbeyond.callers k d hk
      · exact hc }

theorem giveBack (hbeyond : Beyond P h id) (result : Result TicketId) :
    Beyond P (h.giveBack i c result) id :=
  hbeyond.setCaller (Option.some_ne_none id).symm

theorem thin {pool : WorkerPool TicketJob} (hbeyond : Beyond P h id) (hthin : h.pool.Thins pool) :
    Beyond P { h with pool } id where
  drawn := hbeyond.drawn
  callers := hbeyond.callers
  queue job hjob := hbeyond.queue job (hthin.queue job hjob)
  workers j job hj hid := by
    rcases hthin.workers j job hj with hj | hqueue
    · exact hbeyond.workers j job hj hid
    · exact absurd hid (hbeyond.queue job hqueue)

theorem setPhase (hbeyond : Beyond P h id) (hi : h.pool.workers[i]? = some (.running job))
    (hphase : job.work.id = id → P phase) : Beyond P (h.setPhase i job phase) id :=
  { hbeyond with
    workers := fun j job' hj hid => by
      replace hj : (h.pool.workers.set i _)[j]? = some (.running job') := hj
      by_cases hij : i = j
      · subst hij
        obtain ⟨hlt, -⟩ := List.getElem?_eq_some_iff.mp hi
        rw [List.getElem?_set_self hlt] at hj
        cases hj
        exact hphase hid
      · rw [List.getElem?_set_ne hij] at hj
        exact hbeyond.workers j job' hj hid }

/-- The store does not matter, nor does the fabric. -/
theorem of_same (hbeyond : Beyond P h id) (hcallers : h'.callers = h.callers)
    (hpool : h'.pool = h.pool) (hnext : h'.nextTicket = h.nextTicket) : Beyond P h' id where
  drawn := by
    rw [hnext]
    exact hbeyond.drawn
  callers := by
    rw [hcallers]
    exact hbeyond.callers
  queue := by
    rw [hpool]
    exact hbeyond.queue
  workers := by
    rw [hpool]
    exact hbeyond.workers

theorem markTicketRunning {id' : TicketId} (hbeyond : Beyond P h id) :
    Beyond P (h.markTicketRunning id') id := by
  unfold Host.markTicketRunning
  split
  · exact hbeyond
  · exact hbeyond.of_same rfl rfl rfl

/-- Every move keeps it, if `P` holds of no place in front of the completion and of all that follow
one of its own. -/
theorem move (hbeyond : Beyond P h id) (hinv : h.Inv) (hmove : Move pq h a h')
    (hlate : ∀ {phase}, P phase → (∃ ticket, phase = .completing ticket) ∨ phase = .returned)
    (hreturned : ∀ {ticket}, P (.completing ticket) → P .returned) : Beyond P h' id := by
  have hearly : ∀ {phase}, P phase → phase ≠ .queued ∧ phase ≠ .marked ∧
      (∀ flag, phase ≠ .flagged flag) ∧ ∀ flag, phase ≠ .publishing flag := fun hP => by
    rcases hlate hP with ⟨ticket, rfl⟩ | rfl
    · simp
    · simp
  cases hmove with
  | refuses st hi hphase => exact hbeyond.giveBack _
  | proceeds phase hi hphase hnext =>
    refine hbeyond.setCaller ?_
    rw [hnext]
    exact (Option.some_ne_none id).symm
  | @draws i c signal now hi hphase =>
    have hset : Beyond P (h.setCaller i { c with phase := .allocating h.nextTicket signal now }) id :=
      hbeyond.setCaller fun hid => by
        cases hid
        exact Nat.lt_irrefl _ hbeyond.drawn
    exact { hset with drawn := Nat.lt_succ_of_lt hbeyond.drawn }
  | overflows st hi hphase => exact hbeyond.giveBack _
  | @allocates i c id' signal now room hi hphase hroom =>
    obtain ⟨hcallers, hpool, hnext, -, -⟩ := hinv.reclaim_frame hroom
    have hne := hbeyond.callers i c hi
    rw [hphase] at hne
    exact (hbeyond.of_same hcallers hpool hnext : Beyond P (room.allocate id') id).setCaller hne
  | @submits i c id' signal now hi hphase hok =>
    have hne := hbeyond.callers i c hi
    rw [hphase] at hne
    rcases h.pool.submit_cases { id := id', signal, now } with ⟨-, hpool⟩ | ⟨-, hpool⟩
    · rw [hpool]
      exact hbeyond.giveBack _
    · rw [hpool]
      have hgiven := hbeyond.giveBack (i := i) (c := c) (.ok id')
      exact { hgiven with
        queue := fun job hjob => by
          rcases List.mem_append.mp hjob with hjob | hjob
          · exact hbeyond.queue job hjob
          · rw [List.mem_singleton.mp hjob]
            exact fun hid => hne (congrArg some hid) }
  | @fails i c id' signal now st hi hphase =>
    have hne := hbeyond.callers i c hi
    rw [hphase] at hne
    exact hbeyond.setCaller hne
  | withdraws hi hphase => exact (hbeyond.of_same rfl rfl rfl : Beyond P (h.removeTicket _) id).giveBack _
  | works _ hwork => exact hbeyond.thin (Inv.thins_work hwork)
  | @marks i job hi hphase =>
    refine hbeyond.markTicketRunning.setPhase ?_ fun hid => ?_
    · rw [Inv.markTicketRunning_pool]
      exact hi
    · exact absurd hphase (hearly (hbeyond.workers i job hi hid)).1
  | @loses i job hi hphase hnone =>
    exact hbeyond.setPhase hi fun hid =>
      absurd hphase (hearly (hbeyond.workers i job hi hid)).2.1
  | @finds i job flag hi hphase hflag =>
    exact hbeyond.setPhase hi fun hid =>
      absurd hphase (hearly (hbeyond.workers i job hi hid)).2.1
  | @sees i job flag hi hphase hset =>
    exact hbeyond.setPhase hi fun hid =>
      absurd hphase ((hearly (hbeyond.workers i job hi hid)).2.2.1 flag)
  | @passes i job flag hi hphase hset =>
    exact hbeyond.setPhase hi fun hid =>
      absurd hphase ((hearly (hbeyond.workers i job hi hid)).2.2.1 flag)
  | @publishes i job flag result fabric disk hi hphase hpublish =>
    refine (hbeyond.of_same rfl rfl rfl : Beyond P { h with fabric, disk } id).setPhase hi fun hid => ?_
    exact absurd hphase ((hearly (hbeyond.workers i job hi hid)).2.2.2 flag)
  | @completes i job ticket hi hphase =>
    refine (hbeyond.of_same rfl rfl rfl :
      Beyond P (h.completeTicket job.work.id ticket) id).setPhase hi fun hid => ?_
    exact hreturned (hphase ▸ hbeyond.workers i job hi hid)
  | aborts now hstop hstarted => exact (hbeyond.thin (Inv.thins_abort h.pool)).of_same rfl rfl rfl
  | joins now hstop hjoin => exact (hbeyond.thin (Inv.thins_join hjoin)).of_same rfl rfl rfl
  | _ => exact hbeyond.of_same rfl rfl rfl

end Beyond

/-- The step is the publish of the ticket. -/
def Publishes (h : Host) (id : TicketId) (a : Action) : Prop :=
  ∃ (i : Nat) (job : Job TicketJob) (flag : Nat), a = .worker i ∧
    h.pool.workers[i]? = some (.running job) ∧ job.work.id = id ∧ job.work.phase = .publishing flag

/-- Behind the publish. -/
def Late : JobPhase → Prop
  | .completing _ => True
  | .returned => True
  | _ => False

theorem late_cases {phase : JobPhase} (hlate : Late phase) :
    (∃ ticket, phase = .completing ticket) ∨ phase = .returned := by
  cases phase with
  | completing ticket => exact .inl ⟨ticket, rfl⟩
  | returned => exact .inr rfl
  | _ => exact hlate.elim

/-- A ticket that is published is beyond its publish. -/
theorem beyond_of_publishes (hinv : h.Inv) (hpublishes : h.Publishes id a)
    (hstep : h.step pq a = some h') : Beyond Late h' id := by
  obtain ⟨i, job, flag, rfl, hi, rfl, hphase⟩ := hpublishes
  have hsole := hinv.sole job.work.id
  unfold holders WorkerPool.holders at hsole
  have hworker := countP_pos_of_getElem? (q := fun w => w.ticket == some job.work.id) hi
    (beq_self_eq_true (some job.work.id))
  change h.worker pq i = some h' at hstep
  unfold worker at hstep
  rw [hi] at hstep
  dsimp only at hstep
  unfold jobStep at hstep
  rw [hphase] at hstep
  cases hstep
  refine ⟨hinv.drawn _ ?_, fun j c hj hc => ?_, fun job' hjob' hid => ?_, fun j job' hj hid => ?_⟩
  · unfold holders WorkerPool.holders
    omega
  · exact hinv.caller_alone hj hc hi rfl
  · have hqueue : 0 < h.pool.queue.countP fun job' => job'.work.id == job.work.id :=
      List.countP_pos_iff.mpr ⟨job', hjob', beq_iff_eq.mpr hid⟩
    omega
  · replace hj : (h.pool.workers.set i _)[j]? = some (.running job') := hj
    by_cases hij : i = j
    · subst hij
      obtain ⟨hlt, -⟩ := List.getElem?_eq_some_iff.mp hi
      rw [List.getElem?_set_self hlt] at hj
      cases hj
      trivial
    · rw [List.getElem?_set_ne hij] at hj
      exact absurd (hinv.same_worker hi hj hid) hij

theorem not_publishes_of_beyond (hbeyond : Beyond Late h id) : ¬h.Publishes id a := by
  rintro ⟨i, job, flag, -, hi, hid, hphase⟩
  have hlate := hbeyond.workers i job hi hid
  rw [hphase] at hlate
  exact hlate

theorem beyond_run {acts : List Action} (hinv : h.Inv) (hbeyond : Beyond Late h id)
    (hrun : h.run pq acts = some h') : Beyond Late h' id := by
  have hall : h'.Inv ∧ Beyond Late h' id := by
    refine Lib.Runs.run_invariant (P := fun q : Host => q.Inv ∧ Beyond Late q id) ?_
      ⟨hinv, hbeyond⟩ hrun
    intro q a q' _ ⟨hinv, hbeyond⟩ hstep
    have hmove := move_of_step hstep
    exact ⟨hinv.move hmove, hbeyond.move hinv hmove late_cases fun _ => trivial⟩
  exact hall.2

/-! ## What a job leaves behind -/

/-- A step of a worker leaves the fabric alone, unless it publishes a signal whose flag is clear. -/
theorem worker_untouched (hstep : h.step pq (.worker i) = some h') :
    h.fabric.Untouched h.disk h'.fabric h'.disk ∨ ∃ (job : Job TicketJob) (flag : Nat),
      h.pool.workers[i]? = some (.running job) ∧ job.work.phase = .publishing flag ∧
        h.flags[flag]?.getD false = false := by
  cases move_of_step hstep with
  | marks hi hphase =>
    refine .inl ?_
    unfold markTicketRunning
    split <;> exact .refl
  | @publishes i job flag result fabric disk hi hphase hpublish =>
    cases hflag : h.flags[flag]?.getD false with
    | false => exact .inr ⟨job, flag, hi, hphase, hflag⟩
    | true =>
      rw [hflag] at hpublish
      exact .inl (Fabric.publishLocked_cancelled hpublish)
  | _ => exact .inl .refl

/-- In every run of an opened fabric no ticket is both cancelled and committed; one that is
cancelled while it is pending is never published, committed or completed; none is published twice;
and a job that sees the flag of its ticket, before its publish or in it, leaves the ledger, the
store and the accepted signals alone. -/
theorem cancelled_never_commits (pq : EntryQueue) (F : Fabric) (d : Disk) (callers : Nat)
    (acts : List Action) (hrun : (openAt F d callers).run pq acts = some h) :
    (∀ id ticket, h.tickets.lookup id = some ticket →
      ¬(ticket.cancelled = true ∧ ticket.committed = true)) ∧
    (∀ id ticket, h.tickets.lookup id = some ticket → ticket.state = .pending →
      ∀ later h', h.run pq (.cancel id :: later) = some h' →
        (∀ ticket', h'.tickets.lookup id = some ticket' →
          ticket'.committed = false ∧ ticket'.state ≠ .completed) ∧ ∀ a, ¬h'.Publishes id a) ∧
    (∀ id a later h', h.Publishes id a → h.run pq (a :: later) = some h' →
      ∀ b, ¬h'.Publishes id b) ∧
    ∀ i h', h.step pq (.worker i) = some h' →
      h.fabric.Untouched h.disk h'.fabric h'.disk ∨ ∃ (job : Job TicketJob) (flag : Nat),
        h.pool.workers[i]? = some (.running job) ∧ job.work.phase = .publishing flag ∧
          h.flags[flag]?.getD false = false := by
  have hinv := (inv_openAt F d callers).run hrun
  refine ⟨fun id ticket hticket => ?_, ?_, ?_, fun i h' hstep => worker_untouched hstep⟩
  · exact ((sane_run F d callers hrun id).ticket ticket hticket).sole
  · intro id ticket hticket hpending later h' hlater
    obtain ⟨m, hm, hrest⟩ := Lib.Runs.run_cons.mp hlater
    have hm' : m = (h.cancel id).2 := (Option.some.inj hm).symm
    have hshut := shut_cancel hinv (sane_run F d callers hrun id) hticket hpending
    have hmove := move_of_step hm
    have hpast := (hinv.past (mem_of_lookup hticket)).move hinv hmove
    rw [← hm'] at hshut
    have hlast := hshut.run stable_shut (hinv.move hmove) hrest (.inl hpast)
    refine ⟨fun ticket' hticket' => ?_, ?_⟩
    · have hkept := hlast.ticket ticket' hticket'
      exact ⟨hkept.uncommitted, hkept.incomplete⟩
    · rintro a ⟨i, job, flag, -, hi, hid, hphase⟩
      have hno := hlast.jobs i job hi hid
      rw [hphase] at hno
      exact hno
  · intro id a later h' hpublishes hlater b
    obtain ⟨m, hm, hrest⟩ := Lib.Runs.run_cons.mp hlater
    have hbeyond := beyond_of_publishes hinv hpublishes hm
    exact not_publishes_of_beyond (beyond_run (hinv.move (move_of_step hm)) hbeyond hrest)

/-- A ticket is cancelled in front of its job, whose worker then sees the flag. -/
theorem cancelled_first :
    let F := Fabric.blank { workerThreads := 1 } {}
    let acts : List Action := [.call 0 {} 5, .caller 0, .caller 0, .caller 0, .caller 0]
    let later : List Action := [.worker 0, .worker 0, .worker 0, .worker 0, .worker 0]
    ∃ h h' ticket, (openAt F {} 1).run .scan acts = some h ∧
      h.run .scan (.cancel 1 :: later) = some h' ∧ h'.tickets.lookup 1 = some ticket ∧
      ticket.state = .cancelled ∧ ticket.committed = false := by
  intro F acts later
  obtain ⟨-, hshut, -⟩ := cancelled_never_commits .scan F {} 1 acts rfl
  obtain ⟨hticket, -⟩ := hshut 1 _ rfl rfl later _ rfl
  exact ⟨_, _, _, rfl, rfl, rfl, rfl, (hticket _ rfl).1⟩

end Host

end Backpressure
