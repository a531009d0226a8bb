import Backpressure.Runtime.Cancellation

/-!
# Shutdown

`shutdown` cancels the tickets that wait for their jobs, then it aborts the pool. A call of
`publish_async` that is past its check of the shutdown flag goes on meanwhile: a ticket that it
allocates behind the cancellation and whose job it submits in front of the abort is handed out, and
nothing settles it.
-/

namespace Backpressure

/-- Between the mark of the ticket and its completion. -/
def JobPhase.active : JobPhase → Bool
  | .queued => false
  | .returned => false
  | _ => true

namespace WorkerPool

variable {p p' : WorkerPool TicketJob} {i : Nat}

/-- A job that runs has come to another place. -/
theorem Inv.rework (h : p.Inv) {job job' : Job TicketJob}
    (hi : p.workers[i]? = some (.running job)) : (p.setWorker i (.running job')).Inv := by
  have hcount := countP_set_add (q := Worker.isRunning) (b := .running job') hi
  simp only [Worker.isRunning, Bool.toNat_true] at hcount
  exact { h with
    active := by
      show p.active = (p.workers.set i (.running job')).countP Worker.isRunning
      rw [h.active]
      omega
    closed := by
      rintro (hdiscard | ⟨w, hw, hleft⟩)
      · exact h.closed (.inl hdiscard)
      · rcases List.mem_or_eq_of_mem_set hw with hw | rfl
        · exact h.closed (.inr ⟨w, hw, hleft⟩)
        · cases hleft
    unmanned := fun hno => absurd hno (h.not_unmanned hi)
    manned := h.manned_set _ }

/-- No job gets lost: what waits goes on waiting or is started, and what runs goes on running
unless it has returned. -/
structure Carries (p p' : WorkerPool TicketJob) : Prop where
  queue : ∀ job ∈ p.queue, job ∈ p'.queue ∨ ∃ j : Nat, p'.workers[j]? = some (.running job)
  workers : ∀ (j : Nat) (job : Job TicketJob), p.workers[j]? = some (.running job) →
    job.work.phase ≠ .returned → p'.workers[j]? = some (.running job)

/-- The jobs of the workers but one stay where they are. -/
theorem workers_of_set {w w' : Worker TicketJob} (hi : p.workers[i]? = some w)
    (hw : ∀ job : Job TicketJob, w = .running job → job.work.phase = .returned) (j : Nat)
    (job : Job TicketJob)
    (hj : p.workers[j]? = some (.running job)) (hphase : job.work.phase ≠ .returned) :
    (p.workers.set i w')[j]? = some (.running job) := by
  by_cases hij : i = j
  · subst hij
    rw [hi] at hj
    exact absurd (hw job (Option.some.inj hj)) hphase
  · rw [List.getElem?_set_ne hij]
    exact hj

theorem Inv.carries_work (h : p.Inv) (hwork : p.work i = some p')
    (hreturned : ∀ job, p.workers[i]? = some (.running job) → job.work.phase = .returned) :
    p.Carries p' := by
  unfold WorkerPool.work at hwork
  split at hwork
  case h_1 hi =>
    have hwait : ∀ job : Job TicketJob, Worker.waiting = .running job →
        job.work.phase = .returned := fun job hjob => by cases hjob
    rcases h.take_cases hwork with ⟨-, -, rfl⟩ | ⟨job, rest, hqueue, -, rfl⟩
    · exact ⟨fun job hjob => .inl hjob, workers_of_set hi hwait⟩
    · refine ⟨fun job' hjob' => ?_, workers_of_set hi hwait⟩
      rw [hqueue] at hjob'
      rcases List.mem_cons.mp hjob' with rfl | hjob'
      · obtain ⟨hlt, -⟩ := List.getElem?_eq_some_iff.mp hi
        exact .inr ⟨i, List.getElem?_set_self hlt⟩
      · exact .inl hjob'
  case h_2 job hi =>
    cases hwork
    refine ⟨fun job' hjob' => .inl hjob', workers_of_set hi fun job' hjob' => ?_⟩
    cases hjob'
    exact hreturned job hi
  case h_3 hi =>
    cases hwork
    exact ⟨fun job' hjob' => .inl hjob', workers_of_set hi fun job' hjob' => by cases hjob'⟩
  case h_4 => cases hwork

end WorkerPool

namespace Host

/-! ## Who settles a ticket -/

/-- The step aborts the pool while a job waits in its queue whose ticket is pending. -/
def Strands (h : Host) (a : Action) : Prop :=
  a = .stop ∧ (∃ now, h.stop = .stopping now) ∧ ∃ job ∈ h.pool.queue, ∃ ticket,
    h.tickets.lookup job.work.id = some ticket ∧ ticket.state = .pending

/-- A call or a job has the ticket and has not started it. -/
inductive Awaited (callers : List Caller) (pool : WorkerPool TicketJob) (id : TicketId) : Prop
  | called {i : Nat} {c : Caller} : callers[i]? = some c → c.phase.ticket = some id →
      Awaited callers pool id
  | queued {job : Job TicketJob} : job ∈ pool.queue → job.work.id = id → Awaited callers pool id
  | taken {i : Nat} {job : Job TicketJob} : pool.workers[i]? = some (.running job) →
      job.work.phase = .queued → job.work.id = id → Awaited callers pool id

/-- A job is about to complete the ticket. -/
def Worked (pool : WorkerPool TicketJob) (id : TicketId) : Prop :=
  ∃ (i : Nat) (job : Job TicketJob), pool.workers[i]? = some (.running job) ∧
    job.work.phase.active = true ∧ job.work.id = id

/-- Somebody settles the ticket unless it is settled. -/
structure Tended (callers : List Caller) (pool : WorkerPool TicketJob) (id : TicketId)
    (ticket : PublishTicket) : Prop where
  pending : ticket.state = .pending → Awaited callers pool id
  running : ticket.state = .running → Worked pool id

def Attended (h : Host) : Prop :=
  ∀ id ticket, h.tickets.lookup id = some ticket → Tended h.callers h.pool id ticket

section Frames

variable {callers : List Caller} {pool pool' : WorkerPool TicketJob} {id : TicketId} {i : Nat}
  {c c' : Caller} {job : Job TicketJob} {phase : JobPhase} {ticket ticket' : PublishTicket}

theorem Awaited.setCaller (h : Awaited callers pool id) (hi : callers[i]? = some c)
    (hc : c.phase.ticket = some id → c'.phase.ticket = some id) :
    Awaited (callers.set i c') pool id := by
  cases h with
  | @called j d hj hd =>
    by_cases hij : i = j
    · subst hij
      rw [hi] at hj
      cases hj
      obtain ⟨hlt, -⟩ := List.getElem?_eq_some_iff.mp hi
      exact .called (List.getElem?_set_self hlt) (hc hd)
    · exact .called ((List.getElem?_set_ne hij).trans hj) hd
  | queued hjob hid => exact .queued hjob hid
  | taken hj hphase hid => exact .taken hj hphase hid

theorem Awaited.carry (h : Awaited callers pool id) (hcarries : pool.Carries pool')
    (hqueued : ∀ job ∈ pool.queue, job.work.phase = .queued) : Awaited callers pool' id := by
  cases h with
  | called hi hc => exact .called hi hc
  | queued hjob hid =>
    rcases hcarries.queue _ hjob with hjob' | ⟨j, hj⟩
    · exact .queued hjob' hid
    · exact .taken hj (hqueued _ hjob) hid
  | taken hj hphase hid =>
    refine .taken (hcarries.workers _ _ hj fun hreturned => ?_) hphase hid
    rw [hphase] at hreturned
    cases hreturned

theorem Worked.carry (h : Worked pool id) (hcarries : pool.Carries pool') : Worked pool' id := by
  obtain ⟨j, job, hj, hactive, hid⟩ := h
  refine ⟨j, job, hcarries.workers j job hj fun hreturned => ?_, hactive, hid⟩
  rw [hreturned] at hactive
  cases hactive

/-- The workers after one of them has come to another place of its job. -/
theorem getElem?_rework (hi : pool.workers[i]? = some (.running job)) {w : Worker TicketJob} {j : Nat} :
    (pool.setWorker i w).workers[j]? = if i = j then some w else pool.workers[j]? := by
  obtain ⟨hlt, -⟩ := List.getElem?_eq_some_iff.mp hi
  show (pool.workers.set i w)[j]? = _
  by_cases hij : i = j
  · subst hij
    rw [if_pos rfl, List.getElem?_set_self hlt]
  · rw [if_neg hij, List.getElem?_set_ne hij]

theorem Awaited.rework (h : Awaited callers pool id) (hi : pool.workers[i]? = some (.running job))
    (hjob : job.work.id = id → job.work.phase ≠ .queued) :
    Awaited callers (pool.setWorker i (.running { job with work := { job.work with phase } })) id := by
  cases h with
  | called hi hc => exact .called hi hc
  | queued hjob hid => exact .queued hjob hid
  | @taken j job' hj hphase hid =>
    have hij : i ≠ j := by
      rintro rfl
      rw [hi] at hj
      cases hj
      exact hjob hid hphase
    exact .taken (by rw [getElem?_rework hi, if_neg hij, hj]) hphase hid

theorem Worked.rework (h : Worked pool id) (hi : pool.workers[i]? = some (.running job))
    (hjob : job.work.id = id → phase.active = true) :
    Worked (pool.setWorker i (.running { job with work := { job.work with phase } })) id := by
  obtain ⟨j, job', hj, hactive, hid⟩ := h
  by_cases hij : i = j
  · subst hij
    rw [hi] at hj
    cases hj
    exact ⟨i, { job with work := { job.work with phase } },
      by rw [getElem?_rework hi, if_pos rfl], hjob hid, hid⟩
  · exact ⟨j, job', by rw [getElem?_rework hi, if_neg hij, hj], hactive, hid⟩

/-- The job that is on its way to a completion has the ticket. -/
theorem Worked.here (hi : pool.workers[i]? = some (.running job)) (hactive : phase.active = true) :
    Worked (pool.setWorker i (.running { job with work := { job.work with phase } })) job.work.id :=
  ⟨i, { job with work := { job.work with phase } }, by rw [getElem?_rework hi, if_pos rfl],
    hactive, rfl⟩

theorem Tended.settled (hsettled : ticket.state.isSettled = true) :
    Tended callers pool id ticket where
  pending hstate := by
    rw [hstate] at hsettled
    cases hsettled
  running hstate := by
    rw [hstate] at hsettled
    cases hsettled

theorem Tended.setCaller (h : Tended callers pool id ticket) (hi : callers[i]? = some c)
    (hc : c.phase.ticket = some id → c'.phase.ticket = some id) :
    Tended (callers.set i c') pool id ticket :=
  { h with pending := fun hstate => (h.pending hstate).setCaller hi hc }

theorem Tended.cancelPending (h : Tended callers pool id ticket) (context : String) :
    Tended callers pool id (ticket.cancelPending context) := by
  unfold PublishTicket.cancelPending
  split
  · exact .settled rfl
  · exact h

end Frames

/-! ## What the steps keep -/

namespace Attended

variable {pq : EntryQueue} {h h' : Host} {a : Action} {i : Nat} {c c' : Caller} {id : TicketId}
  {job : Job TicketJob} {phase : JobPhase}

theorem setCaller (hatt : h.Attended) (hi : h.callers[i]? = some c)
    (hc : ∀ id ∈ h.tickets, c.phase.ticket = some id → c'.phase.ticket = some id) :
    (h.setCaller i c').Attended := fun id ticket hticket =>
  (hatt id ticket hticket).setCaller hi (hc id (mem_of_lookup hticket))

/-- A call without a ticket goes on. -/
theorem setCaller_of_none (hatt : h.Attended) (hi : h.callers[i]? = some c)
    (hc : c.phase.ticket = none) (c' : Caller) : (h.setCaller i c').Attended :=
  hatt.setCaller hi fun id _ hid => by
    rw [hc] at hid
    cases hid

/-- Tickets leave the store. -/
theorem remove (hatt : h.Attended) : (h.removeTicket id).Attended := by
  intro id' ticket hticket
  by_cases hid : id' = id
  · rw [hid, show (h.removeTicket id).tickets = h.tickets.erase id from rfl,
      AList.lookup_erase] at hticket
    cases hticket
  · exact hatt id' ticket ((AList.lookup_erase_ne hid).symm.trans hticket)

theorem reclaim {room : Host} (hatt : h.Attended) (hinv : h.Inv)
    (hreclaim : h.reclaim = some room) : room.Attended := by
  rcases hinv.reclaim_cases hreclaim with ⟨-, rfl⟩ | ⟨id, -, -, rfl⟩
  · exact hatt
  · exact hatt.remove

/-- A call allocates its ticket. -/
theorem allocates (hatt : h.Attended) (hi : h.callers[i]? = some c)
    (hticket : c'.phase.ticket = some id) (hid : ∀ id', c.phase.ticket = some id' → id' = id) :
    ((h.allocate id).setCaller i c').Attended := by
  intro id' ticket hlookup
  replace hlookup : (h.tickets.insert id _).lookup id' = some ticket := hlookup
  by_cases heq : id' = id
  · subst heq
    rw [AList.lookup_insert] at hlookup
    cases hlookup
    obtain ⟨hlt, -⟩ := List.getElem?_eq_some_iff.mp hi
    exact {
      pending := fun _ => .called (List.getElem?_set_self hlt) hticket
      running := fun hstate => by cases hstate }
  · rw [AList.lookup_insert_ne heq] at hlookup
    exact (hatt id' ticket hlookup).setCaller hi fun hc => absurd (hid id' hc) heq

/-- The job takes over the ticket of the call. -/
theorem submits {signal : PressureSignal} {now : Tick} (hatt : h.Attended)
    (hi : h.callers[i]? = some c) (hphase : c.phase = .submitting id signal now)
    (hok : (h.pool.submit { id, signal, now }).1.ok = true) :
    Attended ({ h with pool := (h.pool.submit { id, signal, now }).2 }.giveBack i c (.ok id)) := by
  rcases h.pool.submit_cases { id, signal, now } with ⟨hno, -⟩ | ⟨-, hsubmit⟩
  · rw [hok] at hno
    cases hno
  · rw [hsubmit]
    intro id' ticket hlookup
    have hold := hatt id' ticket hlookup
    refine ⟨fun hstate => ?_, hold.running⟩
    by_cases hid : id = id'
    · exact .queued (List.mem_append_right _ List.mem_cons_self) hid
    · cases hold.pending hstate with
      | @called j d hj hd =>
        have hij : i ≠ j := by
          rintro rfl
          rw [hi] at hj
          cases hj
          rw [hphase] at hd
          exact hid (Option.some.inj hd)
        exact .called ((List.getElem?_set_ne hij).trans hj) hd
      | queued hjob hid => exact .queued (List.mem_append_left _ hjob) hid
      | taken hj hphase hid => exact .taken hj hphase hid

/-- A job comes to another place, and perhaps it changes its ticket. -/
theorem setPhase (hatt : h.Attended) (hi : h.pool.workers[i]? = some (.running job))
    {T : AList fun _ : TicketId => PublishTicket} {fabric : Fabric} {disk : Disk}
    (hothers : ∀ id, id ≠ job.work.id → T.lookup id = h.tickets.lookup id)
    (hown : ∀ ticket, T.lookup job.work.id = some ticket → Tended h.callers
      (h.pool.setWorker i (.running { job with work := { job.work with phase } })) job.work.id ticket) :
    Attended (Host.setPhase { h with tickets := T, fabric, disk } i job phase) := by
  intro id ticket hticket
  by_cases hid : id = job.work.id
  · rw [hid] at hticket ⊢
    exact hown ticket hticket
  · have hold := hatt id ticket ((hothers id hid).symm.trans hticket)
    exact {
      pending := fun hstate => (hold.pending hstate).rework hi fun heq => absurd heq.symm hid
      running := fun hstate => (hold.running hstate).rework hi fun heq => absurd heq.symm hid }

/-- A job goes on with its ticket, which runs or is not there. -/
theorem continues (hatt : h.Attended) (hi : h.pool.workers[i]? = some (.running job))
    {fabric : Fabric} {disk : Disk} (hphase : job.work.phase ≠ .queued) (hactive : phase.active = true) :
    Attended (Host.setPhase { h with fabric, disk } i job phase) := by
  apply hatt.setPhase hi fun _ _ => rfl
  intro ticket hticket
  have hold := hatt job.work.id ticket hticket
  exact {
    pending := fun hstate => (hold.pending hstate).rework hi fun _ => hphase
    running := fun _ => .here hi hactive }

theorem carry {pool : WorkerPool TicketJob} (hatt : h.Attended) (hinv : h.Inv)
    (hcarries : h.pool.Carries pool) : Attended { h with pool } := by
  intro id ticket hticket
  have hold := hatt id ticket hticket
  exact {
    pending := fun hstate => (hold.pending hstate).carry hcarries hinv.queued
    running := fun hstate => (hold.running hstate).carry hcarries }

theorem move (hatt : h.Attended) (hinv : h.Inv) (hpool : h.pool.Inv)
    (hsane : ∀ id, Sits Sane SanePhase h id) (hmove : Move pq h a h') (hno : ¬h.Strands a) :
    h'.Attended := by
  cases hmove with
  | refuses st hi hphase => exact hatt.setCaller_of_none hi hphase _
  | proceeds phase hi hphase hnext => exact hatt.setCaller_of_none hi hphase _
  | draws signal now hi hphase =>
    have hset := hatt.setCaller_of_none hi hphase
    exact hset _
  | @overflows i c id signal now st hi hphase =>
    refine hatt.setCaller hi fun id' hmem hid => ?_
    rw [hphase] at hid
    cases hid
    exact absurd hmem (hinv.absent i c id signal now hi hphase)
  | @allocates i c id signal now room hi hphase hroom =>
    obtain ⟨hcallers, -, -, -, -⟩ := hinv.reclaim_frame hroom
    refine (hatt.reclaim hinv hroom).allocates (hcallers ▸ hi) rfl fun id' hid => ?_
    rw [hphase] at hid
    exact (Option.some.inj hid).symm
  | submits hi hphase hok => exact hatt.submits hi hphase hok
  | fails st hi hphase =>
    refine hatt.setCaller hi fun id _ hid => ?_
    rw [hphase] at hid
    exact hid
  | @withdraws i c id st hi hphase =>
    refine hatt.remove.setCaller hi fun id' hmem hid => ?_
    rw [hphase] at hid
    cases hid
    exact absurd rfl (AList.mem_erase.mp hmem).1
  | works hreturned hwork => exact hatt.carry hinv (hpool.carries_work hwork hreturned)
  | @marks i job hi hphase =>
    unfold Host.markTicketRunning
    split
    case h_1 hnone =>
      refine hatt.setPhase hi (fun _ _ => rfl) fun ticket hticket => ?_
      rw [hnone] at hticket
      cases hticket
    case h_2 old hold =>
      refine hatt.setPhase hi (fun id hid => AList.lookup_insert_ne hid) fun ticket hticket => ?_
      rw [AList.lookup_insert] at hticket
      cases hticket
      exact {
        pending := fun hstate => by cases hstate
        running := fun _ => .here hi rfl }
  | @loses i job hi hphase hnone =>
    refine hatt.setPhase hi (fun _ _ => rfl) fun ticket hticket => ?_
    obtain ⟨f, hf, -⟩ := ((hsane job.work.id).ticket ticket hticket).flag
    rw [hticket, Option.bind_some, hf] at hnone
    cases hnone
  | finds hi hphase hflag => exact hatt.continues hi (by rw [hphase]; simp) rfl
  | sees hi hphase hset => exact hatt.continues hi (by rw [hphase]; simp) rfl
  | passes hi hphase hset => exact hatt.continues hi (by rw [hphase]; simp) rfl
  | publishes hi hphase hpublish => exact hatt.continues hi (by rw [hphase]; simp) rfl
  | @completes i job ticket hi hphase =>
    have hjob := (hsane job.work.id).jobs i job hi rfl
    rw [hphase] at hjob
    refine hatt.setPhase hi (fun id hid => AList.lookup_insert_ne hid) fun ticket' hticket => ?_
    rw [AList.lookup_insert] at hticket
    cases hticket
    exact .settled hjob.2
  | @cancels id ticket hticket =>
    intro id' ticket' hlookup
    by_cases hid : id' = id
    · subst hid
      replace hlookup : (h.tickets.insert id' _).lookup id' = some ticket' := hlookup
      rw [AList.lookup_insert] at hlookup
      cases hlookup
      exact (hatt id' ticket hticket).cancelPending _
    · exact hatt id' ticket' ((AList.lookup_insert_ne hid).symm.trans hlookup)
  | releases hsettled => exact hatt.remove
  | cancelsAll now hstop =>
    intro id ticket hlookup
    replace hlookup : h.cancelTickets.tickets.lookup id = some ticket := hlookup
    rw [lookup_cancelTickets] at hlookup
    obtain ⟨old, hold, rfl⟩ := Option.map_eq_some_iff.mp hlookup
    exact (hatt id old hold).cancelPending _
  | aborts now hstop hstarted =>
    intro id ticket hticket
    have hold := hatt id ticket hticket
    refine ⟨fun hstate => ?_, hold.running⟩
    cases hold.pending hstate with
    | called hj hd => exact .called hj hd
    | @queued job hjob hid =>
      subst hid
      exact absurd ⟨rfl, ⟨now, hstop⟩, job, hjob, ticket, hticket, hstate⟩ hno
    | taken hj hphase hid => exact .taken hj hphase hid
  | joins now hstop hjoin =>
    obtain ⟨hleft, rfl⟩ := WorkerPool.join_cases hjoin
    have hidle : ∀ (j : Nat) (job : Job TicketJob), h.pool.workers[j]? ≠ some (.running job) :=
      fun j job hj => Bool.false_ne_true (hleft _ (List.mem_of_getElem? hj))
    intro id ticket hticket
    have hold := hatt id ticket hticket
    refine ⟨fun hstate => ?_, fun hstate => ?_⟩
    · cases hold.pending hstate with
      | called hj hd => exact .called hj hd
      | queued hjob hid => exact .queued hjob hid
      | taken hj hphase hid => exact absurd hj (hidle _ _)
    · obtain ⟨j, job, hj, -⟩ := hold.running hstate
      exact absurd hj (hidle j job)
  | _ => exact hatt

end Attended

/-! ## The stages of shutdown -/

/-- How far `shutdown` has come shows in the fabric and in the pool. -/
structure Staged (h : Host) : Prop where
  begun : h.stop ≠ .serving → h.fabric.shuttingDown = true
  joined : (∃ now, h.stop = .flushing now) ∨ h.stop = .closed → h.pool.started = false

section Stages

variable {pq : EntryQueue} {h h' : Host} {a : Action} {i : Nat} {c : Caller} {id : TicketId}

theorem started_work {p p' : WorkerPool TicketJob} (hwork : p.work i = some p') :
    p'.started = p.started := by
  unfold WorkerPool.work at hwork
  split at hwork
  · unfold WorkerPool.take at hwork
    split at hwork
    · split at hwork
      · cases hwork
        rfl
      · cases hwork
    · split at hwork
      · cases hwork
        rfl
      · cases hwork
        rfl
  · cases hwork
    rfl
  · cases hwork
    rfl
  · cases hwork

/-- Every move keeps what holds of the pool. -/
theorem pool_move (hpool : h.pool.Inv) (hinv : h.Inv) (hmove : Move pq h a h') : h'.pool.Inv := by
  cases hmove with
  | allocates hi hphase hroom =>
    obtain ⟨-, hsame, -, -, -⟩ := hinv.reclaim_frame hroom
    exact hsame ▸ hpool
  | submits hi hphase hok => exact hpool.submit _
  | works _ hwork => exact hpool.work hwork
  | @marks i job hi hphase =>
    show ((h.markTicketRunning job.work.id).pool.setWorker i _).Inv
    rw [Inv.markTicketRunning_pool]
    exact hpool.rework hi
  | loses hi hphase hnone => exact hpool.rework hi
  | finds hi hphase hflag => exact hpool.rework hi
  | sees hi hphase hset => exact hpool.rework hi
  | passes hi hphase hset => exact hpool.rework hi
  | publishes hi hphase hpublish => exact hpool.rework hi
  | completes hi hphase => exact hpool.rework hi
  | aborts now hstop hstarted => exact hpool.abort
  | joins now hstop hjoin => exact hpool.join hjoin
  | _ => exact hpool

theorem Staged.move (hstaged : h.Staged) (hinv : h.Inv) (hmove : Move pq h a h') : h'.Staged := by
  cases hmove with
  | allocates hi hphase hroom =>
    rcases hinv.reclaim_cases hroom with ⟨-, rfl⟩ | ⟨id, -, -, rfl⟩
    · exact ⟨hstaged.begun, hstaged.joined⟩
    · exact ⟨hstaged.begun, hstaged.joined⟩
  | @submits i c id signal now hi hphase hok =>
    refine ⟨hstaged.begun, fun hlate => ?_⟩
    have hstarted := hstaged.joined hlate
    rcases h.pool.submit_cases { id, signal, now } with ⟨-, hpool⟩ | ⟨-, hpool⟩
    · rw [hpool]
      exact hstarted
    · rw [hpool]
      exact hstarted
  | works _ hwork =>
    refine ⟨hstaged.begun, fun hlate => ?_⟩
    exact (started_work hwork).trans (hstaged.joined hlate)
  | marks hi hphase =>
    unfold markTicketRunning
    split
    · exact ⟨hstaged.begun, hstaged.joined⟩
    · exact ⟨hstaged.begun, hstaged.joined⟩
  | publishes hi hphase hpublish =>
    refine ⟨fun hbegun => ?_, hstaged.joined⟩
    exact (Fabric.publishLocked_frame hpublish).2.trans (hstaged.begun hbegun)
  | begins now hopen => exact ⟨fun _ => rfl, by simp⟩
  | cancelsAll now hstop => exact ⟨fun _ => hstaged.begun (by rw [hstop]; simp), by simp⟩
  | aborts now hstop hstarted => exact ⟨fun _ => hstaged.begun (by rw [hstop]; simp), by simp⟩
  | skips now hstop hstarted =>
    exact ⟨fun _ => hstaged.begun (by rw [hstop]; simp), fun _ => hstarted⟩
  | joins now hstop hjoin =>
    obtain ⟨-, rfl⟩ := WorkerPool.join_cases hjoin
    exact ⟨fun _ => hstaged.begun (by rw [hstop]; simp), fun _ => rfl⟩
  | flushes now hstop =>
    refine ⟨fun _ => ?_, fun _ => hstaged.joined (.inl ⟨now, hstop⟩)⟩
    exact Fabric.shutdownLocked_frame.2.trans (hstaged.begun (by rw [hstop]; simp))
  | _ => exact ⟨hstaged.begun, hstaged.joined⟩

/-- Behind the cancellation of the tickets there is no other one. -/
theorem swept_move (hswept : h.fabric.shuttingDown = true ∧ ∀ now, h.stop ≠ .cancelling now)
    (hinv : h.Inv) (hmove : Move pq h a h') :
    h'.fabric.shuttingDown = true ∧ ∀ now, h'.stop ≠ .cancelling now := by
  cases hmove with
  | allocates hi hphase hroom =>
    rcases hinv.reclaim_cases hroom with ⟨-, rfl⟩ | ⟨id, -, -, rfl⟩
    · exact hswept
    · exact hswept
  | marks hi hphase =>
    unfold markTicketRunning
    split
    · exact hswept
    · exact hswept
  | publishes hi hphase hpublish =>
    exact ⟨(Fabric.publishLocked_frame hpublish).2.trans hswept.1, hswept.2⟩
  | begins now hopen =>
    rw [hswept.1] at hopen
    cases hopen
  | cancelsAll now hstop => exact absurd hstop (hswept.2 now)
  | aborts now hstop hstarted => exact ⟨hswept.1, by simp⟩
  | skips now hstop hstarted => exact ⟨hswept.1, by simp⟩
  | joins now hstop hjoin => exact ⟨hswept.1, by simp⟩
  | flushes now hstop => exact ⟨Fabric.shutdownLocked_frame.2.trans hswept.1, by simp⟩
  | _ => exact hswept

/-! ## A ticket that nobody settles -/

/-- A caller was given the id. -/
def Handed (h : Host) (id : TicketId) : Prop := ∃ c ∈ h.callers, id ∈ c.handed

theorem Handed.setCaller {c' : Caller} (hhanded : h.Handed id) (hi : h.callers[i]? = some c)
    (hc : id ∈ c.handed → id ∈ c'.handed) : (h.setCaller i c').Handed id := by
  obtain ⟨d, hd, hid⟩ := hhanded
  obtain ⟨j, hj⟩ := List.mem_iff_getElem?.mp hd
  by_cases hij : i = j
  · subst hij
    rw [hi] at hj
    cases hj
    obtain ⟨hlt, -⟩ := List.getElem?_eq_some_iff.mp hi
    exact ⟨c', List.mem_set hlt _, hc hid⟩
  · exact ⟨d, List.mem_of_getElem? ((List.getElem?_set_ne hij).trans hj), hid⟩

theorem Handed.goesOn (hhanded : h.Handed id) (hi : h.callers[i]? = some c) (phase : CallPhase) :
    (h.setCaller i { c with phase }).Handed id :=
  hhanded.setCaller hi fun hid => hid

theorem Handed.giveBack {result : Result TicketId} (hhanded : h.Handed id)
    (hi : h.callers[i]? = some c) : (h.giveBack i c result).Handed id := by
  refine hhanded.setCaller hi fun hid => ?_
  show id ∈ (c.returned ++ [result]).filterMap Except.toOption
  rw [List.filterMap_append]
  exact List.mem_append_left _ hid

theorem handed_move (hhanded : h.Handed id) (hinv : h.Inv) (hmove : Move pq h a h') :
    h'.Handed id := by
  cases hmove with
  | refuses st hi hphase => exact hhanded.giveBack hi
  | proceeds phase hi hphase hnext => exact hhanded.goesOn hi _
  | @draws i c signal now hi hphase =>
    exact (hhanded.goesOn hi (.allocating h.nextTicket signal now) :)
  | overflows st hi hphase => exact hhanded.giveBack hi
  | @allocates i c id' signal now room hi hphase hroom =>
    obtain ⟨hcallers, -, -, -, -⟩ := hinv.reclaim_frame hroom
    have hroomed : (room.allocate id').Handed id := by
      show ∃ c ∈ room.callers, id ∈ c.handed
      rw [hcallers]
      exact hhanded
    exact hroomed.goesOn (c := c) (hcallers ▸ hi) _
  | @submits i c id' signal now hi hphase hok =>
    have hgiven : (h.giveBack i c (.ok id')).Handed id := hhanded.giveBack hi
    exact hgiven
  | fails st hi hphase => exact hhanded.goesOn hi _
  | withdraws hi hphase => exact (hhanded : (h.removeTicket _).Handed id).giveBack hi
  | marks hi hphase =>
    unfold markTicketRunning
    split
    · exact hhanded
    · exact hhanded
  | _ => exact hhanded

/-- The tickets of queued jobs were handed out. -/
theorem queue_handed_move (hqueue : ∀ job ∈ h.pool.queue, h.Handed job.work.id) (hinv : h.Inv)
    (hmove : Move pq h a h') : ∀ job ∈ h'.pool.queue, h'.Handed job.work.id := by
  have hold : ∀ job ∈ h.pool.queue, h'.Handed job.work.id := fun job hjob =>
    handed_move (hqueue job hjob) hinv hmove
  cases hmove with
  | allocates hi hphase hroom =>
    obtain ⟨-, hpool, -, -, -⟩ := hinv.reclaim_frame hroom
    intro job hjob
    exact hold job (hpool ▸ hjob)
  | @submits i c id signal now hi hphase hok =>
    rcases h.pool.submit_cases { id, signal, now } with ⟨-, hpool⟩ | ⟨-, hpool⟩
    · rw [hpool] at hold ⊢
      exact hold
    · intro job hjob
      rw [hpool] at hjob
      rcases List.mem_append.mp hjob with hjob | hjob
      · exact hold job hjob
      · rw [List.mem_singleton.mp hjob]
        obtain ⟨hlt, -⟩ := List.getElem?_eq_some_iff.mp hi
        refine ⟨_, List.mem_set hlt _, ?_⟩
        show id ∈ (c.returned ++ [Except.ok id]).filterMap Except.toOption
        rw [List.filterMap_append]
        exact List.mem_append_right _ List.mem_cons_self
  | works _ hwork => exact fun job hjob => hold job ((Inv.thins_work hwork).queue job hjob)
  | marks hi hphase =>
    intro job hjob
    refine hold job ?_
    rw [← Inv.markTicketRunning_pool (h := h)]
    exact hjob
  | aborts now hstop hstarted => exact fun job hjob => absurd hjob List.not_mem_nil
  | joins now hstop hjoin => exact fun job hjob => hold job ((Inv.thins_join hjoin).queue job hjob)
  | _ => exact hold

end Stages

/-! ## Every ticket is settled -/

/-- No step of the run strands a ticket. -/
def NoStrand (pq : EntryQueue) (h : Host) (acts : List Action) : Prop :=
  ∀ before a after h₁, acts = before ++ a :: after → h.run pq before = some h₁ → ¬h₁.Strands a

/-- Every ticket that was handed out and is in the store is settled. -/
def Settles (h : Host) : Prop :=
  ∀ id ticket, h.Handed id → h.tickets.lookup id = some ticket → ticket.state.isSettled = true

variable {pq : EntryQueue} {h h' : Host} {F : Fabric} {d : Disk} {callers : Nat} {acts : List Action}
  {a : Action} {id : TicketId}

theorem pool_openAt : (openAt F d callers).pool.Inv := by
  show WorkerPool.Inv (if _ then _ else _)
  split
  · exact WorkerPool.inv_new.start _ _
  · exact WorkerPool.inv_new

/-- What holds of the pool, of the stages and of the queue in every run. -/
theorem staged_run (hrun : (openAt F d callers).run pq acts = some h) :
    h.pool.Inv ∧ h.Staged ∧ ∀ job ∈ h.pool.queue, h.Handed job.work.id := by
  have hqueue : (openAt F d callers).pool.queue = [] := by
    show WorkerPool.queue (if _ then _ else _) = []
    split
    · unfold WorkerPool.start
      repeat' split
      all_goals rfl
    · rfl
  have hall : h.Inv ∧ h.pool.Inv ∧ h.Staged ∧ ∀ job ∈ h.pool.queue, h.Handed job.work.id := by
    refine Lib.Runs.run_invariant (P := fun q : Host => q.Inv ∧ q.pool.Inv ∧ q.Staged ∧
      ∀ job ∈ q.pool.queue, q.Handed job.work.id) ?_
      ⟨inv_openAt F d callers, pool_openAt, ?_, ?_⟩ hrun
    · intro q a q' _ ⟨hinv, hpool, hstaged, hhanded⟩ hstep
      have hmove := move_of_step hstep
      exact ⟨hinv.move hmove, pool_move hpool hinv hmove, hstaged.move hinv hmove,
        queue_handed_move hhanded hinv hmove⟩
    · exact ⟨fun hno => absurd rfl hno, by simp [openAt]⟩
    · rw [hqueue]
      exact fun job hjob => absurd hjob List.not_mem_nil
  exact hall.2

/-- In a run that strands no ticket somebody settles every ticket. -/
theorem attended_run (hrun : (openAt F d callers).run pq acts = some h)
    (hno : NoStrand pq (openAt F d callers) acts) : h.Attended := by
  have hnil : (openAt F d callers).run pq [] = some (openAt F d callers) := rfl
  have hall : h.Inv ∧ h.pool.Inv ∧ (∀ id, Sits Sane SanePhase h id) ∧ h.Attended := by
    refine Lib.Runs.run_invariant_of (P := fun q : Host => q.Inv ∧ q.pool.Inv ∧
      (∀ id, Sits Sane SanePhase q id) ∧ q.Attended) (fun q a q' => ?_) hno
      ⟨inv_openAt F d callers, pool_openAt, sane_run F d callers hnil, ?_⟩ hrun
    · intro ⟨hinv, hpool, hsane, hatt⟩ hgood hstep
      have hmove := move_of_step hstep
      exact ⟨hinv.move hmove, pool_move hpool hinv hmove,
        fun id => (hsane id).move stable_sane hinv hmove (.inr sane_allocated),
        hatt.move hinv hpool hsane hmove hgood⟩
    · exact fun id ticket hticket => absurd (mem_of_lookup hticket) (AList.notMem_empty id)
  exact hall.2.2.2

/-- When no call is under way and the pool has stopped, an attended ticket is settled. -/
theorem Attended.settles (hatt : h.Attended) (hpool : h.pool.Inv) (hidle : ∀ c ∈ h.callers, c.phase = .idle)
    (hstopped : h.pool.started = false) : h.Settles := by
  intro id ticket _ hticket
  obtain ⟨hworkers, hqueue, -⟩ := hpool.unmanned hstopped
  have hidlers : ∀ (i : Nat) (job : Job TicketJob), h.pool.workers[i]? ≠ some (.running job) := by
    intro i job hi
    rw [hworkers] at hi
    cases hi
  have htended := hatt id ticket hticket
  cases hstate : ticket.state with
  | pending =>
    cases htended.pending hstate with
    | called hi hc =>
      rw [hidle _ (List.mem_of_getElem? hi)] at hc
      cases hc
    | queued hjob hid =>
      rw [hqueue] at hjob
      cases hjob
    | taken hi hphase hid => exact absurd hi (hidlers _ _)
  | running =>
    obtain ⟨i, job, hi, -⟩ := htended.running hstate
    exact absurd hi (hidlers i job)
  | _ => rfl

/-- A pending ticket that no call and no job has, when no more tickets are cancelled. -/
structure Stranded (h : Host) (id : TicketId) : Prop where
  pending : ∃ ticket, h.tickets.lookup id = some ticket ∧ ticket.state = .pending
  alone : Beyond (fun _ => False) h id
  swept : h.fabric.shuttingDown = true ∧ ∀ now, h.stop ≠ .cancelling now

/-- Only a cancellation of its own touches a ticket that nobody has. -/
theorem lookup_move (halone : Beyond (fun _ => False) h id) (hinv : h.Inv)
    (hswept : ∀ now, h.stop ≠ .cancelling now) {ticket : PublishTicket}
    (hticket : h.tickets.lookup id = some ticket) (hpending : ticket.state = .pending)
    (hmove : Move pq h a h') (ha : a ≠ .cancel id) : h'.tickets.lookup id = some ticket := by
  have hunsettled : ∀ {id'}, h.isSettled id' = true → id ≠ id' := by
    rintro id' hsettled rfl
    rw [isSettled, hticket, Option.any_some, hpending] at hsettled
    cases hsettled
  cases hmove with
  | @allocates i c id' signal now room hi hphase hroom =>
    have hne : id ≠ id' := by
      rintro rfl
      exact hinv.absent i c id signal now hi hphase (mem_of_lookup hticket)
    show (room.tickets.insert id' _).lookup id = some ticket
    rw [AList.lookup_insert_ne hne]
    rcases hinv.reclaim_cases hroom with ⟨-, rfl⟩ | ⟨old, hsettled, -, rfl⟩
    · exact hticket
    · exact (AList.lookup_erase_ne (hunsettled hsettled)).trans hticket
  | @withdraws i c id' st hi hphase =>
    have hne : id ≠ id' := by
      rintro rfl
      refine halone.callers i c hi ?_
      rw [hphase]
      rfl
    exact (AList.lookup_erase_ne hne).trans hticket
  | @marks i job hi hphase =>
    show (h.markTicketRunning job.work.id).tickets.lookup id = some ticket
    unfold markTicketRunning
    split
    · exact hticket
    · exact (AList.lookup_insert_ne fun hid => halone.workers i job hi hid.symm).trans hticket
  | @completes i job ticket' hi hphase =>
    exact (AList.lookup_insert_ne fun hid => halone.workers i job hi hid.symm).trans hticket
  | @cancels id' ticket' hticket' =>
    have hne : id ≠ id' := fun hid => ha (hid ▸ rfl)
    exact (AList.lookup_insert_ne hne).trans hticket
  | releases hsettled => exact (AList.lookup_erase_ne (hunsettled hsettled)).trans hticket
  | cancelsAll now hstop => exact absurd hstop (hswept now)
  | _ => exact hticket

theorem Stranded.move (hstranded : h.Stranded id) (hinv : h.Inv) (hmove : Move pq h a h')
    (ha : a ≠ .cancel id) : h'.Stranded id where
  pending := by
    obtain ⟨ticket, hticket, hpending⟩ := hstranded.pending
    exact ⟨ticket, lookup_move hstranded.alone hinv hstranded.swept.2 hticket hpending hmove ha,
      hpending⟩
  alone := hstranded.alone.move hinv hmove False.elim False.elim
  swept := swept_move hstranded.swept hinv hmove

/-- The abort that strands a ticket. -/
theorem stranded_of_strands (hinv : h.Inv) (hpool : h.pool.Inv) (hstaged : h.Staged)
    (hqueue : ∀ job ∈ h.pool.queue, h.Handed job.work.id) (hstrands : h.Strands a)
    (hstep : h.step pq a = some h') : ∃ id, h'.Stranded id ∧ h'.Handed id := by
  obtain ⟨rfl, ⟨now, hstop⟩, job, hjob, ticket, hticket, hpending⟩ := hstrands
  have hstarted : h.pool.started = true := by
    by_contra hno
    rw [(hpool.unmanned (by simpa using hno)).2.1] at hjob
    cases hjob
  change h.stopStep = some h' at hstep
  unfold stopStep at hstep
  rw [hstop] at hstep
  dsimp only at hstep
  rw [if_pos hstarted] at hstep
  cases hstep
  have hsole := hinv.sole job.work.id
  have hqueued : 0 < h.pool.queue.countP fun job' => job'.work.id == job.work.id :=
    List.countP_pos_iff.mpr ⟨job, hjob, beq_self_eq_true _⟩
  unfold holders WorkerPool.holders at hsole
  refine ⟨job.work.id, ⟨⟨ticket, hticket, hpending⟩, ⟨?_, ?_, ?_, ?_⟩, ?_, by simp⟩, hqueue job hjob⟩
  · exact hinv.known _ (mem_of_lookup hticket)
  · intro i c hi hc
    replace hi : h.callers[i]? = some c := hi
    have hcaller := countP_pos_of_getElem? (q := fun c => c.phase.ticket == some job.work.id) hi
      (beq_iff_eq.mpr hc)
    omega
  · exact fun job' hjob' => absurd hjob' List.not_mem_nil
  · intro i job' hi hid
    replace hi : h.pool.workers[i]? = some (.running job') := hi
    have hworker := countP_pos_of_getElem? (q := fun w => w.ticket == some job.work.id) hi
      (beq_iff_eq.mpr (congrArg some hid))
    omega
  · exact hstaged.begun (by rw [hstop]; simp)

/-- When `shutdown` and all calls have returned, the pool has stopped, and every ticket that was
handed out is settled if no abort has found a pending one in the queue. Unless it is cancelled
afterwards, a ticket that was found there is pending for ever. -/
theorem shutdown_settles (pq : EntryQueue) (F : Fabric) (d : Disk) (callers : Nat)
    (acts : List Action) (hrun : (openAt F d callers).run pq acts = some h)
    (hclosed : h.stop = .closed) (hidle : ∀ c ∈ h.callers, c.phase = .idle) :
    h.pool.started = false ∧ (NoStrand pq (openAt F d callers) acts → h.Settles) ∧
      ((∀ id, .cancel id ∉ acts) → h.Settles → NoStrand pq (openAt F d callers) acts) := by
  obtain ⟨hpool, hstaged, -⟩ := staged_run hrun
  have hstopped := hstaged.joined (.inr hclosed)
  refine ⟨hstopped, fun hno => (attended_run hrun hno).settles hpool hidle hstopped, ?_⟩
  intro hcancel hsettles before a after h₁ hacts hbefore hstrands
  rw [hacts] at hrun
  obtain ⟨m, hm, hrest⟩ := Lib.Runs.run_append.mp hrun
  rw [show Lib.Runs.run (step pq) (openAt F d callers) before = some h₁ from hbefore] at hm
  cases hm
  obtain ⟨h₂, hstep, hafter⟩ := Lib.Runs.run_cons.mp hrest
  have hinv := (inv_openAt F d callers).run hbefore
  obtain ⟨hpool, hstaged, hqueue⟩ := staged_run hbefore
  obtain ⟨id, hstranded, hhanded⟩ :=
    stranded_of_strands hinv hpool hstaged hqueue hstrands hstep
  have hall : h.Inv ∧ h.Stranded id ∧ h.Handed id := by
    refine Lib.Runs.run_invariant (P := fun q : Host => q.Inv ∧ q.Stranded id ∧ q.Handed id)
      (fun q b q' hb hq hstep => ?_) ⟨hinv.move (move_of_step hstep), hstranded, hhanded⟩ hafter
    have hmove := move_of_step hstep
    have hne : b ≠ .cancel id := by
      rintro rfl
      refine hcancel id ?_
      rw [hacts]
      exact List.mem_append_right _ (List.mem_cons_of_mem _ hb)
    exact ⟨hq.1.move hmove, hq.2.1.move hq.1 hmove hne, handed_move hq.2.2 hq.1 hmove⟩
  obtain ⟨ticket, hticket, hpending⟩ := hall.2.1.pending
  have hsettled := hsettles id ticket hall.2.2 hticket
  rw [hpending] at hsettled
  cases hsettled

theorem settles_of_entries (hall : ∀ entry ∈ h.tickets.entries, entry.2.state.isSettled = true) :
    h.Settles := fun id ticket _ hticket =>
  hall ⟨id, ticket⟩ (AList.mem_lookup_iff.mp hticket)

/-- A ticket is submitted and cancelled by `shutdown`, its job discarded. -/
theorem shutdown_cancels :
    let F := Fabric.blank { workerThreads := 1 } {}
    let acts : List Action := [.call 0 {} 5, .caller 0, .caller 0, .caller 0, .caller 0, .shutdown 9,
      .stop, .stop, .worker 0, .worker 0, .stop, .stop]
    ∃ h, (openAt F {} 1).run .scan acts = some h ∧ h.pool.started = false ∧ h.Handed 1 ∧
      h.Settles ∧ NoStrand .scan (openAt F {} 1) acts := by
  intro F acts
  obtain ⟨hstopped, -, hexact⟩ := shutdown_settles .scan F {} 1 acts rfl rfl (by
    intro c hc
    rw [List.mem_singleton.mp hc])
  have hnever : ∀ id, .cancel id ∉ acts := fun id => by simp [acts]
  refine ⟨_, rfl, hstopped, ⟨_, List.mem_cons_self, List.mem_cons_self⟩, ?_, hexact hnever ?_⟩
  all_goals
    refine settles_of_entries fun entry hentry => ?_
    rw [List.mem_singleton.mp hentry]
    rfl

/-- A call is past its check when `shutdown` begins; it allocates its ticket behind the cancellation
and submits its job in front of the abort. -/
theorem late_ticket_stranded :
    ¬∀ pq F d callers acts h, (openAt F d callers).run pq acts = some h → h.stop = .closed →
      (∀ c ∈ h.callers, c.phase = .idle) → h.pool.started = false → h.Settles := by
  intro hall
  let F := Fabric.blank { workerThreads := 1 } {}
  let acts : List Action := [.call 0 {} 5, .shutdown 9, .stop, .caller 0, .caller 0, .caller 0,
    .caller 0, .stop, .worker 0, .worker 0, .stop, .stop]
  have hsettled := hall .scan F {} 1 acts _ rfl rfl (by
    intro c hc
    rw [List.mem_singleton.mp hc]) rfl 1 _ ⟨_, List.mem_cons_self, List.mem_cons_self⟩ rfl
  cases hsettled

end Host

end Backpressure
