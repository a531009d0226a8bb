import Backpressure.Runtime.Books
import Backpressure.Runtime.Tickets

/-!
# The ticket store

What one step of the host can do, and what holds of the ticket store in every run: its two
containers name the same tickets, it stays within its bound, no two threads work on one ticket, and
a ticket that has left it does not come back.
-/

namespace Backpressure

namespace Fabric

variable {pq : EntryQueue} {F : Fabric} {d : Disk}

/-- Whether the fabric is shutting down is decided by the first step of its shutdown. -/
theorem shutdownLocked_frame {now : Tick} :
    (F.shutdownLocked now d).2.1.config = F.config ∧
      (F.shutdownLocked now d).2.1.shuttingDown = F.shuttingDown :=
  ⟨books_flushLocked.config, books_flushLocked.shuttingDown⟩

theorem publishLocked_frame {signal : PressureSignal} {now : Tick} {durableIntent cancelFlag : Bool}
    {result : Result PropagationOutcome} {F' : Fabric} {d' : Disk}
    (h : F.publishLocked pq signal now durableIntent cancelFlag d = (result, F', d')) :
    F'.config = F.config ∧ F'.shuttingDown = F.shuttingDown := by
  unfold publishLocked at h
  split at h
  · cases h
    exact ⟨rfl, rfl⟩
  split at h
  case h_2 =>
    cases h
    exact ⟨rfl, rfl⟩
  split at h
  · cases h
    exact ⟨rfl, rfl⟩
  iterate 4
    split at h
    · cases h
      exact ⟨rfl, rfl⟩
  dsimp only at h
  split at h
  · cases h
    exact ⟨rfl, rfl⟩
  split at h
  · cases h
    exact ⟨rfl, rfl⟩
  generalize htransact : transact pq _ _ _ _ _ = after at h
  have hframe : after.2.1.config = F.config ∧ after.2.1.shuttingDown = F.shuttingDown := by
    rw [← htransact]
    exact ⟨books_transact.config, books_transact.shuttingDown⟩
  obtain ⟨ending, F₁, d₁⟩ := after
  cases ending with
  | done outcome =>
    cases h
    exact ⟨books_journalCompactionLocked.config.trans hframe.1,
      books_journalCompactionLocked.shuttingDown.trans hframe.2⟩
  | refused st =>
    cases h
    exact hframe
  | failed outcome =>
    cases h
    exact hframe
  | mismatch =>
    cases h
    exact hframe
  | uncommitted st =>
    cases h
    exact hframe

end Fabric

namespace WorkerPool

variable {σ : Type} {p p' : WorkerPool σ} {i : Nat}

theorem submit_cases (p : WorkerPool σ) (work : σ) :
    (p.submit work).1.ok = false ∧ (p.submit work).2 = p ∨
      (p.submit work).1.ok = true ∧ (p.submit work).2 =
        { p with queue := p.queue ++ [⟨p.submitted, work⟩], submitted := p.submitted + 1 } := by
  unfold submit
  split
  · exact .inl ⟨rfl, rfl⟩
  · split
    · exact .inl ⟨rfl, rfl⟩
    · exact .inr ⟨rfl, rfl⟩

end WorkerPool

/-- The ticket that a call works on. -/
def CallPhase.ticket : CallPhase → Option TicketId
  | .idle => none
  | .admitted _ _ => none
  | .drawing _ _ => none
  | .allocating id _ _ => some id
  | .submitting id _ _ => some id
  | .withdrawing id _ => some id

namespace Host

variable {pq : EntryQueue} {h h' : Host} {i : Nat} {c : Caller} {id : TicketId}

/-- What a step can do. -/
inductive Move (pq : EntryQueue) (h : Host) : Action → Host → Prop
  | stays {a : Action} : Move pq h a h
  | refuses {a : Action} {i : Nat} {c : Caller} (st : Status) : h.callers[i]? = some c →
      c.phase.ticket = none → Move pq h a (h.giveBack i c (.error st))
  | proceeds {a : Action} {i : Nat} {c : Caller} (phase : CallPhase) : h.callers[i]? = some c →
      c.phase.ticket = none → phase.ticket = none →
      Move pq h a (h.setCaller i { c with phase })
  | draws {i : Nat} {c : Caller} (signal : PressureSignal) (now : Tick) :
      h.callers[i]? = some c → c.phase.ticket = none →
      Move pq h (.caller i)
        { h.setCaller i { c with phase := .allocating h.nextTicket signal now } with
          nextTicket := h.nextTicket + 1 }
  | overflows {i : Nat} {c : Caller} {id : TicketId} {signal : PressureSignal} {now : Tick}
      (st : Status) : h.callers[i]? = some c → c.phase = .allocating id signal now →
      Move pq h (.caller i) (h.giveBack i c (.error st))
  | allocates {i : Nat} {c : Caller} {id : TicketId} {signal : PressureSignal} {now : Tick}
      {room : Host} : h.callers[i]? = some c → c.phase = .allocating id signal now →
      h.reclaim = some room →
      Move pq h (.caller i) ((room.allocate id).setCaller i { c with phase := .submitting id signal now })
  | submits {i : Nat} {c : Caller} {id : TicketId} {signal : PressureSignal} {now : Tick} :
      h.callers[i]? = some c → c.phase = .submitting id signal now →
      (h.pool.submit { id, signal, now }).1.ok = true →
      Move pq h (.caller i) ({ h with pool := (h.pool.submit { id, signal, now }).2 }.giveBack i c (.ok id))
  | fails {i : Nat} {c : Caller} {id : TicketId} {signal : PressureSignal} {now : Tick}
      (st : Status) : h.callers[i]? = some c → c.phase = .submitting id signal now →
      Move pq h (.caller i) (h.setCaller i { c with phase := .withdrawing id st })
  | withdraws {i : Nat} {c : Caller} {id : TicketId} {st : Status} :
      h.callers[i]? = some c → c.phase = .withdrawing id st →
      Move pq h (.caller i) ((h.removeTicket id).giveBack i c (.error st))
  | works {i : Nat} {pool : WorkerPool TicketJob} :
      (∀ job, h.pool.workers[i]? = some (.running job) → job.work.phase = .returned) →
      h.pool.work i = some pool → Move pq h (.worker i) { h with pool }
  | marks {i : Nat} {job : Job TicketJob} : h.pool.workers[i]? = some (.running job) →
      job.work.phase = .queued →
      Move pq h (.worker i) ((h.markTicketRunning job.work.id).setPhase i job .marked)
  | loses {i : Nat} {job : Job TicketJob} : h.pool.workers[i]? = some (.running job) →
      job.work.phase = .marked → (h.tickets.lookup job.work.id).bind PublishTicket.cancelFlag = none →
      Move pq h (.worker i) (h.setPhase i job .returned)
  | finds {i : Nat} {job : Job TicketJob} {flag : Nat} :
      h.pool.workers[i]? = some (.running job) → job.work.phase = .marked →
      (h.tickets.lookup job.work.id).bind PublishTicket.cancelFlag = some flag →
      Move pq h (.worker i) (h.setPhase i job (.flagged flag))
  | sees {i : Nat} {job : Job TicketJob} {flag : Nat} :
      h.pool.workers[i]? = some (.running job) → job.work.phase = .flagged flag →
      h.flags[flag]?.getD false = true →
      Move pq h (.worker i) (h.setPhase i job (.completing (.ofFlag flag)))
  | passes {i : Nat} {job : Job TicketJob} {flag : Nat} :
      h.pool.workers[i]? = some (.running job) → job.work.phase = .flagged flag →
      h.flags[flag]?.getD false = false → Move pq h (.worker i) (h.setPhase i job (.publishing flag))
  | publishes {i : Nat} {job : Job TicketJob} {flag : Nat} {result : Result PropagationOutcome}
      {fabric : Fabric} {disk : Disk} : h.pool.workers[i]? = some (.running job) →
      job.work.phase = .publishing flag →
      h.fabric.publishLocked pq job.work.signal job.work.now true (h.flags[flag]?.getD false)
        h.disk = (result, fabric, disk) →
      Move pq h (.worker i) ({ h with fabric, disk }.setPhase i job (.completing (.ofResult flag result)))
  | completes {i : Nat} {job : Job TicketJob} {ticket : PublishTicket} :
      h.pool.workers[i]? = some (.running job) → job.work.phase = .completing ticket →
      Move pq h (.worker i) ((h.completeTicket job.work.id ticket).setPhase i job .returned)
  | cancels {id : TicketId} {ticket : PublishTicket} : h.tickets.lookup id = some ticket →
      Move pq h (.cancel id) { h with
        flags := raise h.flags ticket
        tickets := h.tickets.insert id (ticket.cancelPending "publish cancelled") }
  | releases {id : TicketId} : h.isSettled id = true → Move pq h (.release id) (h.removeTicket id)
  | begins (now : Tick) : h.fabric.shuttingDown = false →
      Move pq h (.shutdown now)
        { h with fabric := { h.fabric with shuttingDown := true }, stop := .cancelling now }
  | cancelsAll (now : Tick) : h.stop = .cancelling now →
      Move pq h .stop { h.cancelTickets with stop := .stopping now }
  | aborts (now : Tick) : h.stop = .stopping now → h.pool.started = true →
      Move pq h .stop { h with pool := h.pool.abort, stop := .joining now }
  | skips (now : Tick) : h.stop = .stopping now → h.pool.started = false →
      Move pq h .stop { h with stop := .flushing now }
  | joins {pool : WorkerPool TicketJob} (now : Tick) : h.stop = .joining now →
      h.pool.join = some pool → Move pq h .stop { h with pool, stop := .flushing now }
  | flushes (now : Tick) : h.stop = .flushing now →
      Move pq h .stop { h with
        fabric := (h.fabric.shutdownLocked now h.disk).2.1
        disk := (h.fabric.shutdownLocked now h.disk).2.2
        stop := .closed }

theorem move_of_advance (hc : h.callers[i]? = some c) (hstep : h.advance i c = some h') :
    Move pq h (.caller i) h' := by
  unfold advance at hstep
  cases hphase : c.phase with
  | idle =>
    rw [hphase] at hstep
    cases hstep
  | admitted signal now =>
    rw [hphase] at hstep
    dsimp only at hstep
    have hticket : c.phase.ticket = none := by
      rw [hphase]
      rfl
    split at hstep
    · cases hstep
      exact .refuses _ hc hticket
    · cases hstep
      exact .proceeds _ hc hticket rfl
  | drawing signal now =>
    rw [hphase] at hstep
    cases hstep
    exact .draws signal now hc (by rw [hphase]; rfl)
  | allocating id signal now =>
    rw [hphase] at hstep
    dsimp only at hstep
    cases hroom : h.reclaim with
    | none =>
      rw [hroom] at hstep
      cases hstep
      exact .overflows _ hc hphase
    | some room =>
      rw [hroom] at hstep
      cases hstep
      exact .allocates hc hphase hroom
  | submitting id signal now =>
    rw [hphase] at hstep
    dsimp only at hstep
    unfold submit at hstep
    cases hstarted : h.pool.started with
    | false =>
      simp only [hstarted, Bool.not_false, if_true, Status.ok_error] at hstep
      cases hstep
      exact .fails _ hc hphase
    | true =>
      simp only [hstarted, Bool.not_true, Bool.false_eq_true, if_false] at hstep
      rcases h.pool.submit_cases { id, signal, now } with ⟨hok, hsame⟩ | ⟨hok, -⟩
      · rw [if_neg (Bool.eq_false_iff.mp hok), hsame] at hstep
        cases hstep
        exact .fails _ hc hphase
      · rw [if_pos hok] at hstep
        cases hstep
        exact .submits hc hphase hok
  | withdrawing id st =>
    rw [hphase] at hstep
    cases hstep
    exact .withdraws hc hphase

theorem move_of_jobStep {job : Job TicketJob} (hi : h.pool.workers[i]? = some (.running job))
    (hstep : h.jobStep pq i job = some h') : Move pq h (.worker i) h' := by
  unfold jobStep at hstep
  cases hphase : job.work.phase with
  | queued =>
    rw [hphase] at hstep
    cases hstep
    exact .marks hi hphase
  | marked =>
    rw [hphase] at hstep
    dsimp only at hstep
    split at hstep
    case h_1 hnone =>
      cases hstep
      exact .loses hi hphase hnone
    case h_2 flag hflag =>
      cases hstep
      exact .finds hi hphase hflag
  | flagged flag =>
    rw [hphase] at hstep
    dsimp only at hstep
    split at hstep
    case isTrue hset =>
      cases hstep
      exact .sees hi hphase hset
    case isFalse hset =>
      cases hstep
      exact .passes hi hphase (by simpa using hset)
  | publishing flag =>
    rw [hphase] at hstep
    cases hstep
    exact .publishes hi hphase rfl
  | completing ticket =>
    rw [hphase] at hstep
    cases hstep
    exact .completes hi hphase
  | returned =>
    rw [hphase] at hstep
    obtain ⟨pool, hpool, rfl⟩ := Option.map_eq_some_iff.mp hstep
    refine .works (fun job' hjob' => ?_) hpool
    rw [hi] at hjob'
    cases hjob'
    exact hphase

theorem move_of_worker (hstep : h.worker pq i = some h') : Move pq h (.worker i) h' := by
  unfold worker at hstep
  split at hstep
  case h_1 job hi => exact move_of_jobStep hi hstep
  case h_2 hi =>
    obtain ⟨pool, hpool, rfl⟩ := Option.map_eq_some_iff.mp hstep
    exact .works (fun job hjob => absurd hjob (hi job)) hpool

theorem move_of_stopStep (hstep : h.stopStep = some h') : Move pq h .stop h' := by
  unfold stopStep at hstep
  cases hstop : h.stop with
  | serving =>
    rw [hstop] at hstep
    cases hstep
  | cancelling now =>
    rw [hstop] at hstep
    cases hstep
    exact .cancelsAll now hstop
  | stopping now =>
    rw [hstop] at hstep
    dsimp only at hstep
    split at hstep
    case isTrue hstarted =>
      cases hstep
      exact .aborts now hstop hstarted
    case isFalse hstarted =>
      cases hstep
      exact .skips now hstop (by simpa using hstarted)
  | joining now =>
    rw [hstop] at hstep
    obtain ⟨pool, hpool, rfl⟩ := Option.map_eq_some_iff.mp hstep
    exact .joins now hstop hpool
  | flushing now =>
    rw [hstop] at hstep
    cases hstep
    exact .flushes now hstop
  | closed =>
    rw [hstop] at hstep
    cases hstep

/-- Every step is one of the moves. -/
theorem move_of_step {a : Action} (hstep : h.step pq a = some h') : Move pq h a h' := by
  cases a with
  | call i signal now =>
    unfold step at hstep
    dsimp only at hstep
    split at hstep
    case h_2 => cases hstep
    case h_1 returned hi =>
      cases hstep
      unfold publishAsync
      split
      · exact .refuses _ hi rfl
      · exact .proceeds _ hi rfl rfl
  | caller i =>
    obtain ⟨c, hc, hadvance⟩ := Option.bind_eq_some_iff.mp hstep
    exact move_of_advance hc hadvance
  | worker i => exact move_of_worker hstep
  | cancel id =>
    cases hstep
    unfold cancel
    split
    · exact .stays
    case h_2 ticket hticket => exact .cancels hticket
  | release id =>
    cases hstep
    unfold releaseTicket
    split
    · exact .stays
    case h_2 ticket hticket =>
      split
      · exact .stays
      case isFalse hsettled => exact .releases (by simpa [isSettled, hticket] using hsettled)
  | shutdown now =>
    cases hstep
    unfold shutdown
    split
    · exact .stays
    case isFalse hopen => exact .begins now (by simpa using hopen)
  | stop => exact move_of_stopStep hstep

end Host

/-! ## Who works on a ticket -/

/-- The ids that the calls of a caller have returned. -/
def Caller.handed (c : Caller) : List TicketId := c.returned.filterMap Except.toOption

/-- The ids of a caller grow, up to the one its call works on. -/
structure Caller.Ordered (next : TicketId) (c : Caller) : Prop where
  sorted : c.handed.Pairwise (· < ·)
  below : ∀ id ∈ c.handed, id < next
  before : ∀ id ∈ c.handed, ∀ id', c.phase.ticket = some id' → id < id'

/-- The ticket that a worker works on. -/
def Worker.ticket : Worker TicketJob → Option TicketId
  | .running job => some job.work.id
  | _ => none

/-- How many jobs of the pool have the ticket. -/
def WorkerPool.holders (p : WorkerPool TicketJob) (id : TicketId) : Nat :=
  p.queue.countP (fun job => job.work.id == id) + p.workers.countP fun w => w.ticket == some id

/-- No ticket comes into the pool, and only a queued job is started. -/
structure WorkerPool.Thins (p p' : WorkerPool TicketJob) : Prop where
  holders : ∀ id, p'.holders id ≤ p.holders id
  queue : ∀ job ∈ p'.queue, job ∈ p.queue
  workers : ∀ (i : Nat) job, p'.workers[i]? = some (.running job) →
    p.workers[i]? = some (.running job) ∨ job ∈ p.queue

namespace Host

/-- How many calls and jobs have the ticket. -/
def holders (h : Host) (id : TicketId) : Nat :=
  h.callers.countP (fun c => c.phase.ticket == some id) + h.pool.holders id

/-- The ticket is there and runs. -/
def Runs (T : AList fun _ : TicketId => PublishTicket) (id : TicketId) : Prop :=
  ∃ ticket, T.lookup id = some ticket ∧ ticket.state = .running

/-- From the moment in which a job finds its ticket to its completion the ticket runs. -/
def Sound (T : AList fun _ : TicketId => PublishTicket) (job : TicketJob) : Prop :=
  match job.phase with
  | .queued => True
  | .marked => job.id ∈ T → Runs T job.id
  | .returned => True
  | _ => Runs T job.id

/-- Neither stops the ticket nor brings it back. -/
def Steady (T T' : AList fun _ : TicketId => PublishTicket) (id : TicketId) : Prop :=
  (Runs T id → Runs T' id) ∧ (id ∈ T' → id ∈ T)

structure Inv (h : Host) : Prop where
  keys : ∀ id, id ∈ h.tickets ↔ id ∈ h.ticketOrder
  nodup : h.ticketOrder.Nodup
  bounded : h.ticketOrder.length ≤ h.fabric.config.maxTickets
  known : ∀ id ∈ h.tickets, id < h.nextTicket
  sole : ∀ id, h.holders id ≤ 1
  drawn : ∀ id, 0 < h.holders id → id < h.nextTicket
  absent : ∀ (i : Nat) c id signal now, h.callers[i]? = some c →
    c.phase = .allocating id signal now → id ∉ h.tickets
  ordered : ∀ c ∈ h.callers, c.Ordered h.nextTicket
  queued : ∀ job ∈ h.pool.queue, job.work.phase = .queued
  jobs : ∀ (i : Nat) job, h.pool.workers[i]? = some (.running job) → Sound h.tickets job.work

/-! ## What the operations of the store keep -/

section Store

variable {T T' : AList fun _ : TicketId => PublishTicket} {job : TicketJob} {id id' : TicketId}
  {ticket ticket' : PublishTicket}

theorem Runs.mem (h : Runs T id) : id ∈ T := by
  obtain ⟨ticket, hticket, -⟩ := h
  exact AList.lookup_isSome.mp (hticket ▸ rfl)

theorem mem_of_lookup (h : T.lookup id = some ticket) : id ∈ T :=
  AList.lookup_isSome.mp (h ▸ rfl)

theorem Sound.steady (h : Sound T job) (hsteady : Steady T T' job.id) : Sound T' job := by
  unfold Sound at h ⊢
  split at h
  · exact True.intro
  · exact fun hmem => hsteady.1 (h (hsteady.2 hmem))
  · exact True.intro
  · exact hsteady.1 h

theorem steady_insert (hne : id ≠ id') : Steady T (T.insert id' ticket) id := by
  constructor
  · rintro ⟨t, ht, hrunning⟩
    exact ⟨t, (AList.lookup_insert_ne hne).trans ht, hrunning⟩
  · intro hmem
    exact ((AList.mem_insert T).mp hmem).resolve_left hne

theorem steady_erase (hne : id ≠ id') : Steady T (T.erase id') id := by
  constructor
  · rintro ⟨t, ht, hrunning⟩
    exact ⟨t, (AList.lookup_erase_ne hne).trans ht, hrunning⟩
  · exact fun hmem => (AList.mem_erase.mp hmem).2

theorem steady_update (h : T.lookup id' = some ticket)
    (hkeeps : ticket.state = .running → ticket'.state = .running) :
    Steady T (T.insert id' ticket') id := by
  by_cases hne : id = id'
  · subst hne
    constructor
    · rintro ⟨t, ht, hrunning⟩
      rw [h] at ht
      cases ht
      exact ⟨ticket', AList.lookup_insert T, hkeeps hrunning⟩
    · exact fun _ => mem_of_lookup h
  · exact steady_insert hne

/-- A settled ticket does not run. -/
theorem steady_release (h : (T.lookup id').any (·.state.isSettled) = true) :
    Steady T (T.erase id') id := by
  by_cases hne : id = id'
  · subst hne
    refine ⟨?_, fun hmem => (AList.mem_erase.mp hmem).2⟩
    rintro ⟨t, ht, hrunning⟩
    rw [ht, Option.any_some, hrunning] at h
    cases h
  · exact steady_erase hne

theorem mem_insert_of_lookup (h : T.lookup id' = some ticket) :
    id ∈ T.insert id' ticket' ↔ id ∈ T := by
  rw [AList.mem_insert]
  constructor
  · rintro (rfl | hmem)
    · exact mem_of_lookup h
    · exact hmem
  · exact .inr

theorem cancelPending_running {context : String} (h : ticket.state = .running) :
    (ticket.cancelPending context).state = .running := by
  unfold PublishTicket.cancelPending
  rw [h]
  exact h

end Store

section CancelTickets

variable {h : Host} {id : TicketId}

theorem lookup_cancelTickets : h.cancelTickets.tickets.lookup id =
    (h.tickets.lookup id).map fun ticket => ticket.cancelPending "fabric shutdown" :=
  List.dlookup_map₂ id

theorem mem_cancelTickets : id ∈ h.cancelTickets.tickets ↔ id ∈ h.tickets := by
  rw [← AList.lookup_isSome, ← AList.lookup_isSome, lookup_cancelTickets, Option.isSome_map]

theorem steady_cancelTickets : Steady h.tickets h.cancelTickets.tickets id := by
  constructor
  · rintro ⟨t, ht, hrunning⟩
    refine ⟨t.cancelPending "fabric shutdown", ?_, cancelPending_running hrunning⟩
    rw [lookup_cancelTickets, ht]
    rfl
  · exact mem_cancelTickets.mp

end CancelTickets

/-! ## One thread a ticket -/

theorem countP_at_most_one {α : Type} {q : α → Bool} {l : List α} {a b d : α} {i j : Nat}
    (hle : l.countP q ≤ 1) (hd : q d = false) (hi : l[i]? = some a) (hj : l[j]? = some b)
    (ha : q a = true) (hb : q b = true) : i = j := by
  by_contra hne
  have hcount := WorkerPool.countP_set_add (q := q) (b := d) hi
  have hj' : (l.set i d)[j]? = some b := by rw [List.getElem?_set_ne hne, hj]
  have hpos : 0 < (l.set i d).countP q := List.countP_pos_iff.mpr ⟨b, List.mem_of_getElem? hj', hb⟩
  rw [ha, hd, Bool.toNat_true, Bool.toNat_false] at hcount
  omega

theorem countP_pos_of_getElem? {α : Type} {q : α → Bool} {l : List α} {a : α} {i : Nat}
    (hi : l[i]? = some a) (ha : q a = true) : 0 < l.countP q :=
  List.countP_pos_iff.mpr ⟨a, List.mem_of_getElem? hi, ha⟩

namespace Inv

variable {h h' : Host} {a : Action} {i j : Nat} {c c' : Caller} {id : TicketId}
  {job job' : Job TicketJob}

theorem same_caller (hinv : h.Inv) (hi : h.callers[i]? = some c) (hj : h.callers[j]? = some c')
    (hc : c.phase.ticket = some id) (hc' : c'.phase.ticket = some id) : i = j := by
  have hsole := hinv.sole id
  unfold holders at hsole
  refine countP_at_most_one (d := {}) (le_trans (Nat.le_add_right _ _) hsole) rfl hi hj ?_ ?_
  · exact beq_iff_eq.mpr hc
  · exact beq_iff_eq.mpr hc'

theorem same_worker (hinv : h.Inv) (hi : h.pool.workers[i]? = some (.running job))
    (hj : h.pool.workers[j]? = some (.running job')) (hid : job'.work.id = job.work.id) : i = j := by
  have hsole := hinv.sole job.work.id
  unfold holders WorkerPool.holders at hsole
  refine countP_at_most_one (q := fun w => w.ticket == some job.work.id) (d := .waiting)
    (le_trans ?_ hsole) rfl hi hj ?_ ?_
  · omega
  · exact beq_self_eq_true _
  · exact beq_iff_eq.mpr (congrArg some hid)

/-- No job works on the ticket of a call. -/
theorem caller_alone (hinv : h.Inv) (hi : h.callers[i]? = some c) (hc : c.phase.ticket = some id)
    (hj : h.pool.workers[j]? = some (.running job)) : job.work.id ≠ id := by
  intro hid
  have hsole := hinv.sole id
  have hcaller := countP_pos_of_getElem? (q := fun c => c.phase.ticket == some id) hi
    (beq_iff_eq.mpr hc)
  have hworker := countP_pos_of_getElem? (q := fun w => w.ticket == some id) hj
    (beq_iff_eq.mpr (congrArg some hid))
  unfold holders WorkerPool.holders at hsole
  omega

theorem caller_drawn (hinv : h.Inv) (hi : h.callers[i]? = some c) (hc : c.phase.ticket = some id) :
    id < h.nextTicket := by
  apply hinv.drawn
  have hcaller := countP_pos_of_getElem? (q := fun c => c.phase.ticket == some id) hi
    (beq_iff_eq.mpr hc)
  unfold holders
  omega

/-! ## The callers -/

theorem holders_setCaller (hi : h.callers[i]? = some c) (c' : Caller) (id : TicketId) :
    (h.setCaller i c').holders id + (c.phase.ticket == some id).toNat =
      h.holders id + (c'.phase.ticket == some id).toNat := by
  have hcount := WorkerPool.countP_set_add (q := fun c => c.phase.ticket == some id) (b := c') hi
  unfold holders
  show (h.callers.set i c').countP _ + h.pool.holders id + _ = _
  omega

/-- The call goes on with its ticket or without one. -/
theorem setCaller (hinv : h.Inv) (hi : h.callers[i]? = some c)
    (hticket : ∀ id, c'.phase.ticket = some id → c.phase.ticket = some id)
    (hordered : c'.Ordered h.nextTicket)
    (habsent : ∀ id signal now, c'.phase = .allocating id signal now → id ∉ h.tickets) :
    (h.setCaller i c').Inv := by
  have hholders : ∀ id, (h.setCaller i c').holders id ≤ h.holders id := fun id => by
    have hcount := holders_setCaller hi c' id
    have hle : (c'.phase.ticket == some id).toNat ≤ (c.phase.ticket == some id).toNat := by
      cases hc' : c'.phase.ticket == some id with
      | false => exact Nat.zero_le _
      | true => rw [beq_iff_eq.mpr (hticket id (beq_iff_eq.mp hc'))]
    omega
  exact { hinv with
    sole := fun id => le_trans (hholders id) (hinv.sole id)
    drawn := fun id hpos => hinv.drawn id (lt_of_lt_of_le hpos (hholders id))
    absent := fun j d id signal now hj hd => by
      by_cases hij : i = j
      · subst hij
        obtain ⟨hlt, -⟩ := List.getElem?_eq_some_iff.mp hi
        rw [show (h.setCaller i c').callers[i]? = some c' from List.getElem?_set_self hlt] at hj
        cases hj
        exact habsent id signal now hd
      · rw [show (h.setCaller i c').callers[j]? = h.callers[j]? from
          List.getElem?_set_ne hij] at hj
        exact hinv.absent j d id signal now hj hd
    ordered := fun d hd => by
      rcases List.mem_or_eq_of_mem_set hd with hd | rfl
      · exact hinv.ordered d hd
      · exact hordered }

theorem handed_error {returned : List (Result TicketId)} {phase : CallPhase} {st : Status} :
    Caller.handed ⟨phase, returned ++ [.error st]⟩ = Caller.handed ⟨phase, returned⟩ := by
  simp [Caller.handed, Except.toOption]

/-- The call returns an error. -/
theorem giveBack (hinv : h.Inv) (hi : h.callers[i]? = some c) (st : Status) :
    (h.giveBack i c (.error st)).Inv := by
  have hordered := hinv.ordered c (List.mem_of_getElem? hi)
  show (h.setCaller i ⟨.idle, c.returned ++ [.error st]⟩).Inv
  have hhanded : Caller.handed ⟨.idle, c.returned ++ [.error st]⟩ = c.handed := handed_error
  apply hinv.setCaller hi
  · intro id hid
    cases hid
  · refine ⟨by rw [hhanded]; exact hordered.sorted, by rw [hhanded]; exact hordered.below, ?_⟩
    intro id hid id' hid'
    cases hid'
  · intro id signal now hphase
    cases hphase

/-- A call without a ticket goes on without one. -/
theorem proceeds (hinv : h.Inv) (hi : h.callers[i]? = some c) {phase : CallPhase}
    (hnext : phase.ticket = none) : (h.setCaller i { c with phase }).Inv := by
  have hold := hinv.ordered c (List.mem_of_getElem? hi)
  apply hinv.setCaller hi
  · intro id hid
    change phase.ticket = some id at hid
    rw [hnext] at hid
    cases hid
  · refine ⟨hold.sorted, hold.below, fun a _ id hid => ?_⟩
    change phase.ticket = some id at hid
    rw [hnext] at hid
    cases hid
  · intro id signal now hphase
    change phase = .allocating id signal now at hphase
    rw [hphase] at hnext
    cases hnext

theorem draws (hinv : h.Inv) (hi : h.callers[i]? = some c) (hphase : c.phase.ticket = none)
    (signal : PressureSignal) (now : Tick) :
    Inv { h.setCaller i { c with phase := .allocating h.nextTicket signal now } with
      nextTicket := h.nextTicket + 1 } := by
  have hold := hinv.ordered c (List.mem_of_getElem? hi)
  have hfresh : h.nextTicket ∉ h.tickets := fun hmem => Nat.lt_irrefl _ (hinv.known _ hmem)
  have hnone : h.holders h.nextTicket = 0 := by
    by_contra hpos
    exact Nat.lt_irrefl _ (hinv.drawn _ (Nat.pos_of_ne_zero hpos))
  have hself : (h.setCaller i { c with phase := .allocating h.nextTicket signal now }).holders
      h.nextTicket = 1 := by
    have hcount := holders_setCaller hi { c with phase := .allocating h.nextTicket signal now }
      h.nextTicket
    rw [hphase, hnone] at hcount
    simpa [CallPhase.ticket] using hcount
  have hother : ∀ id, h.nextTicket ≠ id →
      (h.setCaller i { c with phase := .allocating h.nextTicket signal now }).holders id =
        h.holders id := fun id hne => by
    have hcount := holders_setCaller hi { c with phase := .allocating h.nextTicket signal now } id
    have hticket : (some h.nextTicket == some id) = false :=
      beq_eq_false_iff_ne.mpr fun heq => hne (Option.some.inj heq)
    rw [hphase] at hcount
    simpa [CallPhase.ticket, hticket, hne] using hcount
  exact { hinv with
    known := fun id hid => Nat.lt_succ_of_lt (hinv.known id hid)
    sole := fun id => by
      show (h.setCaller i _).holders id ≤ 1
      by_cases hid : h.nextTicket = id
      · subst hid
        exact Nat.le_of_eq hself
      · rw [hother id hid]
        exact hinv.sole id
    drawn := fun id hpos => by
      show id < h.nextTicket + 1
      change 0 < (h.setCaller i _).holders id at hpos
      by_cases hid : h.nextTicket = id
      · rw [← hid]
        exact Nat.lt_succ_self _
      · rw [hother id hid] at hpos
        exact Nat.lt_succ_of_lt (hinv.drawn id hpos)
    absent := fun j d id s n hj hd => by
      by_cases hij : i = j
      · subst hij
        obtain ⟨hlt, -⟩ := List.getElem?_eq_some_iff.mp hi
        replace hj : (h.callers.set i _)[i]? = some d := hj
        rw [List.getElem?_set_self hlt] at hj
        cases hj
        cases hd
        exact hfresh
      · replace hj : (h.callers.set i _)[j]? = some d := hj
        rw [List.getElem?_set_ne hij] at hj
        exact hinv.absent j d id s n hj hd
    ordered := fun d hd => by
      rcases List.mem_or_eq_of_mem_set hd with hd | rfl
      · have hd := hinv.ordered d hd
        exact ⟨hd.sorted, fun id hid => Nat.lt_succ_of_lt (hd.below id hid), hd.before⟩
      · refine ⟨hold.sorted, fun id hid => Nat.lt_succ_of_lt (hold.below id hid), ?_⟩
        intro id hid id' hid'
        cases hid'
        exact hold.below id hid }

/-! ## The pool -/

theorem thin (hinv : h.Inv) {pool : WorkerPool TicketJob} (hthin : h.pool.Thins pool) :
    Inv { h with pool } :=
  have hholders : ∀ id, Host.holders { h with pool } id ≤ h.holders id := fun id =>
    Nat.add_le_add_left (hthin.holders id) _
  { hinv with
    sole := fun id => le_trans (hholders id) (hinv.sole id)
    drawn := fun id hpos => hinv.drawn id (lt_of_lt_of_le hpos (hholders id))
    queued := fun job hjob => hinv.queued job (hthin.queue job hjob)
    jobs := fun i job hi => by
      rcases hthin.workers i job hi with hi | hqueue
      · exact hinv.jobs i job hi
      · have hphase := hinv.queued job hqueue
        unfold Sound
        rw [hphase]
        exact True.intro }

theorem holders_enqueue {n : Nat} :
    Host.holders { h with pool := { h.pool with
      queue := h.pool.queue ++ [job], submitted := n } } id =
        h.holders id + (job.work.id == id).toNat := by
  simp only [Host.holders, WorkerPool.holders, List.countP_append, List.countP_singleton]
  cases job.work.id == id with
  | false => simp
  | true =>
    simp only [if_true, Bool.toNat_true]
    omega

/-- A job whose ticket nobody has comes into the queue. -/
theorem enqueue (hinv : h.Inv) {n : Nat} (hphase : job.work.phase = .queued)
    (hnone : h.holders job.work.id = 0) (hlt : job.work.id < h.nextTicket) :
    Inv { h with pool := { h.pool with queue := h.pool.queue ++ [job], submitted := n } } :=
  { hinv with
    sole := fun id => by
      rw [holders_enqueue]
      cases hid : job.work.id == id with
      | false => exact hinv.sole id
      | true =>
        rw [← beq_iff_eq.mp hid, hnone]
        exact Nat.le_refl _
    drawn := fun id hpos => by
      rw [holders_enqueue] at hpos
      cases hid : job.work.id == id with
      | false =>
        rw [hid] at hpos
        exact hinv.drawn id hpos
      | true =>
        rw [← beq_iff_eq.mp hid]
        exact hlt
    queued := fun job' hjob' => by
      rcases List.mem_append.mp hjob' with hjob' | hjob'
      · exact hinv.queued job' hjob'
      · rw [List.mem_singleton.mp hjob']
        exact hphase }

theorem handed_ok {returned : List (Result TicketId)} {phase : CallPhase} :
    Caller.handed ⟨phase, returned ++ [.ok id]⟩ = Caller.handed ⟨phase, returned⟩ ++ [id] := by
  simp [Caller.handed, Except.toOption]

/-- The call returns the id of its ticket. -/
theorem hands (hinv : h.Inv) (hi : h.callers[i]? = some c) (hticket : c.phase.ticket = some id) :
    (h.giveBack i c (.ok id)).Inv := by
  have hold := hinv.ordered c (List.mem_of_getElem? hi)
  have hlt := hinv.caller_drawn hi hticket
  have hhanded : Caller.handed ⟨.idle, c.returned ++ [.ok id]⟩ = c.handed ++ [id] := handed_ok
  show (h.setCaller i ⟨.idle, c.returned ++ [.ok id]⟩).Inv
  apply hinv.setCaller hi
  · intro id' hid'
    cases hid'
  · refine ⟨?_, ?_, ?_⟩
    · rw [hhanded]
      refine List.pairwise_append.mpr ⟨hold.sorted, List.pairwise_singleton _ _, ?_⟩
      intro a ha b hb
      rw [List.mem_singleton.mp hb]
      exact hold.before a ha id hticket
    · intro a ha
      rw [hhanded] at ha
      rcases List.mem_append.mp ha with ha | ha
      · exact hold.below a ha
      · rw [List.mem_singleton.mp ha]
        exact hlt
    · intro a _ id' hid'
      cases hid'
  · intro id' signal now hphase
    cases hphase

/-- The job takes over the ticket that the call gives up. -/
theorem submits (hinv : h.Inv) {signal : PressureSignal} {now : Tick}
    (hi : h.callers[i]? = some c) (hphase : c.phase = .submitting id signal now)
    (hok : (h.pool.submit { id, signal, now }).1.ok = true) :
    Inv ({ h with pool := (h.pool.submit { id, signal, now }).2 }.giveBack i c (.ok id)) := by
  have hticket : c.phase.ticket = some id := by
    rw [hphase]
    rfl
  have hnone : (h.giveBack i c (.ok id)).holders id = 0 := by
    have hcount := holders_setCaller hi ⟨.idle, c.returned ++ [.ok id]⟩ id
    have hsole := hinv.sole id
    have hidle : (CallPhase.ticket .idle == some id).toNat = 0 := rfl
    change (h.setCaller i ⟨.idle, c.returned ++ [.ok id]⟩).holders id = 0
    rw [hticket, beq_self_eq_true, Bool.toNat_true, hidle] at hcount
    omega
  rcases h.pool.submit_cases { id, signal, now } with ⟨hno, -⟩ | ⟨-, hpool⟩
  · rw [hok] at hno
    cases hno
  · rw [hpool]
    exact (hinv.hands hi hticket).enqueue rfl hnone (hinv.caller_drawn hi hticket)

theorem setPhase (hinv : h.Inv) (hi : h.pool.workers[i]? = some (.running job)) {phase : JobPhase}
    (hsound : Sound h.tickets { job.work with phase }) : (h.setPhase i job phase).Inv := by
  have hholders : ∀ id, (h.setPhase i job phase).holders id = h.holders id := fun id => by
    have hcount := WorkerPool.countP_set_add (q := fun w => w.ticket == some id)
      (b := .running { job with work := { job.work with phase } }) hi
    unfold Host.holders WorkerPool.holders
    show h.callers.countP _ + (h.pool.queue.countP _ + (h.pool.workers.set i _).countP _) = _
    have hsame : (Worker.ticket (.running { job with work := { job.work with phase } }) == some id) =
      (Worker.ticket (.running job) == some id) := rfl
    rw [hsame] at hcount
    omega
  exact { hinv with
    sole := fun id => (hholders id).trans_le (hinv.sole id)
    drawn := fun id hpos => hinv.drawn id (hpos.trans_eq (hholders id))
    jobs := fun j job' hj => by
      by_cases hij : i = j
      · subst hij
        obtain ⟨hlt, -⟩ := List.getElem?_eq_some_iff.mp hi
        replace hj : (h.pool.workers.set i _)[i]? = some (.running job') := hj
        rw [List.getElem?_set_self hlt] at hj
        cases hj
        exact hsound
      · replace hj : (h.pool.workers.set i _)[j]? = some (.running job') := hj
        rw [List.getElem?_set_ne hij] at hj
        exact hinv.jobs j job' hj }

theorem thins_set {p p' : WorkerPool TicketJob} {w w' : Worker TicketJob}
    (hi : p.workers[i]? = some w) (hw' : w'.ticket = none) (hqueue : p'.queue.Sublist p.queue)
    (hworkers : p'.workers = p.workers.set i w') : p.Thins p' where
  holders id := by
    have hcount := WorkerPool.countP_set_add (q := fun w => w.ticket == some id) (b := w') hi
    have hnone : (w'.ticket == some id).toNat = 0 := by
      rw [hw']
      rfl
    have hle := hqueue.countP_le (p := fun job => job.work.id == id)
    unfold WorkerPool.holders
    rw [hworkers]
    omega
  queue _ hjob := hqueue.subset hjob
  workers j job hj := by
    rw [hworkers] at hj
    by_cases hij : i = j
    · subst hij
      obtain ⟨hlt, -⟩ := List.getElem?_eq_some_iff.mp hi
      rw [List.getElem?_set_self hlt] at hj
      cases hj
      cases hw'
    · rw [List.getElem?_set_ne hij] at hj
      exact .inl hj

/-- A worker takes the first job of the queue. -/
theorem thins_start {p p' : WorkerPool TicketJob} {w : Worker TicketJob}
    (hi : p.workers[i]? = some w) (hqueue : p.queue = job :: p'.queue)
    (hworkers : p'.workers = p.workers.set i (.running job)) : p.Thins p' where
  holders id := by
    have hcount := WorkerPool.countP_set_add (q := fun w => w.ticket == some id)
      (b := .running job) hi
    have hticket : (Worker.ticket (.running job) == some id).toNat =
        if job.work.id == id then 1 else 0 := by
      show (some job.work.id == some id).toNat = _
      cases hid : job.work.id == id with
      | false =>
        have hne : job.work.id ≠ id := beq_eq_false_iff_ne.mp hid
        simp [hne]
      | true => simp [beq_iff_eq.mp hid]
    unfold WorkerPool.holders
    rw [hworkers, hqueue, List.countP_cons]
    omega
  queue _ hjob := hqueue ▸ List.mem_cons_of_mem _ hjob
  workers j job' hj := by
    rw [hworkers] at hj
    by_cases hij : i = j
    · subst hij
      obtain ⟨hlt, -⟩ := List.getElem?_eq_some_iff.mp hi
      rw [List.getElem?_set_self hlt] at hj
      cases hj
      exact .inr (hqueue ▸ List.mem_cons_self)
    · rw [List.getElem?_set_ne hij] at hj
      exact .inl hj

theorem thins_work {p p' : WorkerPool TicketJob} (hwork : p.work i = some p') : p.Thins p' := by
  unfold WorkerPool.work at hwork
  split at hwork
  case h_1 hi =>
    unfold WorkerPool.take at hwork
    split at hwork
    case h_1 hqueue =>
      split at hwork
      · cases hwork
        exact thins_set hi rfl (List.Sublist.refl _) rfl
      · cases hwork
    case h_2 job rest hqueue =>
      split at hwork
      · cases hwork
        refine thins_set hi ?_ (List.nil_sublist _) rfl
        split <;> rfl
      · cases hwork
        exact thins_start hi hqueue rfl
  case h_2 job hi =>
    cases hwork
    exact thins_set hi rfl (List.Sublist.refl _) rfl
  case h_3 hi =>
    cases hwork
    exact thins_set hi rfl (List.Sublist.refl _) rfl
  case h_4 => cases hwork

theorem thins_abort (p : WorkerPool TicketJob) : p.Thins p.abort where
  holders id := by
    show 0 + _ ≤ _
    rw [Nat.zero_add]
    exact Nat.le_add_left _ _
  queue _ hjob := by cases hjob
  workers _ _ hi := .inl hi

theorem thins_join {p p' : WorkerPool TicketJob} (hjoin : p.join = some p') : p.Thins p' := by
  obtain ⟨-, rfl⟩ := WorkerPool.join_cases hjoin
  exact {
    holders := fun id => Nat.le_add_right _ _
    queue := fun _ hjob => hjob
    workers := fun _ _ hi => by cases hi }

/-! ## The store -/

/-- Tickets change, and none comes or goes. -/
theorem update (hinv : h.Inv) {T : AList fun _ : TicketId => PublishTicket} {flags : List Bool}
    (hmem : ∀ id, id ∈ T ↔ id ∈ h.tickets)
    (hsteady : ∀ (j : Nat) job', h.pool.workers[j]? = some (.running job') →
      job'.work.phase ≠ .returned → Steady h.tickets T job'.work.id) :
    Inv { h with tickets := T, flags } :=
  { hinv with
    keys := fun id => (hmem id).trans (hinv.keys id)
    known := fun id hid => hinv.known id ((hmem id).mp hid)
    absent := fun j d id signal now hj hd hid =>
      hinv.absent j d id signal now hj hd ((hmem id).mp hid)
    jobs := fun j job' hj => by
      by_cases hphase : job'.work.phase = .returned
      · unfold Sound
        rw [hphase]
        exact True.intro
      · exact (hinv.jobs j job' hj).steady (hsteady j job' hj hphase) }

/-- A ticket that no job has found goes. -/
theorem remove (hinv : h.Inv)
    (hsteady : ∀ (j : Nat) job', h.pool.workers[j]? = some (.running job') →
      Steady h.tickets (h.tickets.erase id) job'.work.id) : (h.removeTicket id).Inv :=
  { hinv with
    keys := fun id' => by
      show id' ∈ h.tickets.erase id ↔ id' ∈ h.ticketOrder.erase id
      rw [AList.mem_erase, hinv.nodup.mem_erase_iff, hinv.keys id']
    nodup := hinv.nodup.erase id
    bounded := le_trans List.length_erase_le hinv.bounded
    known := fun id' hid' => hinv.known id' (AList.mem_erase.mp hid').2
    absent := fun j d id' signal now hj hd hid' =>
      hinv.absent j d id' signal now hj hd (AList.mem_erase.mp hid').2
    jobs := fun j job' hj => (hinv.jobs j job' hj).steady (hsteady j job' hj) }

/-- The two containers are of one size. -/
theorem count (hinv : h.Inv) : h.tickets.entries.length = h.ticketOrder.length := by
  have hperm : h.tickets.keys.Perm h.ticketOrder :=
    (List.perm_ext_iff_of_nodup h.tickets.keys_nodup hinv.nodup).mpr fun id =>
      AList.mem_keys.symm.trans (hinv.keys id)
  rw [← hperm.length_eq]
  exact (List.length_map _).symm

theorem allocate (hinv : h.Inv) (hroom : h.ticketOrder.length < h.fabric.config.maxTickets)
    (hlt : id < h.nextTicket) (hnew : id ∉ h.tickets)
    (hjobs : ∀ (j : Nat) job', h.pool.workers[j]? = some (.running job') → job'.work.id ≠ id)
    (hcallers : ∀ (j : Nat) d id' signal now, h.callers[j]? = some d →
      d.phase = .allocating id' signal now → id' ≠ id) : (h.allocate id).Inv :=
  { hinv with
    keys := fun id' => by
      show id' ∈ h.tickets.insert id _ ↔ id' ∈ h.ticketOrder ++ [id]
      rw [AList.mem_insert, List.mem_append, List.mem_singleton, hinv.keys id', or_comm]
    nodup := by
      refine List.nodup_append.mpr ⟨hinv.nodup, List.nodup_singleton _, fun a ha b hb => ?_⟩
      rw [List.mem_singleton.mp hb]
      rintro rfl
      exact hnew ((hinv.keys a).mpr ha)
    bounded := by
      show (h.ticketOrder ++ [id]).length ≤ h.fabric.config.maxTickets
      rw [List.length_append, List.length_singleton]
      exact hroom
    known := fun id' hid' => by
      rcases (AList.mem_insert _).mp hid' with rfl | hold
      · exact hlt
      · exact hinv.known id' hold
    absent := fun j d id' signal now hj hd hid' => by
      rcases (AList.mem_insert _).mp hid' with rfl | hold
      · exact hcallers j d id' signal now hj hd rfl
      · exact hinv.absent j d id' signal now hj hd hold
    jobs := fun j job' hj => (hinv.jobs j job' hj).steady (steady_insert (hjobs j job' hj)) }

/-- Room is there, or it is made by a settled ticket. -/
theorem reclaim_cases {room : Host} (hinv : h.Inv) (hreclaim : h.reclaim = some room) :
    (h.ticketOrder.length < h.fabric.config.maxTickets ∧ room = h) ∨
      ∃ id, h.isSettled id = true ∧ id ∈ h.ticketOrder ∧ room = h.removeTicket id := by
  unfold Host.reclaim at hreclaim
  split at hreclaim
  case isFalse hroom =>
    rw [hinv.count] at hroom
    exact .inl ⟨Nat.lt_of_not_le hroom, (Option.some.inj hreclaim).symm⟩
  case isTrue =>
    obtain ⟨id, hfind, rfl⟩ := Option.map_eq_some_iff.mp hreclaim
    exact .inr ⟨id, List.find?_some hfind, List.mem_of_find?_eq_some hfind, rfl⟩

theorem release (hinv : h.Inv) (hsettled : h.isSettled id = true) : (h.removeTicket id).Inv :=
  hinv.remove fun _ _ _ => steady_release hsettled

theorem reclaim {room : Host} (hinv : h.Inv) (hreclaim : h.reclaim = some room) :
    room.Inv ∧ room.ticketOrder.length < room.fabric.config.maxTickets := by
  rcases hinv.reclaim_cases hreclaim with ⟨hroom, rfl⟩ | ⟨id, hsettled, hmem, rfl⟩
  · exact ⟨hinv, hroom⟩
  · refine ⟨hinv.release hsettled, ?_⟩
    have hpos := List.length_pos_of_mem hmem
    have hbounded := hinv.bounded
    show (h.ticketOrder.erase id).length < h.fabric.config.maxTickets
    rw [List.length_erase_of_mem hmem]
    omega

/-- Reclaiming touches the store only. -/
theorem reclaim_frame {room : Host} (hinv : h.Inv) (hreclaim : h.reclaim = some room) :
    room.callers = h.callers ∧ room.pool = h.pool ∧ room.nextTicket = h.nextTicket ∧
      room.fabric = h.fabric ∧ ∀ id ∈ room.tickets, id ∈ h.tickets := by
  rcases hinv.reclaim_cases hreclaim with ⟨-, rfl⟩ | ⟨id, -, -, rfl⟩
  · exact ⟨rfl, rfl, rfl, rfl, fun _ hid => hid⟩
  · exact ⟨rfl, rfl, rfl, rfl, fun _ hid => (AList.mem_erase.mp hid).2⟩

theorem allocates {room : Host} {signal : PressureSignal} {now : Tick} (hinv : h.Inv)
    (hi : h.callers[i]? = some c) (hphase : c.phase = .allocating id signal now)
    (hreclaim : h.reclaim = some room) :
    ((room.allocate id).setCaller i { c with phase := .submitting id signal now }).Inv := by
  obtain ⟨hroom, hlt⟩ := hinv.reclaim hreclaim
  obtain ⟨hcallers, hpool, hnext, -, hmem⟩ := hinv.reclaim_frame hreclaim
  have hticket : c.phase.ticket = some id := by
    rw [hphase]
    rfl
  have hset : (room.setCaller i { c with phase := .submitting id signal now }).Inv := by
    apply hroom.setCaller (hcallers ▸ hi)
    · intro id' hid'
      exact hticket.trans hid'
    · have hold := hnext ▸ hinv.ordered c (List.mem_of_getElem? hi)
      exact ⟨hold.sorted, hold.below, fun a ha id' hid' => hold.before a ha id' (hticket.trans hid')⟩
    · intro id' signal' now' hphase'
      cases hphase'
  show ((room.setCaller i { c with phase := .submitting id signal now }).allocate id).Inv
  apply hset.allocate hlt
  · show id < room.nextTicket
    rw [hnext]
    exact hinv.caller_drawn hi hticket
  · exact fun hid => hinv.absent i c id signal now hi hphase (hmem id hid)
  · intro j job' hj
    replace hj : room.pool.workers[j]? = some (.running job') := hj
    rw [hpool] at hj
    exact hinv.caller_alone hi hticket hj
  · rintro j d id' signal' now' hj hd rfl
    replace hj : (room.callers.set i _)[j]? = some d := hj
    rw [hcallers] at hj
    obtain ⟨hlen, -⟩ := List.getElem?_eq_some_iff.mp hi
    by_cases hij : i = j
    · subst hij
      rw [List.getElem?_set_self hlen] at hj
      cases hj
      cases hd
    · rw [List.getElem?_set_ne hij] at hj
      exact hij (hinv.same_caller hi hj hticket (by rw [hd]; rfl))

theorem markTicketRunning (hinv : h.Inv) : (h.markTicketRunning id).Inv := by
  unfold Host.markTicketRunning
  split
  · exact hinv
  case h_2 ticket hticket =>
    exact hinv.update (fun _ => mem_insert_of_lookup hticket) fun _ _ _ _ =>
      steady_update hticket fun _ => rfl

/-- A ticket that is marked and still there runs. -/
theorem runs_markTicketRunning (hid : id ∈ (h.markTicketRunning id).tickets) :
    Runs (h.markTicketRunning id).tickets id := by
  unfold Host.markTicketRunning at hid ⊢
  split at hid
  case h_1 hnone => exact absurd hid (AList.lookup_eq_none.mp hnone)
  case h_2 ticket hticket =>
    exact ⟨_, AList.lookup_insert _, rfl⟩

/-- The workers do not depend on the mark. -/
theorem markTicketRunning_pool : (h.markTicketRunning id).pool = h.pool := by
  unfold Host.markTicketRunning
  split <;> rfl

/-- A job completes its own ticket, which has been there all the time. -/
theorem completes (hinv : h.Inv) {ticket : PublishTicket}
    (hi : h.pool.workers[i]? = some (.running job)) (hphase : job.work.phase = .completing ticket) :
    job.work.id ∈ h.tickets ∧
      ((h.completeTicket job.work.id ticket).setPhase i job .returned).Inv := by
  have hruns : Runs h.tickets job.work.id := by
    have hsound := hinv.jobs i job hi
    unfold Sound at hsound
    rw [hphase] at hsound
    exact hsound
  obtain ⟨old, hold, -⟩ := hruns
  refine ⟨mem_of_lookup hold, ?_⟩
  have hset : (h.setPhase i job .returned).Inv := hinv.setPhase hi True.intro
  show ((h.setPhase i job .returned).completeTicket job.work.id ticket).Inv
  refine hset.update (fun _ => mem_insert_of_lookup hold) fun j job' hj hphase' => ?_
  replace hj : (h.pool.workers.set i _)[j]? = some (.running job') := hj
  obtain ⟨hlen, -⟩ := List.getElem?_eq_some_iff.mp hi
  by_cases hij : i = j
  · subst hij
    rw [List.getElem?_set_self hlen] at hj
    cases hj
    exact absurd rfl hphase'
  · rw [List.getElem?_set_ne hij] at hj
    exact steady_insert fun hid => hij (hinv.same_worker hi hj hid)

theorem configure (hinv : h.Inv) {fabric : Fabric} {disk : Disk}
    (hconfig : fabric.config = h.fabric.config) : Inv { h with fabric, disk } :=
  { hinv with
    bounded := by
      show _ ≤ fabric.config.maxTickets
      rw [hconfig]
      exact hinv.bounded }

theorem stopped (hinv : h.Inv) (stop : Stop) : Inv { h with stop } :=
  { hinv with bounded := hinv.bounded }

/-- Every move keeps what holds. -/
theorem move (hinv : h.Inv) (hmove : Move pq h a h') : h'.Inv := by
  cases hmove with
  | stays => exact hinv
  | refuses st hi hphase => exact hinv.giveBack hi st
  | proceeds phase hi hphase hnext => exact hinv.proceeds hi hnext
  | draws signal now hi hphase => exact hinv.draws hi hphase signal now
  | overflows st hi hphase => exact hinv.giveBack hi st
  | allocates hi hphase hroom => exact hinv.allocates hi hphase hroom
  | submits hi hphase hok => exact hinv.submits hi hphase hok
  | @fails i c id signal now st hi hphase =>
    have hticket : c.phase.ticket = some id := by
      rw [hphase]
      rfl
    have hold := hinv.ordered c (List.mem_of_getElem? hi)
    apply hinv.setCaller hi
    · exact fun id' hid' => hticket.trans hid'
    · exact ⟨hold.sorted, hold.below, fun a ha id' hid' => hold.before a ha id' (hticket.trans hid')⟩
    · intro id' signal' now' hphase'
      cases hphase'
  | @withdraws i c id st hi hphase =>
    have hticket : c.phase.ticket = some id := by
      rw [hphase]
      rfl
    have hremoved : (h.removeTicket id).Inv :=
      hinv.remove fun j job' hj => steady_erase (hinv.caller_alone hi hticket hj)
    exact hremoved.giveBack hi st
  | works _ hwork => exact hinv.thin (thins_work hwork)
  | marks hi hphase =>
    apply hinv.markTicketRunning.setPhase
    · rw [markTicketRunning_pool]
      exact hi
    · exact runs_markTicketRunning
  | loses hi hphase hnone => exact hinv.setPhase hi True.intro
  | @finds i job flag hi hphase hflag =>
    apply hinv.setPhase hi
    have hsound := hinv.jobs i job hi
    obtain ⟨ticket, hticket, -⟩ := Option.bind_eq_some_iff.mp hflag
    unfold Sound at hsound
    rw [hphase] at hsound
    exact hsound (mem_of_lookup hticket)
  | @sees i job flag hi hphase hset =>
    apply hinv.setPhase hi
    have hsound := hinv.jobs i job hi
    unfold Sound at hsound
    rw [hphase] at hsound
    exact hsound
  | @passes i job flag hi hphase hset =>
    apply hinv.setPhase hi
    have hsound := hinv.jobs i job hi
    unfold Sound at hsound
    rw [hphase] at hsound
    exact hsound
  | @publishes i job flag result fabric disk hi hphase hpublish =>
    apply (hinv.configure (Fabric.publishLocked_frame hpublish).1).setPhase hi
    have hsound := hinv.jobs i job hi
    unfold Sound at hsound
    rw [hphase] at hsound
    exact hsound
  | completes hi hphase => exact (hinv.completes hi hphase).2
  | cancels hticket =>
    exact hinv.update (fun _ => mem_insert_of_lookup hticket) fun _ _ _ _ =>
      steady_update hticket cancelPending_running
  | releases hsettled => exact hinv.release hsettled
  | begins now hopen =>
    have hbegun : Inv { h with fabric := { h.fabric with shuttingDown := true }, disk := h.disk } :=
      hinv.configure rfl
    exact hbegun.stopped _
  | cancelsAll now hstop =>
    exact (hinv.update (fun _ => mem_cancelTickets) fun _ _ _ _ => steady_cancelTickets).stopped _
  | aborts now hstop hstarted => exact (hinv.thin (thins_abort h.pool)).stopped _
  | skips now hstop hstarted => exact hinv.stopped _
  | joins now hstop hjoin => exact (hinv.thin (thins_join hjoin)).stopped _
  | flushes now hstop => exact (hinv.configure Fabric.shutdownLocked_frame.1).stopped _

theorem run (hinv : h.Inv) {acts : List Action} (hrun : h.run pq acts = some h') : h'.Inv :=
  Lib.Runs.run_invariant (fun _ _ _ _ hinv hstep => hinv.move (move_of_step hstep)) hinv hrun

end Inv

theorem holders_openAt {F : Fabric} {d : Disk} {callers : Nat} {id : TicketId} :
    (openAt F d callers).holders id = 0 := by
  have hcallers : (List.replicate callers ({} : Caller)).countP (fun c => c.phase.ticket == some id) =
      0 := by
    rw [List.countP_replicate]
    rfl
  have hpool : (openAt F d callers).pool.holders id = 0 := by
    unfold openAt
    dsimp only
    split
    · unfold WorkerPool.start
      repeat' split
      · rfl
      · rfl
      · rfl
      · show 0 + (List.replicate _ _).countP _ = 0
        rw [List.countP_replicate]
        rfl
    · rfl
  unfold holders
  rw [hpool]
  exact hcallers

theorem workers_openAt {F : Fabric} {d : Disk} {callers i : Nat} {w : Worker TicketJob}
    (hi : (openAt F d callers).pool.workers[i]? = some w) : w = .waiting := by
  unfold openAt at hi
  dsimp only at hi
  split at hi
  · unfold WorkerPool.start at hi
    repeat' split at hi
    · cases hi
    · cases hi
    · cases hi
    · exact List.eq_of_mem_replicate (List.mem_of_getElem? hi)
  · cases hi

theorem inv_openAt (F : Fabric) (d : Disk) (callers : Nat) : (openAt F d callers).Inv where
  keys _ := by simp [openAt]
  nodup := List.nodup_nil
  bounded := Nat.zero_le _
  known id hid := absurd hid (AList.notMem_empty id)
  sole id := by
    rw [holders_openAt]
    exact Nat.zero_le _
  drawn id hpos := by
    rw [holders_openAt] at hpos
    exact absurd hpos (Nat.lt_irrefl _)
  absent _ _ id _ _ _ _ := AList.notMem_empty id
  ordered c hc := by
    rw [List.eq_of_mem_replicate hc]
    exact ⟨.nil, nofun, nofun⟩
  queued job hjob := by
    have hqueue : (openAt F d callers).pool.queue = [] := by
      unfold openAt
      dsimp only
      split
      · unfold WorkerPool.start
        repeat' split
        all_goals rfl
      · rfl
    rw [hqueue] at hjob
    cases hjob
  jobs i job hi := by cases workers_openAt hi

/-! ## What has left stays away -/

/-- The id was drawn, and no call is about to allocate its ticket. -/
structure Past (h : Host) (id : TicketId) : Prop where
  drawn : id < h.nextTicket
  settled : ∀ (i : Nat) c signal now, h.callers[i]? = some c → c.phase ≠ .allocating id signal now

variable {pq : EntryQueue} {h h' : Host} {a : Action} {i : Nat} {c c' : Caller} {id : TicketId}

theorem Inv.past (hinv : h.Inv) (hid : id ∈ h.tickets) : h.Past id where
  drawn := hinv.known id hid
  settled i c signal now hi hphase := hinv.absent i c id signal now hi hphase hid

namespace Past

theorem setCaller (hpast : h.Past id) (hi : h.callers[i]? = some c)
    (hphase : ∀ signal now, c'.phase ≠ .allocating id signal now) : (h.setCaller i c').Past id where
  drawn := hpast.drawn
  settled j d signal now hj := by
    replace hj : (h.callers.set i c')[j]? = some d := hj
    by_cases hij : i = j
    · subst hij
      obtain ⟨hlt, -⟩ := List.getElem?_eq_some_iff.mp hi
      rw [List.getElem?_set_self hlt] at hj
      cases hj
      exact hphase signal now
    · rw [List.getElem?_set_ne hij] at hj
      exact hpast.settled j d signal now hj

theorem giveBack (hpast : h.Past id) (hi : h.callers[i]? = some c) (result : Result TicketId) :
    (h.giveBack i c result).Past id := by
  apply hpast.setCaller hi
  intro signal now hphase
  cases hphase

/-- Only the callers and the counter matter. -/
theorem of_same (hpast : h.Past id) (hcallers : h'.callers = h.callers)
    (hnext : h'.nextTicket = h.nextTicket) : h'.Past id where
  drawn := by
    rw [hnext]
    exact hpast.drawn
  settled := by
    rw [hcallers]
    exact hpast.settled

theorem move (hpast : h.Past id) (hinv : h.Inv) (hmove : Move pq h a h') : h'.Past id := by
  cases hmove with
  | stays => exact hpast
  | refuses st hi hphase => exact hpast.giveBack hi _
  | proceeds phase hi hphase hnext =>
    refine hpast.setCaller hi fun s n hphase' => ?_
    replace hphase' : phase = .allocating id s n := hphase'
    rw [hphase'] at hnext
    cases hnext
  | @draws i c signal now hi hphase =>
    have hset : (h.setCaller i { c with phase := .allocating h.nextTicket signal now }).Past id := by
      refine hpast.setCaller hi fun s n hphase' => ?_
      cases hphase'
      exact Nat.lt_irrefl _ hpast.drawn
    exact ⟨Nat.lt_succ_of_lt hpast.drawn, hset.settled⟩
  | overflows st hi hphase => exact hpast.giveBack hi _
  | @allocates i c id' signal now room hi hphase hroom =>
    obtain ⟨hcallers, -, hnext, -, -⟩ := hinv.reclaim_frame hroom
    have hallocated : (room.allocate id').Past id := hpast.of_same hcallers hnext
    refine hallocated.setCaller (hcallers ▸ hi) fun s n hphase' => ?_
    cases hphase'
  | submits hi hphase hok => exact (hpast.giveBack hi _).of_same rfl rfl
  | fails st hi hphase =>
    refine hpast.setCaller hi fun s n hphase' => ?_
    cases hphase'
  | withdraws hi hphase => exact (hpast.giveBack hi _).of_same rfl rfl
  | marks hi hphase =>
    unfold markTicketRunning
    split <;> exact hpast.of_same rfl rfl
  | _ => exact hpast.of_same rfl rfl

/-- No move brings the ticket into the store. -/
theorem mem_of_move (hpast : h.Past id) (hinv : h.Inv) (hmove : Move pq h a h')
    (hid : id ∈ h'.tickets) : id ∈ h.tickets := by
  cases hmove with
  | @allocates i c id' signal now room hi hphase hroom =>
    obtain ⟨-, -, -, -, hmem⟩ := hinv.reclaim_frame hroom
    have hne : id ≠ id' := by
      rintro rfl
      exact hpast.settled i c signal now hi hphase
    exact hmem id (((AList.mem_insert _).mp hid).resolve_left hne)
  | withdraws hi hphase => exact (AList.mem_erase.mp hid).2
  | marks hi hphase =>
    unfold markTicketRunning at hid
    split at hid
    · exact hid
    case h_2 ticket hticket => exact (mem_insert_of_lookup hticket).mp hid
  | completes hi hphase =>
    obtain ⟨hmem, -⟩ := hinv.completes hi hphase
    rcases (AList.mem_insert _).mp hid with rfl | hold
    · exact hmem
    · exact hold
  | cancels hticket => exact (mem_insert_of_lookup hticket).mp hid
  | releases hsettled => exact (AList.mem_erase.mp hid).2
  | cancelsAll now hstop => exact mem_cancelTickets.mp hid
  | _ => exact hid

end Past

/-- A ticket that was in the store and is so no more does not come back. -/
theorem not_mem_of_left {later later' : List Action} {h₁ h₂ : Host} (hinv : h.Inv)
    (hid : id ∈ h.tickets) (hlater : h.run pq later = some h₁) (hleft : id ∉ h₁.tickets)
    (hlater' : h₁.run pq later' = some h₂) : id ∉ h₂.tickets := by
  have hpast : h₁.Inv ∧ h₁.Past id := by
    refine Lib.Runs.run_invariant (P := fun q : Host => q.Inv ∧ q.Past id) ?_
      ⟨hinv, hinv.past hid⟩ hlater
    intro q a q' _ hq hstep
    exact ⟨hq.1.move (move_of_step hstep), hq.2.move hq.1 (move_of_step hstep)⟩
  have hgone : h₂.Inv ∧ h₂.Past id ∧ id ∉ h₂.tickets := by
    refine Lib.Runs.run_invariant (P := fun q : Host => q.Inv ∧ q.Past id ∧ id ∉ q.tickets) ?_
      ⟨hpast.1, hpast.2, hleft⟩ hlater'
    intro q a q' _ hq hstep
    have hmove := move_of_step hstep
    exact ⟨hq.1.move hmove, hq.2.1.move hq.1 hmove,
      fun hmem => hq.2.2 (hq.2.1.mem_of_move hq.1 hmove hmem)⟩
  exact hgone.2.2

theorem config_move (hinv : h.Inv) (hmove : Move pq h a h') :
    h'.fabric.config = h.fabric.config := by
  cases hmove with
  | allocates hi hphase hroom =>
    obtain ⟨-, -, -, hfabric, -⟩ := hinv.reclaim_frame hroom
    exact congrArg Fabric.config hfabric
  | marks hi hphase =>
    unfold markTicketRunning
    split <;> rfl
  | publishes hi hphase hpublish => exact (Fabric.publishLocked_frame hpublish).1
  | flushes now hstop => exact Fabric.shutdownLocked_frame.1
  | _ => rfl

theorem config_run (hinv : h.Inv) {acts : List Action} (hrun : h.run pq acts = some h') :
    h'.fabric.config = h.fabric.config := by
  have hsame : h'.Inv ∧ h'.fabric.config = h.fabric.config := by
    refine Lib.Runs.run_invariant (P := fun q : Host => q.Inv ∧ q.fabric.config = h.fabric.config)
      ?_ ⟨hinv, rfl⟩ hrun
    intro q a q' _ hq hstep
    have hmove := move_of_step hstep
    exact ⟨hq.1.move hmove, (config_move hq.1 hmove).trans hq.2⟩
  exact hsame.2

/-- In every run of a fabric that was opened with any number of callers the two containers of the
ticket store name the same tickets, without duplicates and within the bound; the ids that a caller
is given grow; and a job completes a ticket that is in the store, so that one that has left it does
not come back. -/
theorem store_consistent (pq : EntryQueue) (F : Fabric) (d : Disk) (callers : Nat) (acts : List Action)
    (hrun : (openAt F d callers).run pq acts = some h) :
    (∀ id, id ∈ h.tickets ↔ id ∈ h.ticketOrder) ∧ h.ticketOrder.Nodup ∧
      h.tickets.entries.length ≤ F.config.maxTickets ∧
      (∀ c ∈ h.callers, c.handed.Pairwise (· < ·)) ∧
      (∀ (i : Nat) job ticket, h.pool.workers[i]? = some (.running job) →
        job.work.phase = .completing ticket → job.work.id ∈ h.tickets) ∧
      ∀ id ∈ h.tickets, ∀ later h₁, h.run pq later = some h₁ → id ∉ h₁.tickets →
        ∀ later' h₂, h₁.run pq later' = some h₂ → id ∉ h₂.tickets := by
  have hinv := (inv_openAt F d callers).run hrun
  refine ⟨hinv.keys, hinv.nodup, ?_, fun c hc => (hinv.ordered c hc).sorted, ?_, ?_⟩
  · rw [hinv.count, ← show h.fabric.config = F.config from config_run (inv_openAt F d callers) hrun]
    exact hinv.bounded
  · exact fun i job ticket hi hphase => (hinv.completes hi hphase).1
  · exact fun id hid later h₁ hlater hleft later' h₂ hlater' =>
      not_mem_of_left hinv hid hlater hleft hlater'

/-- With room for one ticket the second call reclaims that of the first. -/
theorem store_consistent_full :
    let F := Fabric.blank { workerThreads := 1, maxTickets := 1 } {}
    let acts : List Action := [.call 0 {} 5, .caller 0, .caller 0, .caller 0, .caller 0, .worker 0,
      .worker 0, .worker 0, .worker 0, .worker 0, .worker 0, .worker 0, .call 0 {} 6, .caller 0,
      .caller 0, .caller 0]
    ∃ h, (openAt F {} 1).run .scan acts = some h ∧ h.ticketOrder = [2] ∧
      h.ticketOrder.Nodup ∧ h.tickets.entries.length ≤ 1 := by
  intro F acts
  obtain ⟨-, hnodup, hbound, -⟩ := store_consistent .scan F {} 1 acts rfl
  exact ⟨_, rfl, rfl, hnodup, hbound⟩

end Host

end Backpressure
