import Backpressure.Runtime.TicketStore

/-!
# Settled tickets

The start of a job marks its ticket as running without a look at its state. A ticket that was
cancelled before its job started so runs again; nothing else touches a settled ticket.
-/

namespace Backpressure

namespace Host

variable {pq : EntryQueue} {h h' : Host} {a : Action} {i : Nat} {id : TicketId}

/-- The step marks a settled ticket as running. -/
def Restarts (h : Host) (a : Action) : Prop :=
  ∃ i job, a = .worker i ∧ h.pool.workers[i]? = some (.running job) ∧ job.work.phase = .queued ∧
    h.isSettled job.work.id = true

/-- A settled ticket stays as it is, or leaves the store. -/
def Keeps (T T' : AList fun _ : TicketId => PublishTicket) : Prop :=
  ∀ id ticket ticket', T.lookup id = some ticket → ticket.state.isSettled = true →
    T'.lookup id = some ticket' → ticket' = ticket

section Store

variable {T T' : AList fun _ : TicketId => PublishTicket} {ticket ticket' : PublishTicket}

theorem keeps_refl : Keeps T T := fun _ _ _ h _ h' => Option.some.inj (h'.symm.trans h)

theorem keeps_erase : Keeps T (T.erase id) := by
  intro id' t t' ht _ ht'
  by_cases hid : id' = id
  · rw [hid, AList.lookup_erase] at ht'
    cases ht'
  · rw [AList.lookup_erase_ne hid] at ht'
    exact Option.some.inj (ht'.symm.trans ht)

/-- Only a ticket that is not settled is replaced. -/
theorem keeps_insert (h : ∀ old, T.lookup id = some old → old.state.isSettled = true → ticket = old) :
    Keeps T (T.insert id ticket) := by
  intro id' t t' ht hsettled ht'
  by_cases hid : id' = id
  · subst hid
    rw [AList.lookup_insert] at ht'
    cases ht'
    exact h t ht hsettled
  · rw [AList.lookup_insert_ne hid] at ht'
    exact Option.some.inj (ht'.symm.trans ht)

theorem cancelPending_settled {context : String} (h : ticket.state.isSettled = true) :
    ticket.cancelPending context = ticket := by
  unfold PublishTicket.cancelPending
  split
  case isTrue hpending =>
    rw [hpending] at h
    cases h
  case isFalse => rfl

end Store

theorem keeps_cancelTickets : Keeps h.tickets h.cancelTickets.tickets := by
  intro id t t' ht hsettled ht'
  rw [lookup_cancelTickets, ht, Option.map_some, cancelPending_settled hsettled] at ht'
  exact (Option.some.inj ht').symm

theorem keeps_reclaim {room : Host} (hinv : h.Inv) (hreclaim : h.reclaim = some room) :
    Keeps h.tickets room.tickets := by
  rcases hinv.reclaim_cases hreclaim with ⟨-, rfl⟩ | ⟨id, -, -, rfl⟩
  · exact keeps_refl
  · exact keeps_erase

/-- A move that restarts no ticket keeps those that are settled. -/
theorem keeps_move (hinv : h.Inv) (hmove : Move pq h a h') (hno : ¬h.Restarts a) :
    Keeps h.tickets h'.tickets := by
  cases hmove with
  | @allocates i c id signal now room hi hphase hroom =>
    have hnew := hinv.absent i c id signal now hi hphase
    intro id' t t' ht hsettled ht'
    have hne : id' ≠ id := by
      rintro rfl
      exact hnew (mem_of_lookup ht)
    replace ht' : (room.tickets.insert id _).lookup id' = some t' := ht'
    rw [AList.lookup_insert_ne hne] at ht'
    exact keeps_reclaim hinv hroom id' t t' ht hsettled ht'
  | withdraws hi hphase => exact keeps_erase
  | @marks i job hi hphase =>
    show Keeps h.tickets (h.markTicketRunning job.work.id).tickets
    unfold markTicketRunning
    split
    · exact keeps_refl
    case h_2 ticket hticket =>
      apply keeps_insert
      intro old hold hsettled
      refine absurd ⟨i, job, rfl, hi, hphase, ?_⟩ hno
      rw [isSettled, hold]
      exact hsettled
  | @completes i job ticket hi hphase =>
    have hsound := hinv.jobs i job hi
    unfold Sound at hsound
    rw [hphase] at hsound
    obtain ⟨old, hold, hrunning⟩ := hsound
    apply keeps_insert
    intro old' hold' hsettled
    rw [hold] at hold'
    cases hold'
    rw [hrunning] at hsettled
    cases hsettled
  | @cancels id ticket hticket =>
    apply keeps_insert
    intro old hold hsettled
    rw [hticket] at hold
    cases hold
    exact cancelPending_settled hsettled
  | releases hsettled => exact keeps_erase
  | cancelsAll now hstop => exact keeps_cancelTickets
  | _ => exact keeps_refl

/-- No step of the run restarts a settled ticket. -/
def NoRestart (pq : EntryQueue) (h : Host) (acts : List Action) : Prop :=
  ∀ before a after h₁, acts = before ++ a :: after → h.run pq before = some h₁ → ¬h₁.Restarts a

/-- Once a ticket of the run is settled, its state, its status and its commit stay what they are for
as long as it is in the store. -/
def Absorbing (pq : EntryQueue) (h : Host) (acts : List Action) : Prop :=
  ∀ before between after h₁ h₂, acts = before ++ between ++ after →
    h.run pq before = some h₁ → h₁.run pq between = some h₂ →
    ∀ id ticket ticket', h₁.tickets.lookup id = some ticket → ticket.state.isSettled = true →
      h₂.tickets.lookup id = some ticket' →
      ticket'.state = ticket.state ∧ ticket'.status = ticket.status ∧
        ticket'.committed = ticket.committed

/-- A settled ticket that is still there has not changed in a run without restarts. -/
theorem keeps_run {acts : List Action} (hinv : h.Inv) (hno : NoRestart pq h acts)
    (hrun : h.run pq acts = some h') : Keeps h.tickets h'.tickets := by
  induction acts generalizing h with
  | nil =>
    cases hrun
    exact keeps_refl
  | cons a rest ih =>
    obtain ⟨m, hm, hrest⟩ := Lib.Runs.run_cons.mp hrun
    have hmove := move_of_step hm
    have hkept := keeps_move hinv hmove (hno [] a rest h rfl rfl)
    have hlater := ih (hinv.move hmove) (fun before b after h₁ hacts hbefore =>
      hno (a :: before) b after h₁ (congrArg (a :: ·) hacts)
        (Lib.Runs.run_cons.mpr ⟨m, hm, hbefore⟩)) hrest
    intro id t t' ht hsettled ht'
    cases hmid : m.tickets.lookup id with
    | some u =>
      have hu := hkept id t u ht hsettled hmid
      subst hu
      exact hlater id u t' hmid hsettled ht'
    | none =>
      -- a ticket that has left the store is not there at the end
      have hleft : id ∉ m.tickets := AList.lookup_eq_none.mp hmid
      have hone : h.run pq [a] = some m := Lib.Runs.run_cons.mpr ⟨m, hm, rfl⟩
      have hgone := not_mem_of_left hinv (mem_of_lookup ht) hone hleft hrest
      exact absurd (mem_of_lookup ht') hgone

/-- A step that restarts a ticket leaves it running. -/
theorem step_restarts (pq : EntryQueue) (hrestarts : h.Restarts a) : ∃ h' id ticket ticket', h.step pq a = some h' ∧
    h.tickets.lookup id = some ticket ∧ ticket.state.isSettled = true ∧
      h'.tickets.lookup id = some ticket' ∧ ticket'.state = .running := by
  obtain ⟨i, job, rfl, hi, hphase, hsettled⟩ := hrestarts
  obtain ⟨ticket, hticket, hstate⟩ : ∃ ticket, h.tickets.lookup job.work.id = some ticket ∧
      ticket.state.isSettled = true := by
    unfold isSettled at hsettled
    cases hticket : h.tickets.lookup job.work.id with
    | none =>
      rw [hticket] at hsettled
      cases hsettled
    | some ticket =>
      rw [hticket] at hsettled
      exact ⟨ticket, rfl, hsettled⟩
  have hstep : h.step pq (.worker i) =
      some ((h.markTicketRunning job.work.id).setPhase i job .marked) := by
    show h.worker pq i = _
    unfold worker
    rw [hi]
    unfold jobStep
    dsimp only
    rw [hphase]
  refine ⟨_, job.work.id, ticket, { ticket with state := .running }, hstep, hticket, hstate, ?_, rfl⟩
  show (h.markTicketRunning job.work.id).tickets.lookup job.work.id = _
  unfold markTicketRunning
  rw [hticket]
  exact AList.lookup_insert _

/-- In every run of an opened fabric the settled states are absorbing exactly as long as no job
starts whose ticket is settled already. -/
theorem absorbing_iff (pq : EntryQueue) (F : Fabric) (d : Disk) (callers : Nat)
    (acts : List Action) :
    Absorbing pq (openAt F d callers) acts ↔ NoRestart pq (openAt F d callers) acts := by
  constructor
  · intro habsorbing before a after h₁ hacts hbefore hrestarts
    obtain ⟨h₂, id, ticket, ticket', hstep, hticket, hsettled, hticket', hrunning⟩ :=
      step_restarts pq hrestarts
    have hone : h₁.run pq [a] = some h₂ := Lib.Runs.run_cons.mpr ⟨h₂, hstep, rfl⟩
    obtain ⟨hstate, -, -⟩ := habsorbing before [a] after h₁ h₂ (by simpa using hacts) hbefore hone
      id ticket ticket' hticket hsettled hticket'
    rw [hrunning] at hstate
    rw [← hstate] at hsettled
    cases hsettled
  · intro hno before between after h₁ h₂ hacts hbefore hbetween id ticket ticket' ht hsettled ht'
    have hinv := (inv_openAt F d callers).run hbefore
    have hkept : Keeps h₁.tickets h₂.tickets := by
      refine keeps_run hinv (fun before' b after' h₃ hmid hbefore' => ?_) hbetween
      refine hno (before ++ before') b (after' ++ after) h₃ ?_ ?_
      · rw [hacts, hmid]
        simp
      · exact Lib.Runs.run_append.mpr ⟨h₁, hbefore, hbefore'⟩
    rw [hkept id ticket ticket' ht hsettled ht']
    exact ⟨rfl, rfl, rfl⟩

/-- A ticket is cancelled before its job starts; then the job starts. -/
theorem cancelled_runs :
    ¬∀ pq F d callers acts, Absorbing pq (openAt F d callers) acts := by
  intro habsorbing
  let F := Fabric.blank { workerThreads := 1 } {}
  let before : List Action := [.call 0 {} 5, .caller 0, .caller 0, .caller 0, .caller 0, .cancel 1]
  have hkept := habsorbing .scan F {} 1 (before ++ [.worker 0, .worker 0]) before
    [.worker 0, .worker 0] [] _ _ rfl rfl rfl 1 _ _ rfl rfl rfl
  cases hkept.1

end Host

end Backpressure
