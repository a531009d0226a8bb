import Mathlib.Data.List.Nodup
import Backpressure.Core.Status
import Backpressure.Lib.Runs

/-!
# The worker pool

`WorkerPool` of `fabric.hpp` and `fabric.cpp`: a bounded queue of jobs, any number of workers, and
callers that submit, drain, shut down and abort. A step is one critical section of the pool mutex,
or the creation or the join of all workers. Callers read `started_` before they take the mutex; the
steps of `submit`, `shutdown` and `abort` are possible whatever they have read.
-/

namespace Backpressure

/-- A submitted job. The number counts the jobs that were accepted before it. -/
structure Job (σ : Type) where
  number : Nat
  work : σ
  deriving DecidableEq, Repr

/-- Where a worker is in its loop. -/
inductive Worker (σ : Type)
  | waiting
  | running (job : Job σ)
  /-- Out of the loop, in front of the last notification. -/
  | leaving
  | exited
  deriving DecidableEq, Repr

def Worker.isRunning {σ : Type} : Worker σ → Bool
  | .running _ => true
  | _ => false

/-- It does not come back to the queue. -/
def Worker.hasLeft {σ : Type} : Worker σ → Bool
  | .leaving => true
  | .exited => true
  | _ => false

def Worker.hasExited {σ : Type} : Worker σ → Bool
  | .exited => true
  | _ => false

theorem Worker.hasLeft_of_hasExited {σ : Type} {w : Worker σ} (h : w.hasExited = true) :
    w.hasLeft = true := by
  cases w with
  | waiting => cases h
  | running job => cases h
  | leaving => rfl
  | exited => rfl

structure WorkerPool (σ : Type) where
  capacity : Nat := 0
  queue : List (Job σ) := []
  active : Nat := 0
  stopping : Bool := false
  discard : Bool := false
  started : Bool := false
  completed : Nat := 0
  discarded : Nat := 0
  workers : List (Worker σ) := []
  /-- How many jobs were accepted, and the numbers of those that were started. -/
  submitted : Nat := 0
  ran : List Nat := []
  deriving DecidableEq, Repr

namespace WorkerPool

variable {σ : Type}

def start (p : WorkerPool σ) (threads queueCapacity : Nat) : Status × WorkerPool σ :=
  if p.started then (.error .conflict "worker pool already started" 0, p)
  else if threads = 0 then (.error .invalidArgument "worker thread count" 0, p)
  else if queueCapacity = 0 then (.error .invalidArgument "worker queue capacity" 0, p)
  else
    (.success, { p with
      capacity := queueCapacity, stopping := false, discard := false
      workers := List.replicate threads .waiting
      started := true })

def submit (p : WorkerPool σ) (work : σ) : Status × WorkerPool σ :=
  if p.stopping then (.error .shuttingDown "worker pool stopping" 0, p)
  else if p.capacity ≤ p.queue.length then
    (.error .limitExceeded "worker queue" p.queue.length, p)
  else
    (.success, { p with
      queue := p.queue ++ [⟨p.submitted, work⟩], submitted := p.submitted + 1 })

def setWorker (p : WorkerPool σ) (i : Nat) (w : Worker σ) : WorkerPool σ :=
  { p with workers := p.workers.set i w }

/-- The top of the worker loop, once its wait is over. -/
def take (p : WorkerPool σ) (i : Nat) : Option (WorkerPool σ) :=
  match p.queue with
  | [] => if p.stopping then some (p.setWorker i .leaving) else none
  | job :: rest =>
    if p.discard then
      let p := { p with queue := [], discarded := p.discarded + 1 }
      some (p.setWorker i (if p.stopping then .leaving else .waiting))
    else
      let p := { p with queue := rest, active := p.active + 1, ran := p.ran ++ [job.number] }
      some (p.setWorker i (.running job))

/-- The job has returned. -/
def finish (p : WorkerPool σ) (i : Nat) : WorkerPool σ :=
  { p.setWorker i .waiting with active := p.active - 1, completed := p.completed + 1 }

/-- The next critical section of a worker; a running job returns. -/
def work (p : WorkerPool σ) (i : Nat) : Option (WorkerPool σ) :=
  match p.workers[i]? with
  | some .waiting => p.take i
  | some (.running _) => some (p.finish i)
  | some .leaving => some (p.setWorker i .exited)
  | _ => none

/-- The wait of `drain` is over. -/
def drain (p : WorkerPool σ) : Option (WorkerPool σ) :=
  if p.queue = [] ∧ p.active = 0 then some p else none

/-- `shutdown` up to the join. -/
def shutdown (p : WorkerPool σ) : WorkerPool σ := { p with stopping := true }

/-- `abort` up to the join. -/
def abort (p : WorkerPool σ) : WorkerPool σ :=
  { p with
    stopping := true, discard := true
    discarded := p.discarded + p.queue.length
    queue := [] }

/-- The end of `shutdown` and `abort`: every worker has exited. -/
def join (p : WorkerPool σ) : Option (WorkerPool σ) :=
  if p.workers.all Worker.hasExited then
    some { p with workers := [], started := false }
  else none

inductive Action (σ : Type)
  | start (threads queueCapacity : Nat)
  | submit (work : σ)
  | work (i : Nat)
  | drain
  | shutdown
  | abort
  | join

/-- One step; none if it has to wait. -/
def step (p : WorkerPool σ) : Action σ → Option (WorkerPool σ)
  | .start threads queueCapacity => some (p.start threads queueCapacity).2
  | .submit work => some (p.submit work).2
  | .work i => p.work i
  | .drain => p.drain
  | .shutdown => some p.shutdown
  | .abort => some p.abort
  | .join => p.join

/-- The steps of all workers and callers, in some order. -/
def run (p : WorkerPool σ) (acts : List (Action σ)) : Option (WorkerPool σ) :=
  Lib.Runs.run step p acts

theorem drain_cases {p p' : WorkerPool σ} (h : p.drain = some p') :
    (p.queue = [] ∧ p.active = 0) ∧ p' = p := by
  unfold drain at h
  split at h
  case isTrue hidle => exact ⟨hidle, (Option.some.inj h).symm⟩
  case isFalse => cases h

theorem join_cases {p p' : WorkerPool σ} (h : p.join = some p') :
    (∀ w ∈ p.workers, w.hasLeft = true) ∧ p' = { p with workers := [], started := false } := by
  unfold join at h
  split at h
  case isTrue hexited =>
    refine ⟨fun w hw => ?_, (Option.some.inj h).symm⟩
    exact Worker.hasLeft_of_hasExited (List.all_eq_true.mp hexited w hw)
  case isFalse => cases h

/-! ## Conservation -/

/-- One element of a list changes places between those that count and those that do not. -/
theorem countP_set_add {α : Type} {q : α → Bool} {l : List α} {i : Nat} {a b : α}
    (h : l[i]? = some a) : (l.set i b).countP q + (q a).toNat = l.countP q + (q b).toNat := by
  obtain ⟨hi, rfl⟩ := List.getElem?_eq_some_iff.mp h
  rw [List.countP_set hi]
  cases hq : q l[i] with
  | false => cases q b <;> simp
  | true =>
    have hpos : 0 < l.countP q := List.countP_pos_iff.mpr ⟨_, List.getElem_mem hi, hq⟩
    cases q b <;> simp <;> omega

structure Inv (p : WorkerPool σ) : Prop where
  conserved : p.submitted = p.queue.length + p.active + p.completed + p.discarded
  active : p.active = p.workers.countP Worker.isRunning
  started : p.ran.length = p.active + p.completed
  numbered : (p.ran ++ p.queue.map Job.number).Nodup
  known : ∀ n ∈ p.ran ++ p.queue.map Job.number, n < p.submitted
  /-- After an abort, and once a worker has left, nothing comes into the queue any more. -/
  closed : p.discard = true ∨ (∃ w ∈ p.workers, w.hasLeft = true) →
    p.stopping = true ∧ p.queue = []
  unmanned : p.started = false → p.workers = [] ∧ p.queue = [] ∧ (p.stopping = true ∨ p.capacity = 0)
  manned : p.started = true → p.workers ≠ []

variable {p p' : WorkerPool σ} {i : Nat}

theorem inv_new : ({} : WorkerPool σ).Inv where
  conserved := rfl
  active := rfl
  started := rfl
  numbered := List.nodup_nil
  known := by simp
  closed := by simp
  unmanned _ := ⟨rfl, rfl, .inr rfl⟩
  manned := by simp

namespace Inv

theorem start (h : p.Inv) (threads queueCapacity : Nat) : (p.start threads queueCapacity).2.Inv := by
  unfold WorkerPool.start
  split
  · exact h
  case isFalse hstarted =>
    split
    · exact h
    case isFalse hthreads =>
      split
      · exact h
      · obtain ⟨hworkers, hqueue, -⟩ := h.unmanned (by simpa using hstarted)
        have hidle : p.active = 0 := by
          rw [h.active, hworkers]
          rfl
        exact {
          conserved := h.conserved
          active := by
            show p.active = (List.replicate threads Worker.waiting).countP Worker.isRunning
            rw [hidle, List.countP_replicate]
            simp [Worker.isRunning]
          started := h.started
          numbered := h.numbered
          known := h.known
          closed := by
            rintro (hdiscard | ⟨w, hw, hleft⟩)
            · cases hdiscard
            · rw [List.eq_of_mem_replicate hw] at hleft
              cases hleft
          unmanned := fun hno => by cases hno
          manned := fun _ hnone => hthreads (List.replicate_eq_nil_iff _ |>.mp hnone) }

theorem submit (h : p.Inv) (work : σ) : (p.submit work).2.Inv := by
  unfold WorkerPool.submit
  split
  · exact h
  case isFalse hopen =>
    split
    · exact h
    case isFalse hroom =>
      have hconserved := h.conserved
      have hopen : p.stopping = false := by simpa using hopen
      exact {
        conserved := by
          simp only [List.length_append, List.length_singleton]
          omega
        active := h.active
        started := h.started
        numbered := by
          simp only [List.map_append, List.map_singleton, ← List.append_assoc]
          refine List.nodup_append.mpr ⟨h.numbered, List.nodup_singleton _, fun n hn m hm => ?_⟩
          rw [List.mem_singleton.mp hm]
          exact Nat.ne_of_lt (h.known n hn)
        known := by
          intro n hn
          simp only [List.map_append, List.map_singleton, ← List.append_assoc] at hn
          rcases List.mem_append.mp hn with hn | hn
          · exact Nat.lt_succ_of_lt (h.known n hn)
          · rw [List.mem_singleton.mp hn]
            exact Nat.lt_succ_self _
        closed := fun hleft => by
          have hstopping := (h.closed hleft).1
          rw [hopen] at hstopping
          cases hstopping
        unmanned := fun hno => by
          obtain ⟨-, hqueue, hstopping | hcapacity⟩ := h.unmanned hno
          · rw [hopen] at hstopping
            cases hstopping
          · rw [hcapacity] at hroom
            exact absurd (Nat.zero_le _) hroom
        manned := h.manned }

/-- No worker finds both a job and the order to discard it. -/
theorem kept (h : p.Inv) {job : Job σ} {rest : List (Job σ)} (hqueue : p.queue = job :: rest) :
    p.discard = false := by
  by_contra hdiscard
  have hempty := (h.closed (.inl (by simpa using hdiscard))).2
  rw [hqueue] at hempty
  cases hempty

theorem take_cases (h : p.Inv) (htake : p.take i = some p') :
    (p.queue = [] ∧ p.stopping = true ∧ p' = p.setWorker i .leaving) ∨
      ∃ job rest, p.queue = job :: rest ∧ p.discard = false ∧
        p' = { p with queue := rest, active := p.active + 1, ran := p.ran ++ [job.number] }.setWorker i
          (.running job) := by
  unfold WorkerPool.take at htake
  cases hqueue : p.queue with
  | nil =>
    rw [hqueue] at htake
    dsimp only at htake
    split at htake
    case isTrue hstopping => exact .inl ⟨rfl, hstopping, (Option.some.inj htake).symm⟩
    case isFalse => cases htake
  | cons job rest =>
    have hkept := h.kept hqueue
    rw [hqueue] at htake
    dsimp only at htake
    rw [if_neg (Bool.eq_false_iff.mp hkept)] at htake
    exact .inr ⟨job, rest, rfl, hkept, (Option.some.inj htake).symm⟩

theorem take_discarded (h : p.Inv) (htake : p.take i = some p') : p'.discarded = p.discarded := by
  rcases h.take_cases htake with ⟨-, -, rfl⟩ | ⟨job, rest, -, -, rfl⟩
  · rfl
  · rfl

/-- A worker that there is belongs to a pool that was started. -/
theorem not_unmanned (h : p.Inv) {w : Worker σ} (hi : p.workers[i]? = some w) : p.started ≠ false := by
  intro hno
  rw [(h.unmanned hno).1] at hi
  cases hi

theorem manned_set (h : p.Inv) (w : Worker σ) (hstarted : p.started = true) :
    p.workers.set i w ≠ [] := fun hnone =>
  h.manned hstarted ((List.set_eq_nil_iff i w).mp hnone)

theorem take (h : p.Inv) (hi : p.workers[i]? = some .waiting) (htake : p.take i = some p') :
    p'.Inv := by
  have hworkers : ∀ w : Worker σ, (p.workers.set i w).countP Worker.isRunning =
      p.workers.countP Worker.isRunning + w.isRunning.toNat := fun w => by
    have hcount := countP_set_add (q := Worker.isRunning) (b := w) hi
    simpa [Worker.isRunning] using hcount
  rcases h.take_cases htake with ⟨hqueue, hstopping, rfl⟩ | ⟨job, rest, hqueue, hkept, rfl⟩
  · exact { h with
      active := h.active.trans (hworkers .leaving).symm
      closed := fun _ => ⟨hstopping, hqueue⟩
      unmanned := fun hno => absurd hno (h.not_unmanned hi)
      manned := h.manned_set .leaving }
  · have hconserved := h.conserved
    have hstarted := h.started
    have hnumbered := h.numbered
    have hknown := h.known
    rw [hqueue] at hconserved hnumbered hknown
    rw [List.map_cons, List.append_cons] at hnumbered hknown
    rw [List.length_cons] at hconserved
    exact {
      conserved := by
        show p.submitted = rest.length + (p.active + 1) + p.completed + p.discarded
        omega
      active := by
        show p.active + 1 = (p.workers.set i (.running job)).countP Worker.isRunning
        rw [hworkers, h.active]
        rfl
      started := by
        show (p.ran ++ [job.number]).length = p.active + 1 + p.completed
        rw [List.length_append, List.length_singleton]
        omega
      numbered := hnumbered
      known := hknown
      closed := by
        rintro (hdiscard | ⟨w, hw, hleft⟩)
        · exact absurd hdiscard (Bool.eq_false_iff.mp hkept)
        · rcases List.mem_or_eq_of_mem_set hw with hw | rfl
          · have hempty := (h.closed (.inr ⟨w, hw, hleft⟩)).2
            rw [hqueue] at hempty
            cases hempty
          · cases hleft
      unmanned := fun hno => absurd hno (h.not_unmanned hi)
      manned := h.manned_set _ }

theorem finish (h : p.Inv) {job : Job σ} (hi : p.workers[i]? = some (.running job)) :
    (p.finish i).Inv := by
  have hcount := countP_set_add (q := Worker.isRunning) (b := .waiting) hi
  have hconserved := h.conserved
  have hactive := h.active
  have hstarted := h.started
  simp only [Worker.isRunning, Bool.toNat_true, Bool.toNat_false, Nat.add_zero] at hcount
  exact {
    conserved := by
      show p.submitted = p.queue.length + (p.active - 1) + (p.completed + 1) + p.discarded
      omega
    active := by
      show p.active - 1 = (p.workers.set i .waiting).countP Worker.isRunning
      omega
    started := by
      show p.ran.length = p.active - 1 + (p.completed + 1)
      omega
    numbered := h.numbered
    known := h.known
    closed := by
      rintro (hdiscard | ⟨w, hw, hleft⟩)
      · exact h.closed (.inl hdiscard)
      · rcases List.mem_or_eq_of_mem_set hw with hw | rfl
        · exact h.closed (.inr ⟨w, hw, hleft⟩)
        · cases hleft
    unmanned := fun hno => absurd hno (h.not_unmanned hi)
    manned := h.manned_set _ }

theorem exit (h : p.Inv) (hi : p.workers[i]? = some .leaving) : (p.setWorker i .exited).Inv := by
  have hcount := countP_set_add (q := Worker.isRunning) (b := .exited) hi
  simp only [Worker.isRunning, Bool.toNat_false, Nat.add_zero] at hcount
  have hclosed := h.closed (.inr ⟨_, List.mem_of_getElem? hi, rfl⟩)
  exact { h with
    active := h.active.trans hcount.symm
    closed := fun _ => hclosed
    unmanned := fun hno => absurd hno (h.not_unmanned hi)
    manned := h.manned_set _ }

theorem work (h : p.Inv) (hwork : p.work i = some p') : p'.Inv := by
  unfold WorkerPool.work at hwork
  split at hwork
  case h_1 hi => exact h.take hi hwork
  case h_2 job hi =>
    cases hwork
    exact h.finish hi
  case h_3 hi =>
    cases hwork
    exact h.exit hi
  case h_4 => cases hwork

theorem shutdown (h : p.Inv) : p.shutdown.Inv :=
  { h with
    closed := fun hleft => ⟨rfl, (h.closed hleft).2⟩
    unmanned := fun hno => ⟨(h.unmanned hno).1, (h.unmanned hno).2.1, .inl rfl⟩ }

theorem abort (h : p.Inv) : p.abort.Inv where
  conserved := by
    have hconserved := h.conserved
    show p.submitted = 0 + p.active + p.completed + (p.discarded + p.queue.length)
    omega
  active := h.active
  started := h.started
  numbered := by
    rw [show p.abort.queue = [] from rfl, List.map_nil, List.append_nil]
    exact (List.nodup_append.mp h.numbered).1
  known := fun n hn => h.known n (List.mem_append_left _ (by simpa [WorkerPool.abort] using hn))
  closed := fun _ => ⟨rfl, rfl⟩
  unmanned := fun hno => ⟨(h.unmanned hno).1, rfl, .inl rfl⟩
  manned := h.manned

/-- While no workers are there, nothing is queued and nothing runs. -/
theorem idle (h : p.Inv) (hno : p.started = false) : p.queue = [] ∧ p.active = 0 := by
  obtain ⟨hworkers, hqueue, -⟩ := h.unmanned hno
  refine ⟨hqueue, ?_⟩
  rw [h.active, hworkers]
  rfl

/-- When every worker has left, nothing is queued and nothing runs. -/
theorem idle_of_left (h : p.Inv) (hleft : ∀ w ∈ p.workers, w.hasLeft = true) :
    p.queue = [] ∧ p.active = 0 := by
  refine ⟨?_, ?_⟩
  · cases hstarted : p.started with
    | false => exact (h.unmanned hstarted).2.1
    | true =>
      obtain ⟨w, hw⟩ := List.exists_mem_of_ne_nil _ (h.manned hstarted)
      exact (h.closed (.inr ⟨w, hw, hleft w hw⟩)).2
  · rw [h.active, List.countP_eq_zero]
    intro w hw
    have hw := hleft w hw
    cases w <;> simp_all [Worker.hasLeft, Worker.isRunning]

theorem join (h : p.Inv) (hjoin : p.join = some p') : p'.Inv := by
  obtain ⟨hleft, rfl⟩ := join_cases hjoin
  obtain ⟨hqueue, hidle⟩ := h.idle_of_left hleft
  have hstopped : p.stopping = true ∨ p.capacity = 0 := by
    cases hstarted : p.started with
    | false => exact (h.unmanned hstarted).2.2
    | true =>
      obtain ⟨w, hw⟩ := List.exists_mem_of_ne_nil _ (h.manned hstarted)
      exact .inl (h.closed (.inr ⟨w, hw, hleft w hw⟩)).1
  exact { h with
    active := hidle
    closed := by
      rintro (hdiscard | ⟨w, hw, -⟩)
      · exact h.closed (.inl hdiscard)
      · cases hw
    unmanned := fun _ => ⟨rfl, hqueue, hstopped⟩
    manned := fun hstarted => by cases hstarted }

/-- One step keeps what holds. -/
theorem step (h : p.Inv) {a : Action σ} (hstep : p.step a = some p') : p'.Inv := by
  cases a with
  | start threads queueCapacity =>
    cases hstep
    exact h.start threads queueCapacity
  | submit work =>
    cases hstep
    exact h.submit work
  | work i => exact h.work hstep
  | drain =>
    obtain ⟨-, rfl⟩ := drain_cases hstep
    exact h
  | shutdown =>
    cases hstep
    exact h.shutdown
  | abort =>
    cases hstep
    exact h.abort
  | join => exact h.join hstep

theorem run (h : p.Inv) {acts : List (Action σ)} (hrun : p.run acts = some p') : p'.Inv :=
  Lib.Runs.run_invariant (fun _ _ _ _ h hstep => h.step hstep) h hrun

/-- No step but `abort` discards a job. -/
theorem step_discarded (h : p.Inv) {a : Action σ} (ha : a ≠ .abort) (hstep : p.step a = some p') :
    p'.discarded = p.discarded := by
  cases a with
  | start threads queueCapacity =>
    cases hstep
    unfold WorkerPool.start
    repeat' split
    all_goals rfl
  | submit work =>
    cases hstep
    unfold WorkerPool.submit
    repeat' split
    all_goals rfl
  | work i =>
    change p.work i = some p' at hstep
    unfold WorkerPool.work at hstep
    split at hstep
    case h_1 hi => exact h.take_discarded hstep
    case h_2 job hi =>
      cases hstep
      rfl
    case h_3 hi =>
      cases hstep
      rfl
    case h_4 => cases hstep
  | drain =>
    obtain ⟨-, rfl⟩ := drain_cases hstep
    rfl
  | shutdown =>
    cases hstep
    rfl
  | abort => exact absurd rfl ha
  | join =>
    obtain ⟨-, rfl⟩ := join_cases hstep
    rfl

end Inv

/-- At every moment of every run each accepted job is queued, runs, has been completed or has been
discarded. None is started twice; only an abort discards; and when a wait for the jobs or for the
workers is over, nothing is queued and nothing runs. -/
theorem jobs_conserved (acts : List (Action σ)) (p : WorkerPool σ) (h : run {} acts = some p) :
    p.submitted = p.queue.length + p.active + p.completed + p.discarded ∧
      p.ran.Nodup ∧ (∀ n ∈ p.ran, n < p.submitted) ∧ p.ran.length = p.active + p.completed ∧
      (∀ later p', .abort ∉ later → p.run later = some p' → p'.discarded = p.discarded) ∧
      (∀ p', p.step .drain = some p' → p.queue = [] ∧ p.active = 0) ∧
      (∀ p', p.step .join = some p' → p'.started = false) ∧
      (p.started = false → p.queue = [] ∧ p.active = 0) := by
  have hinv := inv_new.run h
  refine ⟨hinv.conserved, (List.nodup_append.mp hinv.numbered).1,
    fun n hn => hinv.known n (List.mem_append_left _ hn), hinv.started, ?_, ?_, ?_, hinv.idle⟩
  · intro later p' hkeep hrun
    have hkept : p'.Inv ∧ p'.discarded = p.discarded := by
      refine Lib.Runs.run_invariant (P := fun q => q.Inv ∧ q.discarded = p.discarded) ?_ ⟨hinv, rfl⟩ hrun
      intro q a q' ha hq hstep
      have hne : a ≠ .abort := fun hab => hkeep (hab ▸ ha)
      exact ⟨hq.1.step hstep, (hq.1.step_discarded hne hstep).trans hq.2⟩
    exact hkept.2
  · intro p' hdrain
    exact (drain_cases hdrain).1
  · intro p' hjoin
    obtain ⟨-, rfl⟩ := join_cases hjoin
    rfl

/-- One job runs, two wait, a fourth finds the queue full; then the pool is aborted. -/
theorem jobs_conserved_abort :
    let acts : List (Action Nat) := [.start 2 2, .submit 7, .work 1, .submit 8, .submit 9, .submit 10,
      .abort, .work 0, .work 0, .work 1, .work 1, .work 1, .join]
    ∃ p, run {} acts = some p ∧ p.submitted = 3 ∧ p.completed = 1 ∧ p.discarded = 2 ∧
      p.submitted = p.queue.length + p.active + p.completed + p.discarded := by
  intro acts
  exact ⟨_, rfl, rfl, rfl, rfl, (jobs_conserved acts _ rfl).1⟩

end WorkerPool

end Backpressure
