import Backpressure.Store.Epochs

/-!
# Courses of operations

A call of the fabric is a course of operations of its store. A crash in the middle of the course is
a crash in the middle of one of them.
-/

namespace Backpressure

/-! ## What was there before -/

namespace Disk

variable {d d₁ d₂ : Disk} {k n : Nat}

theorem back_add : d.back (n + k) = (d.back n).back k := by
  induction n generalizing d with
  | zero => rw [Nat.zero_add, back]
  | succ n ih =>
    rw [Nat.succ_add]
    rcases hpast : d.past with _ | ⟨⟨file, synced⟩, past⟩
    · have hend : ∀ k, d.back k = d := fun k => by
        cases k with
        | zero => rfl
        | succ k => rw [back, hpast]
      rw [hend, hend, hend]
    · rw [back, hpast, back, hpast]
      exact ih

/-- The second disk comes out of the first by some changes of the file. -/
def Later (d d₁ : Disk) : Prop := ∃ n, d₁.past.length = d.past.length + n ∧ d₁.back n = d

namespace Later

theorem refl : d.Later d := ⟨0, rfl, rfl⟩

theorem trans (h : d.Later d₁) (h' : d₁.Later d₂) : d.Later d₂ := by
  obtain ⟨n, hlength, hback⟩ := h
  obtain ⟨m, hlength', hback'⟩ := h'
  refine ⟨m + n, by omega, ?_⟩
  rw [back_add, hback', hback]

theorem length_le (h : d.Later d₁) : d.past.length ≤ d₁.past.length := by
  obtain ⟨n, hlength, -⟩ := h
  omega

/-- Further back than the first disk. -/
theorem before (h : d.Later d₁) (hk : d₁.past.length ≤ k + d.past.length) :
    d₁.back k = d.back (k + d.past.length - d₁.past.length) := by
  obtain ⟨n, hlength, hback⟩ := h
  obtain ⟨j, rfl⟩ := Nat.exists_eq_add_of_le (show n ≤ k by omega)
  rw [back_add, hback]
  congr 1
  omega

end Later

/-- The header of the file is synced. -/
def Firm (d : Disk) : Prop := kHeaderBytes ≤ d.synced ∧ kHeaderBytes ≤ d.bytes.length

theorem Firm.crash (h : d.Firm) (n : Nat) : (d.crash n).Firm := by
  obtain ⟨m, hm, hbytes⟩ := crash_cut (d := d) n
  have hlong : kHeaderBytes ≤ (d.crash n).bytes.length := by
    rw [hbytes, List.length_take]
    exact le_min (h.1.trans hm) h.2
  exact ⟨hlong, hlong⟩

end Disk

namespace DurableStore

variable {config : DurableConfig} {s s₁ s' : DurableStore} {d d₁ d' : Disk} {o : Op}
  {ops more : List Op} {k : Nat}

theorem Op.Changed.later (h : o.Changed s d s' d') (hfaults : d.faults = []) : d.Later d' := by
  obtain ⟨file, synced, faults, past⟩ := d
  cases hfaults
  cases h with
  | idle _ hd =>
    subst hd
    exact .refl
  | logged r _ hd =>
    subst hd
    cases o.syncs with
    | false => exact ⟨1, rfl, rfl⟩
    | true => exact ⟨2, rfl, rfl⟩
  | replaced image _ hd =>
    subst hd
    exact ⟨1, rfl, rfl⟩
  | synced _ hd =>
    subst hd
    exact ⟨1, rfl, rfl⟩

/-- The header stays synced through all that an operation does. -/
theorem Op.Changed.firm (h : o.Changed s d s' d') (hfirm : d.Firm) (hkept : Kept config s' d')
    (hk : k + d.past.length ≤ d'.past.length) : (d'.back k).Firm := by
  have hend : kHeaderBytes ≤ d'.bytes.length :=
    long_of_checkHeader hkept.live.holds.stored.header
  cases h with
  | idle _ hd =>
    subst hd
    obtain rfl : k = 0 := by omega
    exact hfirm
  | logged r _ hd =>
    subst hd
    have hwritten : (d.next.write r.encode).Firm := by
      refine ⟨hfirm.1, ?_⟩
      rw [Disk.bytes_write, List.length_append]
      exact hfirm.2.trans (Nat.le_add_right _ _)
    generalize o.syncs = sync at hk ⊢
    cases sync with
    | false =>
      have hlength : (d.logged false r.encode).past.length = d.past.length + 1 := rfl
      obtain rfl | rfl : k = 0 ∨ k = 1 := by omega
      · exact hwritten
      · exact hfirm
    | true =>
      have hlength : (d.logged true r.encode).past.length = d.past.length + 2 := rfl
      obtain rfl | rfl | rfl : k = 0 ∨ k = 1 ∨ k = 2 := by omega
      · have hsynced : (d.logged true r.encode).synced = (d.next.write r.encode).bytes.length := rfl
        exact ⟨hsynced ▸ hwritten.2, hwritten.2⟩
      · exact hwritten
      · exact hfirm
  | replaced image _ hd =>
    subst hd
    have hlength : (d.next.replace image).next.next.next.past.length = d.past.length + 1 := rfl
    obtain rfl | rfl : k = 0 ∨ k = 1 := by omega
    · exact ⟨hend, hend⟩
    · exact hfirm
  | synced _ hd =>
    subst hd
    have hlength : (d.next.become d.file d.bytes.length).past.length = d.past.length + 1 := rfl
    obtain rfl | rfl : k = 0 ∨ k = 1 := by omega
    · exact ⟨hfirm.2, hfirm.2⟩
    · exact hfirm

/-! ## Courses -/

/-- Operations one after the other, each of them safe where it is done. -/
inductive Course : List Op → DurableStore → Disk → DurableStore → Disk → Prop
  | nil {s : DurableStore} {d : Disk} : Course [] s d s d
  | cons {o : Op} {ops : List Op} {s s₁ s' : DurableStore} {d d₁ d' : Disk} : o.Safe s →
      o.run s d = (s₁, d₁) → Course ops s₁ d₁ s' d' → Course (o :: ops) s d s' d'

namespace Course

theorem one (hsafe : o.Safe s) (hrun : o.run s d = (s', d')) : Course [o] s d s' d' :=
  .cons hsafe hrun .nil

theorem append (h : Course ops s d s₁ d₁) (h' : Course more s₁ d₁ s' d') :
    Course (ops ++ more) s d s' d' := by
  induction h with
  | nil => exact h'
  | cons hsafe hrun _ ih => exact .cons hsafe hrun (ih h')

theorem kept (h : Course ops s d s' d') (hmax : 0 < config.maxLineages) (hkept : Kept config s d) :
    Kept config s' d' := by
  induction h with
  | nil => exact hkept
  | cons hsafe hrun _ ih => exact ih (hkept.op hmax hsafe hrun)

theorem later (h : Course ops s d s' d') (hmax : 0 < config.maxLineages)
    (hkept : Kept config s d) : d.Later d' := by
  induction h with
  | nil => exact .refl
  | cons hsafe hrun _ ih =>
    have hone := (hkept.changed hmax hsafe hrun).later hkept.faults
    exact hone.trans (ih (hkept.op hmax hsafe hrun))

theorem firm (h : Course ops s d s' d') (hmax : 0 < config.maxLineages) (hkept : Kept config s d)
    (hfirm : d.Firm) : d'.Firm := by
  induction h with
  | nil => exact hfirm
  | cons hsafe hrun _ ih =>
    have hchanged := hkept.changed hmax hsafe hrun
    have hkept₁ := hkept.op hmax hsafe hrun
    refine ih hkept₁ (hchanged.firm (k := 0) hfirm hkept₁ ?_)
    exact (Nat.zero_add _).trans_le (hchanged.later hkept.faults).length_le

end Course

/-- How many lineages an operation gives to the store. -/
def Op.records : Op → Nat
  | call (.recordLineage _ _) => 1
  | _ => 0

/-- How many lineages the operations give to the store. -/
def recorded (ops : List Op) : Nat := (ops.map Op.records).sum

theorem recorded_append : recorded (ops ++ more) = recorded ops + recorded more := by
  simp [recorded]

theorem recorded_cons : recorded (o :: ops) = o.records + recorded ops := by
  simp [recorded]

/-- A call that is refused at once. -/
def idleOp : Op := .call (.beginAttempt {} 0)

/-- A course, with what does nothing behind it, is cut in the middle of one of its operations. -/
structure Course.Torn (ops : List Op) (s : DurableStore) (d : Disk) (s' : DurableStore) (d' : Disk)
    (k : Nat) (front : List Op) (o : Op) (rest : List Op) (s₁ : DurableStore) (d₁ : Disk)
    (j : Nat) : Prop where
  ops : ops ++ [idleOp] = front ++ o :: rest
  front : Course front s d s₁ d₁
  safe : o.Safe s₁
  rest : Course rest (o.run s₁ d₁).1 (o.run s₁ d₁).2 s' d'
  late : j + d₁.past.length ≤ (o.run s₁ d₁).2.past.length
  back : (o.run s₁ d₁).2.back j = d'.back k

/-- A crash in a course is a crash in one of its operations. -/
theorem Course.cut (h : Course ops s d s' d') (hmax : 0 < config.maxLineages)
    (hkept : Kept config s d) (hk : k + d.past.length ≤ d'.past.length) :
    ∃ front o rest s₁ d₁ j, Torn ops s d s' d' k front o rest s₁ d₁ j := by
  induction h with
  | nil =>
    obtain rfl : k = 0 := by omega
    exact ⟨[], idleOp, [], _, _, 0, rfl, .nil, trivial, .nil, hk, rfl⟩
  | @cons o ops s s₁ s' d d₁ d' hsafe hrun hrest ih =>
    have hkept₁ := hkept.op hmax hsafe hrun
    by_cases hlate : k + d₁.past.length ≤ d'.past.length
    · obtain ⟨front, o', rest, s₂, d₂, j, htorn⟩ := ih hkept₁ hlate
      exact ⟨o :: front, o', rest, s₂, d₂, j, congrArg (o :: ·) htorn.ops,
        .cons hsafe hrun htorn.front, htorn.safe, htorn.rest, htorn.late, htorn.back⟩
    · have hbefore := (hrest.later hmax hkept₁).before (k := k) (by omega)
      refine ⟨[], o, ops ++ [idleOp], s, d, k + d₁.past.length - d'.past.length, rfl, .nil, hsafe,
        ?_, ?_, ?_⟩
      · rw [hrun]
        exact hrest.append (.one trivial rfl)
      · rw [hrun]
        dsimp only
        omega
      · rw [hrun]
        exact hbefore.symm

theorem Course.Torn.recorded {front rest : List Op} {j : Nat}
    (h : Torn ops s d s' d' k front o rest s₁ d₁ j) :
    recorded front + o.records ≤ recorded ops := by
  have hsum := congrArg DurableStore.recorded h.ops
  have hidle : idleOp.records = 0 := rfl
  rw [recorded_append, recorded_append, recorded_cons, recorded_cons, hidle] at hsum
  have hnil : DurableStore.recorded [] = 0 := rfl
  omega

end DurableStore

/-! ## Courses as runs -/

namespace StoreHistory

open DurableStore (Ahead Kept Op Course)

variable {config : DurableConfig} {w : StoreHistory} {s s₁ s' : DurableStore} {d d₁ d' : Disk}
  {steps later : List Step} {o : Op} {ops : List Op} {k n : Nat}

theorem run_append : w.run config (steps ++ later) = (w.run config steps).run config later :=
  List.foldl_append

theorem SafeRun.append (h : w.SafeRun config steps)
    (h' : (w.run config steps).SafeRun config later) : w.SafeRun config (steps ++ later) := by
  induction steps generalizing w with
  | nil => exact h'
  | cons a steps ih => exact ⟨h.1, ih h.2 h'⟩

theorem epochs_append :
    w.epochs config (steps ++ later) =
      w.epochs config steps ++ (w.run config steps).epochs config later := by
  induction steps generalizing w with
  | nil => rfl
  | cons a steps ih =>
    show (w.established a).toList ++ (w.step config a).epochs config (steps ++ later) = _
    rw [ih, ← List.append_assoc]
    rfl

theorem step_op (hstore : w.store = some s) (hrun : o.run s w.disk = (s', d')) :
    w.step config (.op o) = w.goOn s' d' := by
  unfold StoreHistory.step
  rw [hstore]
  dsimp only
  rw [hrun]

theorem step_crash (hstore : w.store = some s) (hrun : o.run s w.disk = (s', d')) :
    (w.step config (.crash o k n)).store = none ∧
      (w.step config (.crash o k n)).disk = (d'.back k).crash n := by
  unfold StoreHistory.step
  rw [hstore]
  dsimp only
  rw [hrun]
  exact ⟨rfl, rfl⟩

theorem step_openAt (hopen : DurableStore.openAt config w.disk = (.ok s', d')) :
    w.step config .openAt = w.goOn s' d' := by
  unfold StoreHistory.step
  dsimp only
  rw [hopen]

/-- The history goes through the course. -/
theorem course (h : Course ops s d s' d') (hstore : w.store = some s) (hdisk : w.disk = d) :
    w.SafeRun config (ops.map .op) ∧ (w.run config (ops.map .op)).store = some s' ∧
      (w.run config (ops.map .op)).disk = d' := by
  induction h generalizing w with
  | nil => exact ⟨trivial, hstore, hdisk⟩
  | @cons o ops s s₁ s' d d₁ d' hsafe hrun _ ih =>
    have hstep : w.step config (.op o) = w.goOn s₁ d₁ := step_op hstore (hdisk ▸ hrun)
    obtain ⟨hsafes, hend⟩ := ih (w := w.goOn s₁ d₁) rfl rfl
    rw [← hstep] at hsafes hend
    refine ⟨⟨fun s₂ hs₂ => ?_, hsafes⟩, hend⟩
    rw [hstore] at hs₂
    cases hs₂
    exact hsafe

/-- How many lineages a step gives to the store. -/
def Step.records : Step → Nat
  | .op o | .crash o _ _ => o.records
  | .openAt | .crashOpen _ _ => 0

def recorded (steps : List Step) : Nat := (steps.map Step.records).sum

theorem recorded_append : recorded (steps ++ later) = recorded steps + recorded later := by
  simp [recorded]

theorem recorded_course : recorded (ops.map .op) = DurableStore.recorded ops := by
  unfold recorded DurableStore.recorded
  rw [List.map_map]
  rfl

/-- A store that is known to be kept. -/
theorem Inv.ahead (h : w.Inv config) (hstore : w.store = some s) :
    Ahead config s w.disk w.states w.settled := by
  rcases h with ⟨s₁, hstore₁, hahead⟩ | ⟨hnone, -⟩
  · cases hstore.symm.trans hstore₁
    exact hahead
  · cases hstore.symm.trans hnone

/-- The next open of the directory succeeds. -/
theorem Inv.opens (h : w.Inv config) :
    ∃ s₀ d₀, DurableStore.openAt config w.disk = (.ok s₀, d₀) ∧ w.disk.faults = [] := by
  rcases h with ⟨s, -, hahead⟩ | ⟨-, hfaults, -, -, s₀, d₀, hopen, -⟩
  · obtain ⟨s₀, d₀, hopen, -⟩ := hahead.kept.reopens
    exact ⟨s₀, d₀, hopen, hahead.kept.faults⟩
  · exact ⟨s₀, d₀, hopen, hfaults⟩

theorem isSome_of_firm (h : d.Firm) : d.file.isSome = true := by
  rw [Option.isSome_iff_ne_none]
  intro hnone
  have hheader := h.2
  rw [Disk.bytes, hnone] at hheader
  exact absurd hheader (by decide)

section Open

variable {s₀ : DurableStore} {d₀ : Disk}

theorem later_openAt (hfirm : d.Firm) (hfaults : d.faults = [])
    (hopen : DurableStore.openAt config d = (.ok s₀, d₀)) : d.Later d₀ := by
  rcases DurableStore.openAt_repaired hfaults (isSome_of_firm hfirm) hopen with rfl | ⟨m, hd⟩
  · exact .refl
  · subst hd
    exact ⟨1, rfl, rfl⟩

theorem firm_openAt (hfirm : d.Firm) (hfaults : d.faults = [])
    (hopen : DurableStore.openAt config d = (.ok s₀, d₀))
    (hk : k + d.past.length ≤ d₀.past.length) : (d₀.back k).Firm := by
  have hlong : kHeaderBytes ≤ d₀.bytes.length :=
    long_of_checkHeader (Kept.opened hfaults hopen).live.holds.stored.header
  rcases DurableStore.openAt_repaired hfaults (isSome_of_firm hfirm) hopen with rfl | ⟨m, hd⟩
  · obtain rfl : k = 0 := by omega
    exact hfirm
  · subst hd
    have hbytes : (d.become (some (d.bytes.take m)) (min d.synced m)).bytes = d.bytes.take m := rfl
    have hlength : (d.become (some (d.bytes.take m)) (min d.synced m)).past.length =
        d.past.length + 1 := rfl
    obtain rfl | rfl : k = 0 ∨ k = 1 := by omega
    · refine ⟨le_min hfirm.1 ?_, hlong⟩
      rw [hbytes, List.length_take] at hlong
      omega
    · exact hfirm

/-- An open that the machine dies in. -/
theorem openAt_dies (hinv : w.Inv config) (hfirm : w.disk.Firm)
    (hopen : DurableStore.openAt config w.disk = (.ok s₀, d₀))
    (hk : k + w.disk.past.length ≤ d₀.past.length) :
    w.SafeRun config [.crashOpen k n] ∧ (w.step config (.crashOpen k n)).store = none ∧
      (w.step config (.crashOpen k n)).disk = (d₀.back k).crash n ∧ ((d₀.back k).crash n).Firm := by
  obtain ⟨-, -, -, hfaults⟩ := hinv.opens
  have hend := (firm_openAt hfirm hfaults hopen hk).crash n
  refine ⟨⟨?_, trivial⟩, rfl, ?_, hend⟩
  · show w.Survives (DurableStore.openAt config w.disk).2 k n
    unfold Survives
    rw [hopen]
    exact ⟨hk, hend.2⟩
  · show ((DurableStore.openAt config w.disk).2.back k).crash n = _
    rw [hopen]

end Open

/-- A course that the machine lives through. -/
theorem course_done (hmax : 0 < config.maxLineages) (hinv : w.Inv config) (hfirm : w.disk.Firm)
    (hstore : w.store = some s) (hcourse : Course ops s w.disk s' d') :
    w.SafeRun config (ops.map .op) ∧ (w.run config (ops.map .op)).store = some s' ∧
      (w.run config (ops.map .op)).disk = d' ∧ (w.run config (ops.map .op)).Inv config ∧
        d'.Firm := by
  obtain ⟨hsafe, hafter, hdisk⟩ : w.SafeRun config (ops.map .op) ∧
      (w.run config (ops.map .op)).store = some s' ∧ (w.run config (ops.map .op)).disk = d' :=
    course hcourse hstore rfl
  exact ⟨hsafe, hafter, hdisk, hinv.run hmax hsafe,
    hcourse.firm hmax (hinv.ahead hstore).kept hfirm⟩

/-- Operations, and a crash in the middle of a last one. -/
def dying (front : List Op) (o : Op) (j n : Nat) : List Step := front.map .op ++ [.crash o j n]

/-- A course that the machine dies in. -/
theorem course_dies (hmax : 0 < config.maxLineages) (hinv : w.Inv config) (hfirm : w.disk.Firm)
    (hstore : w.store = some s) (hcourse : Course ops s w.disk s' d')
    (hk : k + w.disk.past.length ≤ d'.past.length) :
    ∃ front o rest s₁ d₁ j, Course.Torn ops s w.disk s' d' k front o rest s₁ d₁ j ∧
      w.SafeRun config (dying front o j n) ∧ (w.run config (dying front o j n)).store = none ∧
      (w.run config (dying front o j n)).disk = (d'.back k).crash n ∧
        ((d'.back k).crash n).Firm := by
  obtain ⟨front, o, rest, s₁, d₁, j, htorn⟩ := hcourse.cut hmax (hinv.ahead hstore).kept hk
  obtain ⟨hsafes, hstore₁, hdisk₁, hinv₁, hfirm₁⟩ :=
    course_done hmax hinv hfirm hstore htorn.front
  have hkept₁ := (hinv₁.ahead hstore₁).kept
  rw [hdisk₁] at hkept₁
  have hj := htorn.late
  have hback := htorn.back
  rcases hrun : o.run s₁ d₁ with ⟨s₂, d₂⟩
  rw [hrun] at hj hback
  have hend := ((hkept₁.changed hmax htorn.safe hrun).firm hfirm₁
    (hkept₁.op hmax htorn.safe hrun) hj).crash n
  rw [hback] at hend
  have hlast : (w.run config (front.map .op)).SafeRun config [.crash o j n] := by
    refine ⟨fun s₃ hs₃ => ?_, trivial⟩
    rw [hstore₁] at hs₃
    cases hs₃
    refine ⟨htorn.safe, ?_⟩
    unfold Survives
    rw [hdisk₁, hrun, hback]
    exact ⟨hj, hend.2⟩
  obtain ⟨hnone, hdisk⟩ :
      ((w.run config (front.map .op)).step config (.crash o j n)).store = none ∧
        ((w.run config (front.map .op)).step config (.crash o j n)).disk = (d₂.back j).crash n :=
    step_crash hstore₁ (hdisk₁ ▸ hrun)
  refine ⟨front, o, rest, s₁, d₁, j, htorn, hsafes.append hlast, ?_, ?_, hend⟩
  · unfold dying
    rw [run_append]
    exact hnone
  · unfold dying
    rw [run_append]
    exact hdisk.trans (congrArg (Disk.crash · n) hback)

theorem recorded_dying {front : List Op} :
    recorded (dying front o k n) = DurableStore.recorded front + o.records := by
  unfold dying
  rw [recorded_append, recorded_course]
  rfl

end StoreHistory

end Backpressure
