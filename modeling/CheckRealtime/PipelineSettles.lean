import CheckRealtime.PipelineChanges
import CheckRealtime.PipelineTimes
import Mathlib.Tactic.Ring
/-!
# PipelineSettles — once nothing new comes in, the pipeline runs dry

A delayed check is queued again and can be delayed again, so that the work left is not the number of pending checks: every
row that is written puts the other checks of its file back inside the window.  `St.measure` counts that in.  Every step that
moves anything lowers it, in whatever order the threads take their turns (`measure_step`), so the work after the last event
is bounded (`work_bounded`).
-/
namespace CheckRealtime

open TaskTimerManager (pending)

/-! ## The work left -/

/-- The labels that bring nothing new in. -/
def Label.quiet : Label → Bool
  | .tick _ | .watch _ | .pass | .take | .enter | .checksum _ _ | .work => true
  | _                                                                    => false

/-- A check of that file at that time would be put off. -/
def Config.early (C : Config) (db : DbMap) (now : Int) (f : Str) : Bool :=
  match db f with
  | none         => false
  | some (_, ts) => C.delays now ts

/-- In a call that can still arm a timer. -/
def Pc.pendingCheck : Pc → Bool
  | .start _ | .getTask _ _ | .cancelTask _ _ _ | .addTask _ _ => true
  | _                                                          => false

/-- In a call that can still write the row. -/
def Pc.writing : Pc → Bool
  | .newFile _ | .insertRow _ _ | .check _ _ | .updateRow _ _ => true
  | _                                                         => false

/-- Steps to the end of the call, the arming of a timer counted as what the timer still has before it. -/
def Pc.rank : Pc → Nat
  | .idle             => 0
  | .start _          => 1
  | .newFile _        => 4
  | .insertRow _ _    => 3
  | .alertCreated _   => 2
  | .getTask _ _      => 7
  | .cancelTask _ _ _ => 6
  | .addTask _ _      => 5
  | .setTask _ _      => 1
  | .check _ _        => 5
  | .alertDeleted _   => 3
  | .delRow _         => 2
  | .updateRow _ _    => 3
  | .alertChanged _   => 2
  | .delTask _        => 1

/-- Whether the call under way would be put off. -/
def Pc.earlyStart (pc : Pc) (C : Config) (db : DbMap) (now : Int) : Bool :=
  match pc with
  | .start n => C.early db now n.name
  | _        => false

section

variable (C : Config) (s : St DbMap)

/-- The checks asked for and not yet decided, wherever they are. -/
def St.checks : Nat :=
  s.kernel.length + s.queue.length + (pending s.judge.callbacks).length + s.pc.pendingCheck.toNat

/-- Those that could still be put off: a timer is judged at the time it fires. -/
def St.earlyChecks : Nat :=
  s.kernel.length + s.queue.countP (fun n => C.early s.judge.db s.now n.name) +
    (pending s.judge.callbacks).countP (fun t => C.early s.judge.db t.expiration t.userData.name) +
      (s.pc.earlyStart C s.judge.db s.now).toNat

/-- A call that can still write the row may put every other check back inside the window. -/
def St.potential : Nat := s.checks * s.checks + if s.pc.writing then s.checks else s.earlyChecks C

def St.place : Nat := 3 * s.kernel.length + 2 * s.queue.length + 3 * (pending s.judge.callbacks).length + s.pc.rank

def St.measure : Nat := 8 * s.potential C + s.place

/-- A step that moves something. -/
def busy (s : St DbMap) : Label → Bool
  | .tick _      => false
  | .watch count => decide (0 < (s.kernel.take count).length)
  | .pass        => decide (0 < (TaskTimerManager.execute s.judge.callbacks s.now).1.length)
  | _            => true

end

/-- Rows, and the time the call under way has read, are not ahead of the clock. -/
structure Stamped (C : Config) (now : Int) (db : DbMap) (pc : Pc) : Prop where
  low    : -2 ^ 31 ≤ now
  rows   : ∀ f sum ts, db f = some (sum, ts) → ts ≤ now
  arming : ∀ n a, pc.arming = some (n, a) →
    -2 ^ 31 ≤ a ∧ a ≤ now ∧ 0 ≤ C.interval ∧ ∀ sum ts, db n.name = some (sum, ts) → ts ≤ a

/-! ## What is early -/

section

variable {C : Config} {db db' : DbMap} {now now' : Int} {f : Str}

/-- Time only ends it. -/
theorem early_mono (h : now ≤ now') (he : C.early db now' f = true) : C.early db now f = true := by
  unfold Config.early at he ⊢
  split at he
  · cases he
  · simp only [Config.delays, Bool.and_eq_true, decide_eq_true_eq] at he ⊢
    exact ⟨he.1, by omega⟩

theorem early_delRow (g : Str) (he : C.early (Function.update db g none) now f = true) : C.early db now f = true := by
  unfold Config.early at he ⊢
  by_cases hfg : f = g
  · rw [hfg, Function.update_self] at he
    cases he
  · rwa [Function.update_of_ne hfg] at he

theorem early_of_row {sum : Str} {ts : Int} (h : db f = some (sum, ts)) : C.early db now f = C.delays now ts := by
  rw [Config.early, h]

/-- A check that asks again after the interval is not early. -/
theorem not_early_of_stamped (h : ∀ sum ts, db f = some (sum, ts) → ts ≤ now) :
    C.early db (now + C.interval) f = false := by
  unfold Config.early
  split
  · rfl
  · rename_i sum ts hrow
    have := h sum ts hrow
    simp only [Config.delays, Bool.and_eq_false_iff, decide_eq_false_iff_not]
    exact Or.inr (by omega)

end

theorem toNat_le_of_imp {a b : Bool} (h : a = true → b = true) : a.toNat ≤ b.toNat := by
  cases a with
  | false => exact Nat.zero_le _
  | true => rw [h rfl]

theorem earlyStart_le (pc : Pc) (C : Config) (db : DbMap) (now : Int) :
    (pc.earlyStart C db now).toNat ≤ pc.pendingCheck.toNat := by
  refine toNat_le_of_imp (fun h => ?_)
  cases pc with
  | start n => rfl
  | _ => cases h

theorem earlyChecks_le (C : Config) (s : St DbMap) : s.earlyChecks C ≤ s.checks := by
  have hq := List.countP_le_length (p := fun n : AnalysisNode => C.early s.judge.db s.now n.name) (l := s.queue)
  have ht := List.countP_le_length (p := fun t : TaskTimer AnalysisNode => C.early s.judge.db t.expiration t.userData.name)
    (l := pending s.judge.callbacks)
  have hs := earlyStart_le s.pc C s.judge.db s.now
  rw [St.earlyChecks, St.checks]
  omega

/-! ## The stamps -/

section

variable {C : Config} {now : Int} {db : DbMap} {pc pc' : Pc}

theorem Stamped.move (h : Stamped C now db pc) (hpc : ∀ n a, pc'.arming = some (n, a) → pc.arming = some (n, a)) :
    Stamped C now db pc' :=
  ⟨h.low, h.rows, fun n a ha => h.arming n a (hpc n a ha)⟩

theorem Stamped.write (h : Stamped C now db pc) (hpc : pc'.arming = none) (f : Str) (w : Option Row)
    (hw : ∀ r, w = some r → r.2 = now) : Stamped C now (Function.update db f w) pc' where
  low := h.low
  rows g sum ts hr := by
    by_cases hg : g = f
    · rw [hg, Function.update_self] at hr
      exact (hw _ hr).le
    · rw [Function.update_of_ne hg] at hr
      exact h.rows g sum ts hr
  arming n a ha := by rw [hpc] at ha; cases ha

end

theorem stamped_step (C : Config) (s s' : St DbMap) (l : Label) (hs : StepCase C mapDb s l s')
    (h : Stamped C s.now s.judge.db s.pc) : Stamped C s'.now s'.judge.db s'.pc := by
  have hnone : ∀ {pc : Pc}, pc.arming = none → ∀ n a, pc.arming = some (n, a) → s.pc.arming = some (n, a) :=
    fun hpc n a ha => by rw [hpc] at ha; cases ha
  cases hs with
  | outside l s' hl hnow hq hpc hj => rw [hnow, hpc, hj]; exact h
  | tick t ht =>
    refine ⟨h.low.trans ht, fun f sum ts hr => (h.rows f sum ts hr).trans ht, fun n a ha => ?_⟩
    obtain ⟨hl, ha, hrest⟩ := h.arming n a ha
    exact ⟨hl, ha.trans ht, hrest⟩
  | watch count => exact h
  | pass => exact h
  | delay n db sum ts hpc hf hd =>
    obtain ⟨rfl, hrow⟩ := mapDb_find_inv hf
    refine ⟨h.low, h.rows, fun n' a ha => ?_⟩
    cases ha
    have hts := h.rows _ _ _ hrow
    simp only [Config.delays, Bool.and_eq_true, decide_eq_true_eq] at hd
    exact ⟨h.low, Int.le_refl _, by omega, fun sum' ts' hr => h.rows _ _ _ hr⟩
  | found n now old hpc hold => exact h.move (fun n' a ha => by rw [hpc]; exact ha)
  | missing n now hpc hold => exact h.move (fun n' a ha => by rw [hpc]; exact ha)
  | cancelTask n now old hpc => exact h.move (fun n' a ha => by rw [hpc]; exact ha)
  | insertRow n checksum hpc => exact h.write rfl _ _ (fun r hr => by cases hr; rfl)
  | updateRow n checksum hpc => exact h.write rfl _ _ (fun r hr => by
      obtain ⟨-, -, rfl⟩ := Option.map_eq_some_iff.1 hr; rfl)
  | delRow n hpc => exact h.write rfl _ _ (fun r hr => by cases hr)
  | new n db hpc hf =>
    obtain ⟨rfl, -⟩ := mapDb_find_inv hf
    exact h.move (hnone rfl)
  | check n db sum ts hpc hf hd =>
    obtain ⟨rfl, -⟩ := mapDb_find_inv hf
    exact h.move (hnone rfl)
  | _ => exact h.move (hnone rfl)

/-! ## Every step -/

/-- The second summand of the potential. -/
def St.risk (C : Config) (s : St DbMap) : Nat := if s.pc.writing then s.checks else s.earlyChecks C

theorem risk_le (C : Config) (s : St DbMap) : s.risk C ≤ s.checks := by
  rw [St.risk]
  split
  · exact Nat.le_refl _
  · exact earlyChecks_le C s

theorem measure_le {C : Config} {s s' : St DbMap} {k : Nat} (hc : s'.checks ≤ s.checks) (hr : s'.risk C ≤ s.risk C)
    (hp : s'.place + k ≤ s.place) : s'.measure C + k ≤ s.measure C := by
  have hsq := Nat.mul_le_mul hc hc
  rw [St.risk, St.risk] at hr
  rw [St.measure, St.measure, St.potential, St.potential]
  omega

/-- **A check that is decided pays for all the others being put off once more.** -/
theorem measure_decided {C : Config} {s s' : St DbMap} (hc : s'.checks + 1 ≤ s.checks) (hp : s'.place ≤ s.place + 4) :
    s'.measure C + 1 ≤ s.measure C := by
  have hrisk := risk_le C s'
  have hsq := Nat.mul_le_mul hc hc
  have hexp : (s'.checks + 1) * (s'.checks + 1) = s'.checks * s'.checks + 2 * s'.checks + 1 := by ring
  rw [hexp] at hsq
  rw [St.risk] at hrisk
  rw [St.measure, St.measure, St.potential, St.potential]
  omega

/-- A check that is put off cannot be put off again by the row it saw. -/
theorem measure_delayed {C : Config} {s s' : St DbMap} (hc : s'.checks ≤ s.checks) (hr : s'.risk C + 1 ≤ s.risk C)
    (hp : s'.place ≤ s.place + 6) : s'.measure C + 1 ≤ s.measure C := by
  have hsq := Nat.mul_le_mul hc hc
  rw [St.risk, St.risk] at hr
  rw [St.measure, St.measure, St.potential, St.potential]
  omega

theorem risk_early {C : Config} {s : St DbMap} (h : s.pc.writing = false) : s.risk C = s.earlyChecks C := by
  rw [St.risk, h, if_neg Bool.false_ne_true]

theorem risk_writing {C : Config} {s : St DbMap} (h : s.pc.writing = true) : s.risk C = s.checks := by
  rw [St.risk, h, if_pos rfl]

/-- Outside the calls that can write, the risk is what the early checks come to. -/
theorem risk_mono {C : Config} {s s' : St DbMap} (hpc : s'.pc = s.pc) (hc : s'.checks ≤ s.checks)
    (he : s'.earlyChecks C ≤ s.earlyChecks C) : s'.risk C ≤ s.risk C := by
  cases hw : s.pc.writing with
  | true => rw [risk_writing hw, risk_writing (hpc ▸ hw)]; exact hc
  | false => rw [risk_early hw, risk_early (hpc ▸ hw)]; exact he

/-- The clock alone moves nothing. -/
theorem measure_tick (C : Config) (s : St DbMap) (t : Int) (ht : s.now ≤ t) :
    St.measure C { s with now := t } ≤ s.measure C := by
  have hq : s.queue.countP (fun n => C.early s.judge.db t n.name) ≤
      s.queue.countP (fun n => C.early s.judge.db s.now n.name) :=
    List.countP_mono_left (fun n _ h => early_mono ht h)
  have hs : (s.pc.earlyStart C s.judge.db t).toNat ≤ (s.pc.earlyStart C s.judge.db s.now).toNat := by
    refine toNat_le_of_imp (fun h => ?_)
    cases hpc : s.pc with
    | start n => rw [hpc] at h; exact early_mono ht h
    | _ => rw [hpc] at h; cases h
  have he : St.earlyChecks C { s with now := t } ≤ s.earlyChecks C := by
    simp only [St.earlyChecks]
    omega
  exact measure_le (k := 0) (Nat.le_refl _) (risk_mono rfl (Nat.le_refl _) he) (Nat.le_refl _)

/-- `watch()` moves events on, or drops them. -/
theorem measure_watch (C : Config) (s : St DbMap) (count : Nat) :
    St.measure C { s with kernel := s.kernel.drop count
                          queue  := s.queue ++ (s.kernel.take count).filterMap (watchEvent s.hash) } +
      (s.kernel.take count).length ≤ s.measure C := by
  have hlen : s.kernel.length = (s.kernel.take count).length + (s.kernel.drop count).length := by
    rw [← List.length_append, List.take_append_drop]
  have hsome : ((s.kernel.take count).filterMap (watchEvent s.hash)).length ≤ (s.kernel.take count).length :=
    List.length_filterMap_le _ _
  have hcount := List.countP_le_length (p := fun n : AnalysisNode => C.early s.judge.db s.now n.name)
    (l := (s.kernel.take count).filterMap (watchEvent s.hash))
  refine measure_le ?_ (risk_mono rfl ?_ ?_) ?_
  · simp only [St.checks, List.length_append]
    omega
  · simp only [St.checks, List.length_append]
    omega
  · simp only [St.earlyChecks, List.countP_append]
    omega
  · simp only [St.place, List.length_append]
    omega

/-- A pass moves the timers that are due. -/
theorem measure_pass (C : Config) (s : St DbMap) (hl : -2 ^ 31 ≤ s.now) (hh : s.now < 2 ^ 31) :
    St.measure C { s with
        queue := s.queue ++ (TaskTimerManager.execute s.judge.callbacks s.now).1.map (·.userData)
        judge := { s.judge with callbacks := (TaskTimerManager.execute s.judge.callbacks s.now).2 } } +
      (TaskTimerManager.execute s.judge.callbacks s.now).1.length ≤ s.measure C := by
  have hcalled : (TaskTimerManager.execute s.judge.callbacks s.now).1 =
      (pending s.judge.callbacks).filter (fun t => decide (t.expiration ≤ s.now)) := by
    rw [TaskTimerManager.execute, TaskTimerManager.executeAt_fst, toInt_of_int ⟨hl, hh⟩]
  have hleft : pending (TaskTimerManager.execute s.judge.callbacks s.now).2 =
      (pending s.judge.callbacks).filter (fun t => !decide (t.expiration ≤ s.now)) := by
    rw [TaskTimerManager.execute, TaskTimerManager.pending_executeAt, toInt_of_int ⟨hl, hh⟩]
    exact List.filter_congr (fun t _ => by simp only [← Int.not_le, decide_not])
  have hlen : (pending s.judge.callbacks).length =
      (TaskTimerManager.execute s.judge.callbacks s.now).1.length +
        (pending (TaskTimerManager.execute s.judge.callbacks s.now).2).length := by
    rw [hcalled, hleft, ← List.length_append]
    exact (List.filter_append_perm _ _).length_eq.symm
  -- a timer whose check would be put off now was early when it was armed
  have hearly : ((TaskTimerManager.execute s.judge.callbacks s.now).1.map (·.userData)).countP
        (fun n => C.early s.judge.db s.now n.name) +
      (pending (TaskTimerManager.execute s.judge.callbacks s.now).2).countP
        (fun t => C.early s.judge.db t.expiration t.userData.name) ≤
      (pending s.judge.callbacks).countP (fun t => C.early s.judge.db t.expiration t.userData.name) := by
    have hsplit := List.countP_eq_countP_filter_add (pending s.judge.callbacks)
      (fun t => C.early s.judge.db t.expiration t.userData.name) (fun t => decide (t.expiration ≤ s.now))
    rw [hsplit, hleft, List.countP_map, hcalled]
    refine Nat.add_le_add_right (List.countP_mono_left (fun t ht h => ?_)) _
    rw [List.mem_filter, decide_eq_true_eq] at ht
    exact early_mono ht.2 h
  refine measure_le ?_ (risk_mono rfl ?_ ?_) ?_
  · simp only [St.checks, List.length_append, List.length_map]
    omega
  · simp only [St.checks, List.length_append, List.length_map]
    omega
  · simp only [St.earlyChecks, List.countP_append]
    omega
  · simp only [St.place, List.length_append, List.length_map]
    omega

/-- The new timer stands for the call that armed it, and is not early. -/
theorem measure_addTask (C : Config) (s : St DbMap) (n : AnalysisNode) (now : Int) (hpc : s.pc = .addTask n now)
    (hs : Stamped C s.now s.judge.db s.pc) (hh : s.now + C.interval < 2 ^ 31) :
    St.measure C { s with
      pc    := .setTask n (C.newTask s.judge.globalId now n.dir n.name)
      judge := { s.judge with
        callbacks := TaskTimerManager.add s.judge.callbacks (C.newTask s.judge.globalId now n.dir n.name)
        globalId  := s.judge.globalId + 1 } } + 1 ≤ s.measure C := by
  obtain ⟨hlow, hle, hI, hrow⟩ := hs.arming n now (by rw [hpc]; rfl)
  have hexp : (C.newTask s.judge.globalId now n.dir n.name).expiration = now + C.interval := by
    show toInt (C.interval + now) = _
    rw [toInt_of_int ⟨by omega, by omega⟩, Int.add_comm]
  have hperm := TaskTimerManager.pending_add_perm s.judge.callbacks (C.newTask s.judge.globalId now n.dir n.name)
  have hlen := hperm.length_eq
  have hcount := hperm.countP_eq (fun t => C.early s.judge.db t.expiration t.userData.name)
  have hname : (C.newTask s.judge.globalId now n.dir n.name).userData.name = n.name := rfl
  rw [List.length_cons] at hlen
  rw [List.countP_cons, hexp, hname, not_early_of_stamped hrow, if_neg Bool.false_ne_true, Nat.add_zero] at hcount
  refine measure_le ?_ ?_ ?_
  · simp only [St.checks, hlen, hpc, Pc.pendingCheck, Bool.toNat_true, Bool.toNat_false]
    omega
  · rw [risk_early (s := s) (by rw [hpc]; rfl), risk_early (by rfl)]
    simp only [St.earlyChecks, hcount, hpc, Pc.earlyStart]
    omega
  · simp only [St.place, hlen, hpc, Pc.rank]
    omega

/-- A step of `do_analysis` that leaves the checks and the table alone. -/
theorem measure_rank (C : Config) (s : St DbMap) (j : Judge DbMap) (pc : Pc) (hcs : j.callbacks = s.judge.callbacks)
    (hdb : j.db = s.judge.db) (hw : pc.writing = true → s.pc.writing = true)
    (hp : pc.pendingCheck = s.pc.pendingCheck) (he : pc.earlyStart C s.judge.db s.now = false)
    (hr : pc.rank + 1 ≤ s.pc.rank) : St.measure C { s with pc := pc, judge := j } + 1 ≤ s.measure C := by
  have hc : St.checks { s with pc := pc, judge := j } = s.checks := by simp only [St.checks, hcs, hp]
  refine measure_le (Nat.le_of_eq hc) ?_ ?_
  · cases hw' : s.pc.writing with
    | true => rw [risk_writing hw', ← hc]; exact risk_le C _
    | false =>
      rw [risk_early hw', risk_early (s := { s with pc := pc, judge := j }) (by
        cases hpw : pc.writing with
        | true => rw [hw hpw] at hw'; cases hw'
        | false => rfl)]
      simp only [St.earlyChecks, hcs, hdb, he, Bool.toNat_false]
      omega
  · simp only [St.place, hcs]
    omega

/-- A step that may write the table, out of the calls that can. -/
theorem measure_write (C : Config) (s : St DbMap) (j : Judge DbMap) (pc : Pc) (hcs : j.callbacks = s.judge.callbacks)
    (hw : s.pc.writing = true) (hp : pc.pendingCheck = s.pc.pendingCheck) (hr : pc.rank + 1 ≤ s.pc.rank) :
    St.measure C { s with pc := pc, judge := j } + 1 ≤ s.measure C := by
  have hc : St.checks { s with pc := pc, judge := j } = s.checks := by simp only [St.checks, hcs, hp]
  refine measure_le (Nat.le_of_eq hc) ?_ ?_
  · rw [risk_writing hw, ← hc]
    exact risk_le C _
  · simp only [St.place, hcs]
    omega

theorem measure_delRow (C : Config) (s : St DbMap) (n : AnalysisNode) (hpc : s.pc = .delRow n) :
    St.measure C { s with pc := .delTask n, judge := { s.judge with db := Function.update s.judge.db n.name none } } + 1 ≤
      s.measure C := by
  have hq : s.queue.countP (fun m => C.early (Function.update s.judge.db n.name none) s.now m.name) ≤
      s.queue.countP (fun m => C.early s.judge.db s.now m.name) :=
    List.countP_mono_left (fun m _ h => early_delRow n.name h)
  have ht : (pending s.judge.callbacks).countP
        (fun t => C.early (Function.update s.judge.db n.name none) t.expiration t.userData.name) ≤
      (pending s.judge.callbacks).countP (fun t => C.early s.judge.db t.expiration t.userData.name) :=
    List.countP_mono_left (fun t _ h => early_delRow n.name h)
  refine measure_le ?_ ?_ ?_
  · simp only [St.checks, hpc, Pc.pendingCheck]
    omega
  · rw [risk_early (s := s) (by rw [hpc]; rfl), risk_early (by rfl)]
    simp only [St.earlyChecks, hpc, Pc.earlyStart]
    omega
  · simp only [St.place, hpc, Pc.rank]
    omega

theorem measure_cancelTask (C : Config) (s : St DbMap) (n : AnalysisNode) (now : Int) (old : TaskTimer AnalysisNode)
    (hpc : s.pc = .cancelTask n now old) : St.measure C
      { s with pc := .addTask n now, judge := { s.judge with callbacks := TaskTimerManager.cancel s.judge.callbacks old } } +
        1 ≤ s.measure C := by
  have hsub : (pending (TaskTimerManager.cancel s.judge.callbacks old)).Sublist (pending s.judge.callbacks) := by
    rw [TaskTimerManager.pending_cancel]
    exact List.eraseP_sublist
  have hlen := hsub.length_le
  have hcount := hsub.countP_le (p := fun t => C.early s.judge.db t.expiration t.userData.name)
  refine measure_le ?_ ?_ ?_
  · simp only [St.checks, hpc, Pc.pendingCheck]
    omega
  · rw [risk_early (s := s) (by rw [hpc]; rfl), risk_early (by rfl)]
    simp only [St.earlyChecks, hpc, Pc.earlyStart]
    omega
  · simp only [St.place, hpc, Pc.rank]
    omega

theorem measure_take (C : Config) (s : St DbMap) (n : AnalysisNode) (q : List AnalysisNode) (hq : s.queue = n :: q)
    (hpc : s.pc = .idle) : St.measure C { s with queue := q, pc := .start n } + 1 ≤ s.measure C := by
  refine measure_le ?_ ?_ ?_
  · simp only [St.checks, hq, hpc, List.length_cons, Pc.pendingCheck, Bool.toNat_true, Bool.toNat_false]
    omega
  · rw [risk_early (s := s) (by rw [hpc]; rfl), risk_early (by rfl)]
    have hhead : (C.early s.judge.db s.now n.name).toNat = if C.early s.judge.db s.now n.name = true then 1 else 0 := by
      cases C.early s.judge.db s.now n.name <;> rfl
    simp only [St.earlyChecks, hq, hpc, List.countP_cons, Pc.earlyStart, hhead]
    omega
  · simp only [St.place, hq, hpc, List.length_cons, Pc.rank]
    omega

/-- A call that leaves the branch that could arm a timer. -/
theorem measure_enter (C : Config) (s : St DbMap) (n : AnalysisNode) (pc : Pc) (hpc : s.pc = .start n)
    (hp : pc.pendingCheck = false) (hr : pc.rank ≤ 5) : St.measure C { s with pc := pc } + 1 ≤ s.measure C := by
  have hstart : s.pc.pendingCheck = true := by rw [hpc]; rfl
  have hrank : s.pc.rank = 1 := by rw [hpc]; rfl
  refine measure_decided ?_ ?_
  · simp only [St.checks, hstart, hp, Bool.toNat_true, Bool.toNat_false]
    omega
  · simp only [St.place, hrank]
    omega

/-- **Every step that moves anything lowers the measure, and no step raises it.** -/
theorem measure_step (C : Config) (s s' : St DbMap) (l : Label) (hs : StepCase C mapDb s l s') (hquiet : l.quiet = true)
    (h : Stamped C s.now s.judge.db s.pc) (hnow : s.now < 2 ^ 31) (hh : s.now + C.interval < 2 ^ 31) :
    s'.measure C + (if busy s l then 1 else 0) ≤ s.measure C := by
  have hmoves : ∀ k : Nat, (if decide (0 < k) = true then 1 else 0) ≤ k := fun k => by
    split
    · rename_i hk
      exact of_decide_eq_true hk
    · exact Nat.zero_le k
  have hone : ∀ {m : Nat}, m + 1 ≤ s.measure C → m + (if true = true then 1 else 0) ≤ s.measure C := fun h => h
  cases hs with
  | outside l s' hl =>
    cases l with
    | addWatch | change | unnamed | startThreads => cases hquiet
    | _ => cases hl
  | scanFile n hpc => cases hquiet
  | tick t ht => exact measure_tick C s t ht
  | watch count => exact (Nat.add_le_add_left (hmoves _) _).trans (measure_watch C s count)
  | pass => exact (Nat.add_le_add_left (hmoves _) _).trans (measure_pass C s h.low hnow)
  | take n q hq hpc => exact hone (measure_take C s n q hq hpc)
  | skip n hpc hp => exact hone (measure_enter C s n .idle hpc rfl (Nat.zero_le _))
  | new n db hpc hf =>
    obtain ⟨rfl, -⟩ := mapDb_find_inv hf
    exact hone (measure_enter C s n (.newFile n) hpc rfl (Nat.le_of_ble_eq_true rfl))
  | check n db sum ts hpc hf hd =>
    obtain ⟨rfl, -⟩ := mapDb_find_inv hf
    exact hone (measure_enter C s n (.check n sum) hpc rfl (Nat.le_of_ble_eq_true rfl))
  | delay n db sum ts hpc hf hd =>
    obtain ⟨rfl, hrow⟩ := mapDb_find_inv hf
    refine hone (measure_delayed ?_ ?_ ?_)
    · simp only [St.checks, hpc, Pc.pendingCheck]
      omega
    · rw [risk_early (s := s) (by rw [hpc]; rfl), risk_early (by rfl)]
      simp only [St.earlyChecks, hpc, Pc.earlyStart, early_of_row hrow, hd, Bool.toNat_true, Bool.toNat_false]
      omega
    · simp only [St.place, hpc, Pc.rank]
      omega
  | found n now old hpc hold =>
    exact hone (measure_rank C s s.judge _ rfl rfl (fun h => by cases h) (by rw [hpc]; rfl) rfl (by rw [hpc]; exact Nat.le_refl _))
  | missing n now hpc hold =>
    exact hone (measure_rank C s s.judge _ rfl rfl (fun h => by cases h) (by rw [hpc]; rfl) rfl (by rw [hpc]; exact Nat.le_of_ble_eq_true rfl))
  | cancelTask n now old hpc => exact hone (measure_cancelTask C s n now old hpc)
  | addTask n now hpc => exact hone (measure_addTask C s n now hpc h hh)
  | delRow n hpc => exact hone (measure_delRow C s n hpc)
  | insertRow n checksum hpc | updateRow n checksum hpc =>
    exact hone (measure_write C s _ _ rfl (by rw [hpc]; rfl) (by rw [hpc]; rfl) (by rw [hpc]; exact Nat.le_refl _))
  | gone n sum ob hpc ha =>
    exact hone (measure_write C s s.judge _ rfl (by rw [hpc]; rfl) (by rw [hpc]; rfl) (by rw [hpc]; exact Nat.le_of_ble_eq_true rfl))
  | differs n sum ob hpc ha hc =>
    exact hone (measure_write C s s.judge _ rfl (by rw [hpc]; rfl) (by rw [hpc]; rfl) (by rw [hpc]; exact Nat.le_of_ble_eq_true rfl))
  | same n sum ob hpc ha hc =>
    exact hone (measure_write C s s.judge _ rfl (by rw [hpc]; rfl) (by rw [hpc]; rfl) (by rw [hpc]; exact Nat.le_of_ble_eq_true rfl))
  | looked n ob hpc =>
    exact hone (measure_write C s s.judge _ rfl (by rw [hpc]; rfl) (by rw [hpc]; rfl) (by rw [hpc]; exact Nat.le_refl _))
  | alertCreated n hpc | setTask n t hpc | alertDeleted n hpc | alertChanged n hpc | delTask n hpc =>
    exact hone (measure_rank C s _ _ rfl rfl (fun h => by cases h) (by rw [hpc]; rfl) rfl (by rw [hpc]; exact Nat.le_of_ble_eq_true rfl))

/-! ## Whole runs -/

/-- The label brings nothing new in, and the sums of the clock fit an `int`. -/
def calm (C : Config) (s : St DbMap) (l : Label) : Bool :=
  l.quiet && decide (s.now < 2 ^ 31) && decide (s.now + C.interval < 2 ^ 31)

theorem run_stamped (C : Config) (now : Int) (db : DbMap) (hl : -2 ^ 31 ≤ now)
    (hdb : ∀ f sum ts, db f = some (sum, ts) → ts ≤ now) (ls : List Label) (s : St DbMap)
    (h : Machine.run (step C mapDb) (initial now db) ls = some s) : Stamped C s.now s.judge.db s.pc :=
  have h0 : Stamped C (initial now db).now (initial now db).judge.db (initial now db).pc :=
    ⟨hl, hdb, fun n a ha => by cases ha⟩
  Machine.run_inv (step C mapDb) (fun s => Stamped C s.now s.judge.db s.pc)
    (fun s l s' hi hs => stamped_step C s s' l (stepCase_of_step C mapDb s s' l hs) hi) h0 h

theorem rank_le (pc : Pc) : pc.rank ≤ 7 := by
  cases pc <;> exact Nat.le_of_ble_eq_true rfl

theorem measure_le_checks (C : Config) (s : St DbMap) :
    s.measure C ≤ 8 * (s.checks * s.checks + s.checks) + 3 * s.checks + 7 := by
  have hrisk := risk_le C s
  have hrank := rank_le s.pc
  have hplace : s.place ≤ 3 * s.checks + 7 := by
    rw [St.place, St.checks]
    omega
  rw [St.risk] at hrisk
  rw [St.measure, St.potential]
  omega

/-- **Once nothing new comes in, the work left is bounded**: with `N` checks asked for, no order of the threads, no time
that passes and nothing that files do meanwhile gives them more than so many steps. -/
theorem work_bounded (C : Config) (now : Int) (db : DbMap) (hl : -2 ^ 31 ≤ now)
    (hdb : ∀ f sum ts, db f = some (sum, ts) → ts ≤ now) (ls₁ ls₂ : List Label) (s s' : St DbMap)
    (h₁ : Machine.run (step C mapDb) (initial now db) ls₁ = some s) (h₂ : Machine.run (step C mapDb) s ls₂ = some s')
    (hm : Machine.Meets (step C mapDb) (fun s l => calm C s l = true) s ls₂) :
    Machine.busySteps (step C mapDb) busy s ls₂ ≤ 8 * (s.checks * s.checks + s.checks) + 3 * s.checks + 7 := by
  have hle := (Machine.busySteps_le (step C mapDb) busy (fun s l => calm C s l = true)
    (fun s => Stamped C s.now s.judge.db s.pc)
    (fun s => s.measure C) (fun s l s' hc hi hs => by
      have hcase := stepCase_of_step C mapDb s s' l hs
      simp only [calm, Bool.and_eq_true, decide_eq_true_eq] at hc
      exact ⟨stamped_step C s s' l hcase hi, measure_step C s s' l hcase hc.1.1 hi hc.1.2 hc.2⟩)
    s (run_stamped C now db hl hdb ls₁ s h₁) ls₂ s' hm h₂).2
  exact (Nat.le_add_right _ _).trans (hle.trans (measure_le_checks C s))

/-- The second of two calls goes on, its timer fires, and the check is made. -/
def lateCheck : List Label :=
  [.work, .work, .work, .tick 91, .pass, .take, .enter, .checksum (ascii "/w/f") emptyFile, .work, .work, .work]

theorem lateCheck_bounded : ∃ s s', Machine.run (step minuteConfig mapDb) (initial 0 oldRow) twoChanges = some s ∧
    Machine.run (step minuteConfig mapDb) s lateCheck = some s' ∧ s'.pc = .idle ∧
      Machine.busySteps (step minuteConfig mapDb) busy s lateCheck ≤ 61 := by
  refine ⟨_, _, rfl, rfl, rfl, work_bounded minuteConfig 0 oldRow (by decide) (fun f sum ts h => ?_) twoChanges lateCheck _ _
    rfl rfl (.of_meets _ _ _ _ rfl)⟩
  simp only [oldRow] at h
  split at h
  · cases h
    exact Int.le_refl 0
  · cases h

end CheckRealtime
