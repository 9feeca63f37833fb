import CheckRealtime.PipelineSteps
/-!
# PipelineTasks — the armed timers and the task map, over whole runs

`TaskStep` says once what any step of the machine does to the tasks (the armed timers, `_taskmap` and `global_id`); the
invariants here are case analyses over it.  `TasksNamed` is the global one: an id names one timer, wherever copies of it
are held, and a task on record for a file checks that file.

`onePending_iff` is about the delayed checks of a file: between two calls of `do_analysis` at most one is pending and it is
the one on record, in every run in which no call reaches `del_task` while a timer of its file is pending, and in no
other run.
-/
namespace CheckRealtime

variable {σ : Type}

/-! ## What a step does to the tasks -/

/-- Between the lookup of the old task and the record of the new one. -/
def Pc.replacing : Pc → Bool
  | .cancelTask _ _ _ => true
  | .addTask _ _      => true
  | .setTask _ _      => true
  | _                 => false

inductive TaskStep (C : Config) (s : St σ) : Label → St σ → Prop where
  /-- the tasks are left alone, and so is a replacement under way -/
  | same (l : Label) (s' : St σ) (htasks : s'.judge.toTasks = s.judge.toTasks)
      (hpc : s'.pc = s.pc ∨ (s.pc.replacing = false ∧ s'.pc.replacing = false)) : TaskStep C s l s'
  | pass (s' : St σ) (hpc : s'.pc = s.pc)
      (htasks : s'.judge.toTasks = { s.judge.toTasks with
        callbacks := (TaskTimerManager.execute s.judge.callbacks s.now).2 }) : TaskStep C s .pass s'
  | found (n : AnalysisNode) (now : Int) (old : TaskTimer AnalysisNode) (s' : St σ) (hpc : s.pc = .getTask n now)
      (hpc' : s'.pc = .cancelTask n now old) (hold : s.judge.taskmap n.name = some old)
      (htasks : s'.judge.toTasks = s.judge.toTasks) : TaskStep C s .work s'
  | missing (n : AnalysisNode) (now : Int) (s' : St σ) (hpc : s.pc = .getTask n now) (hpc' : s'.pc = .addTask n now)
      (hold : s.judge.taskmap n.name = none) (htasks : s'.judge.toTasks = s.judge.toTasks) : TaskStep C s .work s'
  | cancel (n : AnalysisNode) (now : Int) (old : TaskTimer AnalysisNode) (s' : St σ) (hpc : s.pc = .cancelTask n now old)
      (hpc' : s'.pc = .addTask n now)
      (htasks : s'.judge.toTasks = { s.judge.toTasks with
        callbacks := TaskTimerManager.cancel s.judge.callbacks old }) : TaskStep C s .work s'
  | add (n : AnalysisNode) (now : Int) (s' : St σ) (hpc : s.pc = .addTask n now)
      (hpc' : s'.pc = .setTask n (C.newTask s.judge.globalId now n.dir n.name))
      (htasks : s'.judge.toTasks = { s.judge.toTasks with
        callbacks := TaskTimerManager.add s.judge.callbacks (C.newTask s.judge.globalId now n.dir n.name)
        globalId  := s.judge.globalId + 1 }) : TaskStep C s .work s'
  | set (n : AnalysisNode) (t : TaskTimer AnalysisNode) (s' : St σ) (hpc : s.pc = .setTask n t) (hpc' : s'.pc = .idle)
      (htasks : s'.judge.toTasks = { s.judge.toTasks with
        taskmap := Function.update s.judge.taskmap n.name (some t) }) : TaskStep C s .work s'
  | del (n : AnalysisNode) (s' : St σ) (hpc : s.pc = .delTask n) (hpc' : s'.pc = .idle)
      (htasks : s'.judge.toTasks = { s.judge.toTasks with
        taskmap := Function.update s.judge.taskmap n.name none }) : TaskStep C s .work s'

/-- **Every step of the machine is one of these, as far as the tasks go.** -/
theorem taskStep_of_step (C : Config) (D : DbOps σ) (s : St σ) (l : Label) (s' : St σ) (h : step C D s l = some s') :
    TaskStep C s l s' := by
  cases stepCase_of_step C D s s' l h with
  | outside l s' hl hnow hq hpc hj => exact .same _ _ (by rw [hj]) (Or.inl hpc)
  | tick | watch => exact .same _ _ rfl (Or.inl rfl)
  | pass => exact .pass _ rfl rfl
  | scanFile n hpc => exact .same _ _ rfl (Or.inr ⟨by rw [hpc]; rfl, rfl⟩)
  | take n q hq hpc => exact .same _ _ rfl (Or.inr ⟨by rw [hpc]; rfl, rfl⟩)
  | skip n hpc | new n db hpc | delay n db sum ts hpc | check n db sum ts hpc =>
    exact .same _ _ rfl (Or.inr ⟨by rw [hpc]; rfl, rfl⟩)
  | looked n ob hpc | gone n sum ob hpc | differs n sum ob hpc | same n sum ob hpc =>
    exact .same _ _ rfl (Or.inr ⟨by rw [hpc]; rfl, rfl⟩)
  | insertRow n checksum hpc | updateRow n checksum hpc =>
    exact .same _ _ rfl (Or.inr ⟨by rw [hpc]; rfl, rfl⟩)
  | alertCreated n hpc | alertDeleted n hpc | delRow n hpc | alertChanged n hpc =>
    exact .same _ _ rfl (Or.inr ⟨by rw [hpc]; rfl, rfl⟩)
  | found n now old hpc hold => exact .found n now old _ hpc rfl hold rfl
  | missing n now hpc hold => exact .missing n now _ hpc rfl hold rfl
  | cancelTask n now old hpc => exact .cancel n now old _ hpc rfl rfl
  | addTask n now hpc => exact .add n now _ hpc rfl rfl
  | setTask n t hpc => exact .set n t _ hpc rfl rfl
  | delTask n hpc => exact .del n _ hpc rfl rfl

/-! ## An id names one timer -/

/-- The timer a replacement under way holds, with the node it is for. -/
def Pc.holding : Pc → Option (AnalysisNode × TaskTimer AnalysisNode)
  | .cancelTask n _ old => some (n, old)
  | .setTask n t        => some (n, t)
  | _                   => none

theorem holding_of_not_replacing (pc : Pc) (h : pc.replacing = false) : pc.holding = none := by
  cases pc with
  | cancelTask | addTask | setTask => cases h
  | _ => rfl

def Known (T : Tasks) (pc : Pc) (t : TaskTimer AnalysisNode) : Prop :=
  t ∈ TaskTimerManager.pending T.callbacks ∨ (∃ f, T.taskmap f = some t) ∨ ∃ n, pc.holding = some (n, t)

structure TasksNamed (T : Tasks) (pc : Pc) : Prop where
  fresh    : ∀ t, Known T pc t → t.taskId < T.globalId
  named    : ∀ t u, Known T pc t → Known T pc u → t.taskId = u.taskId → t = u
  onRecord : ∀ f t, T.taskmap f = some t → t.userData.name = f
  held     : ∀ n t, pc.holding = some (n, t) → t.userData.name = n.name

theorem tasksNamed_initial : TasksNamed noTasks .idle := by
  have hnone : ∀ t, ¬ Known noTasks .idle t := fun t h => by
    rcases h with h | ⟨f, h⟩ | ⟨n, h⟩ <;> cases h
  exact ⟨fun t h => absurd h (hnone t), fun t _ h => absurd h (hnone t), fun f t h => (by cases h),
    fun n t h => (by cases h)⟩

theorem TasksNamed.forget {T T' : Tasks} {pc pc' : Pc} (h : TasksNamed T pc) (hg : T'.globalId = T.globalId)
    (hk : ∀ t, Known T' pc' t → Known T pc t) (hr : ∀ f t, T'.taskmap f = some t → t.userData.name = f)
    (hh : ∀ n t, pc'.holding = some (n, t) → t.userData.name = n.name) : TasksNamed T' pc' :=
  ⟨fun t ht => hg ▸ h.fresh t (hk t ht), fun t u ht hu => h.named t u (hk t ht) (hk u hu), hr, hh⟩

/-- The timer added takes the next id, which no timer known has. -/
theorem TasksNamed.add {T : Tasks} {pc : Pc} (h : TasksNamed T pc) {n : AnalysisNode} {tt : TaskTimer AnalysisNode}
    (hid : tt.taskId = T.globalId) (hname : tt.userData.name = n.name) :
    TasksNamed { T with callbacks := TaskTimerManager.add T.callbacks tt, globalId := T.globalId + 1 } (.setTask n tt) := by
  have hk : ∀ t, Known { T with callbacks := TaskTimerManager.add T.callbacks tt, globalId := T.globalId + 1 }
      (.setTask n tt) t → t = tt ∨ Known T pc t := fun t ht => by
    rcases ht with ht | ht | ⟨m, ht⟩
    · exact ((TaskTimerManager.mem_pending_add _ _ t).1 ht).imp_right Or.inl
    · exact Or.inr (Or.inr (Or.inl ht))
    · cases ht; exact Or.inl rfl
  have hne : ∀ t, Known T pc t → t.taskId ≠ tt.taskId := fun t ht he => by
    have := h.fresh t ht
    rw [he, hid] at this
    exact absurd this (Int.lt_irrefl _)
  refine ⟨fun t ht => ?_, fun t u ht hu he => ?_, h.onRecord, fun m t ht => ?_⟩
  · rcases hk t ht with rfl | ht'
    · exact hid ▸ Int.lt_succ _
    · exact Int.lt_trans (h.fresh t ht') (Int.lt_succ _)
  · rcases hk t ht with ht' | ht' <;> rcases hk u hu with hu' | hu'
    · rw [ht', hu']
    · exact absurd (ht' ▸ he.symm) (hne u hu')
    · exact absurd (hu' ▸ he) (hne t ht')
    · exact h.named t u ht' hu' he
  · cases ht; exact hname

theorem tasksNamed_step (C : Config) (s s' : St σ) (l : Label) (hs : TaskStep C s l s')
    (h : TasksNamed s.judge.toTasks s.pc) : TasksNamed s'.judge.toTasks s'.pc := by
  cases hs with
  | same _ _ htasks hpc =>
    rw [htasks]
    rcases hpc with hpc | ⟨-, hpc'⟩
    · rw [hpc]; exact h
    · have hnone := holding_of_not_replacing _ hpc'
      refine h.forget rfl (fun t ht => ?_) h.onRecord (fun n t ht => by rw [hnone] at ht; cases ht)
      rcases ht with ht | ht | ⟨n, ht⟩
      · exact Or.inl ht
      · exact Or.inr (Or.inl ht)
      · rw [hnone] at ht; cases ht
  | pass _ hpc htasks =>
    rw [htasks, hpc]
    refine h.forget rfl (fun t ht => ?_) h.onRecord h.held
    refine ht.imp_left (fun ht => ?_)
    rw [TaskTimerManager.execute, TaskTimerManager.pending_executeAt] at ht
    exact (List.mem_filter.1 ht).1
  | found n now old _ hpc hpc' hold htasks =>
    rw [htasks, hpc']
    refine h.forget rfl (fun t ht => ?_) h.onRecord (fun m t ht => ?_)
    · rcases ht with ht | ht | ⟨m, ht⟩
      · exact Or.inl ht
      · exact Or.inr (Or.inl ht)
      · cases ht; exact Or.inr (Or.inl ⟨n.name, hold⟩)
    · cases ht; exact h.onRecord n.name old hold
  | missing n now _ hpc hpc' hold htasks =>
    rw [htasks, hpc']
    refine h.forget rfl (fun t ht => ?_) h.onRecord (fun m t ht => by cases ht)
    rcases ht with ht | ht | ⟨m, ht⟩
    · exact Or.inl ht
    · exact Or.inr (Or.inl ht)
    · cases ht
  | cancel n now old _ hpc hpc' htasks =>
    rw [htasks, hpc']
    refine h.forget rfl (fun t ht => ?_) h.onRecord (fun m t ht => by cases ht)
    rcases ht with ht | ht | ⟨m, ht⟩
    · exact Or.inl (TaskTimerManager.mem_of_mem_cancel _ _ t ht)
    · exact Or.inr (Or.inl ht)
    · cases ht
  | add n now _ hpc hpc' htasks =>
    rw [htasks, hpc']
    exact h.add rfl rfl
  | set n t _ hpc hpc' htasks =>
    rw [htasks, hpc']
    have hheld : s.pc.holding = some (n, t) := by rw [hpc]; rfl
    refine h.forget rfl (fun u hu => ?_) (fun f u hu => ?_) (fun m u hu => by cases hu)
    · rcases hu with hu | ⟨f, hu⟩ | ⟨m, hu⟩
      · exact Or.inl hu
      · by_cases hf : f = n.name
        · subst hf
          simp only [Function.update_self, Option.some.injEq] at hu
          subst hu; exact Or.inr (Or.inr ⟨n, hheld⟩)
        · exact Or.inr (Or.inl ⟨f, by simpa [Function.update_of_ne hf] using hu⟩)
      · cases hu
    · by_cases hf : f = n.name
      · subst hf
        simp only [Function.update_self, Option.some.injEq] at hu
        subst hu; exact h.held n t hheld
      · exact h.onRecord f u (by simpa [Function.update_of_ne hf] using hu)
  | del n _ hpc hpc' htasks =>
    rw [htasks, hpc']
    have hkeep : ∀ f u, Function.update s.judge.taskmap n.name none f = some u → s.judge.taskmap f = some u :=
      fun f u hu => by
        by_cases hf : f = n.name
        · subst hf; simp at hu
        · simpa [Function.update_of_ne hf] using hu
    refine h.forget rfl (fun u hu => ?_) (fun f u hu => h.onRecord f u (hkeep f u hu)) (fun m u hu => by cases hu)
    rcases hu with hu | ⟨f, hu⟩ | ⟨m, hu⟩
    · exact Or.inl hu
    · exact Or.inr (Or.inl ⟨f, hkeep f u hu⟩)
    · cases hu

/-- **In every state of every run an id names one timer, and a task on record checks the file it is on record for.** -/
theorem run_tasksNamed (C : Config) (D : DbOps σ) (now : Int) (db : σ) (ls : List Label) (s : St σ)
    (h : Machine.run (step C D) (initial now db) ls = some s) : TasksNamed s.judge.toTasks s.pc :=
  Machine.run_inv (step C D) (fun s => TasksNamed s.judge.toTasks s.pc)
    (fun s l s' hi hs => tasksNamed_step C s s' l (taskStep_of_step C D s l s' hs) hi) tasksNamed_initial h

/-- **A cancel never hits another file's check**: in every run, the cancel of a call for a file leaves the pending timers
alone or takes out one, and that one is for the file. -/
theorem cancel_own (C : Config) (D : DbOps σ) (start : Int) (db : σ) (ls : List Label) (s s' : St σ)
    (h : Machine.run (step C D) (initial start db) ls = some s) (n : AnalysisNode) (now : Int)
    (old : TaskTimer AnalysisNode) (hpc : s.pc = .cancelTask n now old) (hs : step C D s .work = some s') :
    TaskTimerManager.pending s'.judge.callbacks = TaskTimerManager.pending s.judge.callbacks ∨
      ∃ before t after, TaskTimerManager.pending s.judge.callbacks = before ++ t :: after ∧
        TaskTimerManager.pending s'.judge.callbacks = before ++ after ∧ t.userData.name = n.name := by
  have hnamed := run_tasksNamed C D start db ls s h
  have hheld : s.pc.holding = some (n, old) := by rw [hpc]; rfl
  have hcancel : s'.judge.callbacks = TaskTimerManager.cancel s.judge.callbacks old := by
    have hw : work C D s = some s' := hs
    unfold work at hw
    rw [hpc] at hw
    cases hw
    rfl
  rw [hcancel]
  refine (TaskTimerManager.cancel_cases s.judge.callbacks old).imp_right (fun ⟨before, t, after, hl, he, hsame⟩ => ?_)
  have hin : t ∈ TaskTimerManager.pending s.judge.callbacks := by rw [hl]; simp
  simp only [TaskTimerManager.sameTask, Bool.and_eq_true, beq_iff_eq] at hsame
  -- an id names one timer, so the one taken out is the one on record
  have ht : t = old := hnamed.named t old (Or.inl hin) (Or.inr (Or.inr ⟨n, hheld⟩)) hsame.2
  exact ⟨before, t, after, hl, he, by rw [ht]; exact hnamed.held n old hheld⟩

/-! ## One pending check for a file -/

def timersOf (cs : Callbacks AnalysisNode) (f : Str) : List (TaskTimer AnalysisNode) :=
  (TaskTimerManager.pending cs).filter (fun t => decide (t.userData.name = f))

/-- If a timer of `f` is pending, the task on record for `f` has its id and its expiration. -/
def Recorded (T : Tasks) (f : Str) : Prop :=
  ∀ t ∈ timersOf T.callbacks f, ∃ u, T.taskmap f = some u ∧ u.taskId = t.taskId ∧ u.expiration = t.expiration

/-- At most one delayed check is pending for each file, and it is the one on record. -/
def OnePending (T : Tasks) : Prop := ∀ f, (timersOf T.callbacks f).length ≤ 1 ∧ Recorded T f

/-- A call does not end its check while a timer of its file is pending. -/
def ChecksUnarmed (s : St σ) (l : Label) : Prop :=
  ∀ n, l = .work → s.pc = .delTask n → timersOf s.judge.callbacks n.name = []

/-- What holds of one file while `do_analysis` is at `pc`: the replacement of its task goes through a state in which none
is pending, and one in which the new one is pending and not yet on record. -/
def PendingAt (T : Tasks) (pc : Pc) (f : Str) : Prop :=
  match pc with
  | .cancelTask n _ old =>
    (timersOf T.callbacks f).length ≤ 1 ∧ Recorded T f ∧ (n.name = f → T.taskmap f = some old)
  | .addTask n _        =>
    (timersOf T.callbacks f).length ≤ 1 ∧ Recorded T f ∧ (n.name = f → timersOf T.callbacks f = [])
  | .setTask n t        =>
    (timersOf T.callbacks f).length ≤ 1 ∧ (n.name ≠ f → Recorded T f) ∧
      (n.name = f → ∀ u ∈ timersOf T.callbacks f, u = t)
  | _                   => (timersOf T.callbacks f).length ≤ 1 ∧ Recorded T f

theorem mem_timersOf (cs : Callbacks AnalysisNode) (f : Str) (t : TaskTimer AnalysisNode) :
    t ∈ timersOf cs f ↔ t ∈ TaskTimerManager.pending cs ∧ t.userData.name = f := by
  rw [timersOf, List.mem_filter, decide_eq_true_eq]

theorem pendingAt_of_not_replacing (T : Tasks) (pc : Pc) (f : Str) (h : pc.replacing = false) :
    PendingAt T pc f ↔ (timersOf T.callbacks f).length ≤ 1 ∧ Recorded T f := by
  cases pc with
  | cancelTask | addTask | setTask => cases h
  | _ => exact Iff.rfl

theorem PendingAt.length_le {T : Tasks} {pc : Pc} {f : Str} (h : PendingAt T pc f) :
    (timersOf T.callbacks f).length ≤ 1 := by
  cases pc <;> exact h.1

/-! ### The effect of the manager's operations on the timers of a file -/

theorem timersOf_execute_sublist (cs : Callbacks AnalysisNode) (f : Str) (now : Int) :
    (timersOf (TaskTimerManager.execute cs now).2 f).Sublist (timersOf cs f) := by
  unfold timersOf
  rw [TaskTimerManager.execute, TaskTimerManager.pending_executeAt]
  exact List.filter_sublist.filter _

theorem timersOf_cancel_sublist (cs : Callbacks AnalysisNode) (f : Str) (old : TaskTimer AnalysisNode) :
    (timersOf (TaskTimerManager.cancel cs old) f).Sublist (timersOf cs f) := by
  unfold timersOf
  rw [TaskTimerManager.pending_cancel]
  exact List.eraseP_sublist.filter _

theorem timersOf_add_length (cs : Callbacks AnalysisNode) (f : Str) (t : TaskTimer AnalysisNode) :
    (timersOf (TaskTimerManager.add cs t) f).length =
      (if t.userData.name = f then 1 else 0) + (timersOf cs f).length := by
  unfold timersOf
  rw [((TaskTimerManager.pending_add_perm cs t).filter _).length_eq, List.filter_cons]
  by_cases h : t.userData.name = f
  · simp [h, Nat.add_comm]
  · simp [h]

/-- **Cancelling the task on record leaves no timer of its file**, when at most one was pending. -/
theorem timersOf_cancel_own (cs : Callbacks AnalysisNode) (f : Str) (old : TaskTimer AnalysisNode)
    (hone : (timersOf cs f).length ≤ 1) (hold : old.userData.name = f)
    (hnamed : ∀ u ∈ TaskTimerManager.pending cs, u.taskId = old.taskId → u = old)
    (hrec : ∀ t ∈ timersOf cs f, old.taskId = t.taskId ∧ old.expiration = t.expiration) :
    timersOf (TaskTimerManager.cancel cs old) f = [] := by
  by_contra hne
  obtain ⟨t, ht⟩ := List.exists_mem_of_ne_nil _ hne
  have hmem := (timersOf_cancel_sublist cs f old).subset ht
  obtain ⟨hid, hexp⟩ := hrec t hmem
  have hto : t = old := hnamed t ((mem_timersOf cs f t).1 hmem).1 hid.symm
  subst hto
  -- the cancel erased one copy, so two were pending
  have hin := ((mem_timersOf cs f t).1 hmem).1
  have hsame : TaskTimerManager.sameTask t t = true := by simp [TaskTimerManager.sameTask]
  obtain ⟨a, l₁, l₂, -, ha, hl, he⟩ := List.exists_of_eraseP hin hsame
  have hat : a = t := by
    simp only [TaskTimerManager.sameTask, Bool.and_eq_true, beq_iff_eq] at ha
    exact hnamed a (by rw [hl]; simp) ha.2
  have hlen : (timersOf cs f).length = (timersOf (TaskTimerManager.cancel cs t) f).length + 1 := by
    unfold timersOf
    rw [TaskTimerManager.pending_cancel, he, hl, hat]
    simp [List.filter_append, hold]
    omega
  have hpos := List.length_pos_of_mem ht
  omega

/-! ### The invariant -/

theorem Recorded.shrink {T T' : Tasks} {f : Str} (h : Recorded T f) (hm : T'.taskmap f = T.taskmap f)
    (hs : (timersOf T'.callbacks f).Sublist (timersOf T.callbacks f)) : Recorded T' f :=
  fun t ht => by rw [hm]; exact h t (hs.subset ht)

theorem PendingAt.shrink {T T' : Tasks} {pc : Pc} {f : Str} (h : PendingAt T pc f) (hm : T'.taskmap f = T.taskmap f)
    (hs : (timersOf T'.callbacks f).Sublist (timersOf T.callbacks f)) : PendingAt T' pc f := by
  have hlen := Nat.le_trans hs.length_le h.length_le
  by_cases hpc : pc.replacing = false
  · rw [pendingAt_of_not_replacing _ _ _ hpc] at h ⊢
    exact ⟨hlen, h.2.shrink hm hs⟩
  · cases pc with
    | cancelTask n now old => exact ⟨hlen, h.2.1.shrink hm hs, fun e => by rw [hm]; exact h.2.2 e⟩
    | addTask n now =>
      exact ⟨hlen, h.2.1.shrink hm hs, fun e => List.eq_nil_of_sublist_nil (h.2.2 e ▸ hs)⟩
    | setTask n t => exact ⟨hlen, fun e => (h.2.1 e).shrink hm hs, fun e u hu => h.2.2 e u (hs.subset hu)⟩
    | _ => exact absurd rfl hpc

theorem pendingAt_add (T : Tasks) (n : AnalysisNode) (now : Int) (t : TaskTimer AnalysisNode) (g : Int) (f : Str)
    (ht : t.userData.name = n.name) (h : PendingAt T (.addTask n now) f) :
    PendingAt { T with callbacks := TaskTimerManager.add T.callbacks t, globalId := g } (.setTask n t) f := by
  have hlen := timersOf_add_length T.callbacks f t
  rw [ht] at hlen
  by_cases hf : n.name = f
  · have hnone := h.2.2 hf
    rw [if_pos hf, hnone] at hlen
    refine ⟨Nat.le_of_eq hlen, fun e => absurd hf e, fun _ u hu => ?_⟩
    obtain ⟨hu, hname⟩ := (mem_timersOf _ f u).1 hu
    rcases (TaskTimerManager.mem_pending_add _ _ u).1 hu with rfl | hu
    · rfl
    · have : u ∈ timersOf T.callbacks f := (mem_timersOf _ f u).2 ⟨hu, hname⟩
      rw [hnone] at this; cases this
  · rw [if_neg hf, Nat.zero_add] at hlen
    refine ⟨hlen ▸ h.1, fun _ u hu => ?_, fun e => absurd e hf⟩
    obtain ⟨hu, hname⟩ := (mem_timersOf _ f u).1 hu
    rcases (TaskTimerManager.mem_pending_add _ _ u).1 hu with rfl | hu
    · exact absurd (ht.symm.trans hname) hf
    · exact h.2.1 u ((mem_timersOf _ f u).2 ⟨hu, hname⟩)

theorem recorded_update_of_ne {T : Tasks} {f g : Str} (o : Option (TaskTimer AnalysisNode)) (hf : g ≠ f)
    (h : Recorded T f) : Recorded { T with taskmap := Function.update T.taskmap g o } f :=
  h.shrink (Function.update_of_ne (Ne.symm hf) _ _) (List.Sublist.refl _)

/-- **One step keeps what holds of each file**, unless it ends a check while a timer of its file is pending. -/
theorem pendingAt_step (C : Config) (s s' : St σ) (l : Label) (hs : TaskStep C s l s')
    (hT : TasksNamed s.judge.toTasks s.pc) (hc : ChecksUnarmed s l) (h : ∀ f, PendingAt s.judge.toTasks s.pc f) :
    ∀ f, PendingAt s'.judge.toTasks s'.pc f := by
  intro f
  have hf := h f
  cases hs with
  | same _ _ htasks hpc =>
    rw [htasks]
    rcases hpc with hpc | ⟨hpc, hpc'⟩
    · rw [hpc]; exact hf
    · rw [pendingAt_of_not_replacing _ _ _ hpc] at hf
      exact (pendingAt_of_not_replacing _ _ _ hpc').2 hf
  | pass _ hpc htasks =>
    rw [htasks, hpc]
    exact hf.shrink rfl (timersOf_execute_sublist _ f _)
  | found n now old _ hpc hpc' hold htasks =>
    rw [htasks, hpc']
    rw [hpc] at hf
    exact ⟨hf.1, hf.2, fun e => e ▸ hold⟩
  | missing n now _ hpc hpc' hold htasks =>
    rw [htasks, hpc']
    rw [hpc] at hf
    refine ⟨hf.1, hf.2, fun e => List.eq_nil_iff_forall_not_mem.2 (fun t ht => ?_)⟩
    obtain ⟨u, hu, -⟩ := hf.2 t ht
    rw [← e, hold] at hu; cases hu
  | cancel n now old _ hpc hpc' htasks =>
    have hheld : s.pc.holding = some (n, old) := by rw [hpc]; rfl
    rw [htasks, hpc']
    rw [hpc] at hf
    have hs := timersOf_cancel_sublist s.judge.callbacks f old
    refine ⟨Nat.le_trans hs.length_le hf.1, hf.2.1.shrink rfl hs, fun e => ?_⟩
    refine timersOf_cancel_own _ f old hf.1 ((hT.held n old hheld).trans e) (fun u hu hid => ?_) (fun t ht => ?_)
    · exact hT.named u old (Or.inl hu) (Or.inr (Or.inr ⟨n, hheld⟩)) hid
    · obtain ⟨u, hu, hid, hexp⟩ := hf.2.1 t ht
      rw [hf.2.2 e] at hu; cases hu
      exact ⟨hid, hexp⟩
  | add n now _ hpc hpc' htasks =>
    rw [htasks, hpc']
    rw [hpc] at hf
    exact pendingAt_add _ n now _ _ f rfl hf
  | set n t _ hpc hpc' htasks =>
    rw [htasks, hpc']
    rw [hpc] at hf
    refine ⟨hf.1, ?_⟩
    by_cases e : n.name = f
    · intro u hu
      exact ⟨t, by rw [← e]; exact Function.update_self _ _ _, by rw [hf.2.2 e u hu], by rw [hf.2.2 e u hu]⟩
    · exact recorded_update_of_ne _ e (hf.2.1 e)
  | del n _ hpc hpc' htasks =>
    rw [htasks, hpc']
    rw [hpc] at hf
    refine ⟨hf.1, ?_⟩
    by_cases e : n.name = f
    · intro t ht
      have hnone := hc n rfl hpc
      rw [e] at hnone
      have ht : t ∈ timersOf s.judge.callbacks f := ht
      rw [hnone] at ht; cases ht
    · exact recorded_update_of_ne _ e hf.2

theorem pendingAt_initial (f : Str) : PendingAt noTasks .idle f := ⟨Nat.zero_le 1, fun t ht => by cases ht⟩

/-- **A check that ends while a timer of its file is pending leaves that timer off the record.** -/
theorem not_onePending_del (C : Config) (D : DbOps σ) (s : St σ) (n : AnalysisNode) (hpc : s.pc = .delTask n)
    (hne : timersOf s.judge.callbacks n.name ≠ []) :
    ∃ s', step C D s .work = some s' ∧ s'.pc = .idle ∧ ¬ OnePending s'.judge.toTasks := by
  refine ⟨{ s with pc := .idle, judge := { s.judge with taskmap := Function.update s.judge.taskmap n.name none } },
    by simp only [step, work, hpc], rfl, fun h => ?_⟩
  obtain ⟨t, ht⟩ := List.exists_mem_of_ne_nil _ hne
  obtain ⟨u, hu, -⟩ := (h n.name).2 t ht
  have hnone : Function.update s.judge.taskmap n.name none n.name = none := Function.update_self _ _ _
  have hu : Function.update s.judge.taskmap n.name none n.name = some u := hu
  rw [hnone] at hu; cases hu

/-- **One pending delayed check for each file, exactly in the runs in which no check ends while a timer of its file is
pending**: in every state between two calls at most one timer names a file, and it is the one on record. -/
theorem onePending_iff (C : Config) (D : DbOps σ) (now : Int) (db : σ) (ls : List Label) :
    (∀ l₁ s₁, l₁ <+: ls → Machine.run (step C D) (initial now db) l₁ = some s₁ → s₁.pc = .idle →
        OnePending s₁.judge.toTasks) ↔
      Machine.Meets (step C D) ChecksUnarmed (initial now db) ls := by
  constructor
  · intro hone l₁ l s₁ hp hrun n hl hpc
    subst hl
    by_contra hne
    obtain ⟨s₂, hstep, hidle, hnot⟩ := not_onePending_del C D s₁ n hpc hne
    exact hnot (hone (l₁ ++ [.work]) s₂ hp ((Machine.run_snoc_some _ _ _ _ _).2 ⟨s₁, hrun, hstep⟩) hidle)
  · intro hmeets l₁ s₁ hp hrun hidle
    have hinv := Machine.run_inv_meets (step C D) ChecksUnarmed
      (fun s => TasksNamed s.judge.toTasks s.pc ∧ ∀ f, PendingAt s.judge.toTasks s.pc f)
      (fun s l s' hc hi hs =>
        have ht := taskStep_of_step C D s l s' hs
        ⟨tasksNamed_step C s s' l ht hi.1, pendingAt_step C s s' l ht hi.1 hc hi.2⟩)
      (initial now db) ⟨tasksNamed_initial, pendingAt_initial⟩ l₁ s₁
      (fun l₂ l t hp' ht => hmeets l₂ l t (hp'.trans hp) ht) hrun
    intro f
    have := hinv.2 f
    rw [hidle] at this
    exact this

def minuteConfig : Config := { plainConfig with interval := 60 }

/-- A row written at time 0, whose file has changed since. -/
def oldRow : DbMap := fun f => if f = ascii "/w/f" then some (ascii "old", 0) else none

/-- A change at 30 arms a timer for 90; one at 60 is past the window, is checked at once and forgets the timer; one at 61
arms a second. -/
def forgottenTimer : List Label :=
  [.addWatch 1 (ascii "/w"), .startThreads,
    .tick 30, .change 1 (ascii "/w") (ascii "f"), .watch 1, .take, .enter, .work, .work, .work,
    .tick 60, .change 1 (ascii "/w") (ascii "f"), .watch 1, .take, .enter, .checksum (ascii "/w/f") emptyFile, .work, .work,
    .work,
    .tick 61, .change 1 (ascii "/w") (ascii "f"), .watch 1, .take, .enter, .work, .work, .work]

theorem forgottenTimer_two_pending : ∃ s,
    Machine.run (step minuteConfig mapDb) (initial 0 oldRow) forgottenTimer = some s ∧ s.pc = .idle ∧
      (timersOf s.judge.callbacks (ascii "/w/f")).map (·.expiration) = [90, 121] ∧ ¬ OnePending s.judge.toTasks := by
  refine ⟨_, rfl, rfl, by decide, fun h => ?_⟩
  have := (h (ascii "/w/f")).1
  revert this; decide

/-- Two changes within the window: the second call is about to cancel the timer of the first. -/
def twoChanges : List Label :=
  [.addWatch 1 (ascii "/w"), .startThreads, .tick 30, .change 1 (ascii "/w") (ascii "f"), .watch 1, .take, .enter, .work,
    .work, .work, .tick 31, .change 1 (ascii "/w") (ascii "f"), .watch 1, .take, .enter, .work]

theorem twoChanges_cancel_own : ∃ s s' old, Machine.run (step minuteConfig mapDb) (initial 0 oldRow) twoChanges = some s ∧
    s.pc = .cancelTask ⟨ascii "/w", ascii "/w/f"⟩ 31 old ∧ step minuteConfig mapDb s .work = some s' ∧
    (TaskTimerManager.pending s'.judge.callbacks = TaskTimerManager.pending s.judge.callbacks ∨
      ∃ before t after, TaskTimerManager.pending s.judge.callbacks = before ++ t :: after ∧
        TaskTimerManager.pending s'.judge.callbacks = before ++ after ∧ t.userData.name = ascii "/w/f") :=
  ⟨_, _, _, rfl, rfl, rfl, cancel_own minuteConfig mapDb 0 oldRow twoChanges _ _ rfl ⟨ascii "/w", ascii "/w/f"⟩ 31 _ rfl rfl⟩

end CheckRealtime
