import CheckRealtime.FileAnalysis
import CheckRealtime.LockOrder
import CheckRealtime.Machine
/-!
# Threads — the two mutexes and the condition variable

The watcher, the timer and the worker thread, lock by lock: `mutex` guards `anlysis_queue` and `_taskmap`, and
`callbacks_mutex` the armed timers.  A pass of `execute` keeps `callbacks_mutex` while its callbacks take `mutex` for each
node they push; the worker takes one of them at a time.  `do_analysis` is the locks it takes (`Exit`).
-/
namespace CheckRealtime.Threads

inductive Thread where
  | watcher | timer | worker
deriving DecidableEq

inductive Mutex where
  | mutex | callbacksMutex
deriving DecidableEq

/-- `add_queue(node)`, at its next call. -/
inductive AddQueue where
  | lock (node : AnalysisNode)
  | push (node : AnalysisNode)
  | signal
  | unlock
deriving DecidableEq

inductive TimerPc where
  | lock
  | due
  -- the timers still to be called back, the reading of the clock, and the callback under way
  | calling (called : List (TaskTimer AnalysisNode)) (now : Int) (adding : Option AddQueue)
  | unlock

/-- The calls of `do_analysis` that take a lock, with what the ones after them need. -/
inductive Op where
  | getTask (node : AnalysisNode) (expiration : Int)
  | cancel (oldTask : TaskTimer AnalysisNode) (node : AnalysisNode) (expiration : Int)
  | add (taskTimer : TaskTimer AnalysisNode)
  | setTask (taskTimer : TaskTimer AnalysisNode)
  | delTask (name : Str)
deriving DecidableEq

inductive WorkerPc where
  -- `loop`
  | lock
  | testQueue
  | waiting
  -- inside `pthread_cond_wait`, on the way back to the mutex
  | woken
  | unlock (node : AnalysisNode)
  | doAnalysis (node : AnalysisNode)
  | lockFor (op : Op)
  | inside (op : Op)
  -- the call is done, and the next one is known
  | unlockAfter (op : Op) (next : Option Op)
deriving DecidableEq

/-- How `do_analysis` goes on after its tests: without a lock (an ignored, a not grepped and a new file), with a timer to
arm, or with a check, whatever it finds. -/
inductive Exit where
  | lockless
  | delay (expiration : Int)
  | checked

structure State where
  owner     : Mutex → Option Thread
  queue     : List AnalysisNode
  callbacks : Callbacks AnalysisNode
  taskmap   : Str → Option (TaskTimer AnalysisNode)
  globalId  : Int
  watcher   : Option AddQueue
  timer     : TimerPc
  worker    : WorkerPc

inductive Label where
  -- `watch()` calls `analysis`
  | analysis (node : AnalysisNode)
  | watcher
  -- `execute` reads the clock
  | time (now : Int)
  | timer
  | worker
  -- what the tests of `do_analysis` come to
  | exit (e : Exit)
  -- `pthread_cond_wait` returns without a signal
  | spurious

/-! ## Steps -/

def lock (s : State) (t : Thread) (m : Mutex) : Option State :=
  if s.owner m = none then some { s with owner := Function.update s.owner m (some t) } else none

def unlock (s : State) (m : Mutex) : State := { s with owner := Function.update s.owner m none }

/-- The next call of `add_queue`; nothing is left after the last. -/
def addQueue (s : State) (t : Thread) : AddQueue → Option (State × Option AddQueue)
  | .lock node => (lock s t .mutex).map (fun s => (s, some (.push node)))
  | .push node => some ({ s with queue := s.queue ++ [node] }, some .signal)
  | .signal    => some ({ s with worker := if s.worker = .waiting then .woken else s.worker }, some .unlock)
  | .unlock    => some (unlock s .mutex, none)

def Op.mutex : Op → Mutex
  | .getTask _ _  => .mutex
  | .setTask _    => .mutex
  | .delTask _    => .mutex
  | .cancel _ _ _ => .callbacksMutex
  | .add _        => .callbacksMutex

/-- The timer for a delayed check. -/
def arm (s : State) (node : AnalysisNode) (expiration : Int) : State × Option Op :=
  ({ s with globalId := s.globalId + 1 }, some (.add ⟨expiration, s.globalId, node⟩))

/-- What a call does under its lock, and the call after it. -/
def Op.run (s : State) : Op → State × Option Op
  | .getTask node expiration        => match s.taskmap node.name with
    | some oldTask => (s, some (.cancel oldTask node expiration))
    | none         => arm s node expiration
  | .cancel oldTask node expiration => arm { s with callbacks := TaskTimerManager.cancel s.callbacks oldTask } node expiration
  | .add taskTimer                  =>
    ({ s with callbacks := TaskTimerManager.add s.callbacks taskTimer }, some (.setTask taskTimer))
  | .setTask taskTimer              =>
    ({ s with taskmap := Function.update s.taskmap taskTimer.userData.name (some taskTimer) }, none)
  | .delTask name                   => ({ s with taskmap := Function.update s.taskmap name none }, none)

def Exit.next (node : AnalysisNode) : Exit → WorkerPc
  | .lockless         => .lock
  | .delay expiration => .lockFor (.getTask node expiration)
  | .checked          => .lockFor (.delTask node.name)

def workerStep (s : State) : Option State :=
  match s.worker with
  | .lock               => (lock s .worker .mutex).map (fun s => { s with worker := .testQueue })
  | .testQueue          => match s.queue with
    -- `pthread_cond_wait` gives the mutex back and sleeps in one
    | []            => some { unlock s .mutex with worker := .waiting }
    | node :: queue => some { s with queue := queue, worker := .unlock node }
  | .woken              => (lock s .worker .mutex).map (fun s => { s with worker := .testQueue })
  | .unlock node        => some { unlock s .mutex with worker := .doAnalysis node }
  | .lockFor op         => (lock s .worker op.mutex).map (fun s => { s with worker := .inside op })
  | .inside op          => some { (op.run s).1 with worker := .unlockAfter op (op.run s).2 }
  | .unlockAfter op next => some { unlock s op.mutex with worker := next.elim .lock .lockFor }
  | .waiting            => none
  | .doAnalysis _       => none

def timerStep (s : State) : Option State :=
  match s.timer with
  | .lock                           => (lock s .timer .callbacksMutex).map (fun s => { s with timer := .due })
  | .due                            => none
  | .calling called now (some add)  =>
    (addQueue s .timer add).map (fun r => { r.1 with timer := .calling called now r.2 })
  | .calling (t :: called) now none => some { s with timer := .calling called now (some (.lock t.userData)) }
  | .calling [] now none            => some { s with timer := .unlock, callbacks := (TaskTimerManager.execute s.callbacks now).2 }
  | .unlock                         => some { unlock s .callbacksMutex with timer := .lock }

def step (s : State) : Label → Option State
  | .analysis node => if s.watcher = none then some { s with watcher := some (.lock node) } else none
  | .watcher       => match s.watcher with
    | none     => none
    | some add => (addQueue s .watcher add).map (fun r => { r.1 with watcher := r.2 })
  | .time now      => match s.timer with
    | .due => some { s with timer := .calling (TaskTimerManager.execute s.callbacks now).1 now none }
    | _    => none
  | .timer         => timerStep s
  | .worker        => workerStep s
  | .exit e        => match s.worker with
    | .doAnalysis node => some { s with worker := e.next node }
    | _                => none
  | .spurious      => if s.worker = .waiting then some { s with worker := .woken } else none

/-- The threads as `main` creates them, over the timers that the scan has armed. -/
def initial (callbacks : Callbacks AnalysisNode) (taskmap : Str → Option (TaskTimer AnalysisNode)) (globalId : Int) : State :=
  ⟨fun _ => none, [], callbacks, taskmap, globalId, none, .lock, .lock⟩

/-! ## What a step can do -/

/-- The call of `add_queue` a thread is in. -/
def State.adding (s : State) : Thread → Option AddQueue
  | .watcher => s.watcher
  | .timer   => match s.timer with
    | .calling _ _ add => add
    | _                => none
  | .worker  => none

def State.withAdding (s : State) (t : Thread) (add : Option AddQueue) : State :=
  match t with
  | .watcher => { s with watcher := add }
  | .timer   => match s.timer with
    | .calling called now _ => { s with timer := .calling called now add }
    | _                     => s
  | .worker  => s

def AddQueue.holds : AddQueue → Bool
  | .lock _ => false
  | _       => true

/-- The mutexes a thread holds, by where it stands. -/
def State.holds (s : State) : Thread → Mutex → Bool
  | .watcher, m => decide (m = .mutex) && s.watcher.any AddQueue.holds
  | .timer, m   => match s.timer with
    | .lock            => false
    | .due             => decide (m = .callbacksMutex)
    | .calling _ _ add => decide (m = .callbacksMutex) || (decide (m = .mutex) && add.any AddQueue.holds)
    | .unlock          => decide (m = .callbacksMutex)
  | .worker, m  => match s.worker with
    | .testQueue        => decide (m = .mutex)
    | .unlock _         => decide (m = .mutex)
    | .inside op        => decide (m = op.mutex)
    | .unlockAfter op _ => decide (m = op.mutex)
    | _                 => false

/-- The mutex a thread is about to take. -/
def State.waits (s : State) : Thread → Option Mutex
  | .watcher => match s.watcher with
    | some (.lock _) => some .mutex
    | _              => none
  | .timer   => match s.timer with
    | .lock                        => some .callbacksMutex
    | .calling _ _ (some (.lock _)) => some .mutex
    | _                            => none
  | .worker  => match s.worker with
    | .lock       => some .mutex
    | .woken      => some .mutex
    | .lockFor op => some op.mutex
    | _           => none

/-- A step, with the nodes it pushes and takes. -/
inductive StepCase (s : State) : List AnalysisNode → List AnalysisNode → State → Prop where
  | analysis (node : AnalysisNode) (hw : s.watcher = none) : StepCase s [] [] { s with watcher := some (.lock node) }
  | addLock (t : Thread) (node : AnalysisNode) (ha : s.adding t = some (.lock node)) (hfree : s.owner .mutex = none) :
      StepCase s [] [] (({ s with owner := Function.update s.owner .mutex (some t) } : State).withAdding t (some (.push node)))
  | addPush (t : Thread) (node : AnalysisNode) (ha : s.adding t = some (.push node)) :
      StepCase s [node] [] (({ s with queue := s.queue ++ [node] } : State).withAdding t (some .signal))
  | addSignal (t : Thread) (ha : s.adding t = some .signal) : StepCase s [] []
      (({ s with worker := if s.worker = .waiting then .woken else s.worker } : State).withAdding t (some .unlock))
  | addUnlock (t : Thread) (ha : s.adding t = some .unlock) : StepCase s [] [] ((unlock s .mutex).withAdding t none)
  | timerLock (ht : s.timer = .lock) (hfree : s.owner .callbacksMutex = none) :
      StepCase s [] [] { s with owner := Function.update s.owner .callbacksMutex (some .timer), timer := .due }
  | due (now : Int) (ht : s.timer = .due) :
      StepCase s [] [] { s with timer := .calling (TaskTimerManager.execute s.callbacks now).1 now none }
  | callback (t : TaskTimer AnalysisNode) (called : List (TaskTimer AnalysisNode)) (now : Int)
      (ht : s.timer = .calling (t :: called) now none) :
      StepCase s [] [] { s with timer := .calling called now (some (.lock t.userData)) }
  | erase (now : Int) (ht : s.timer = .calling [] now none) :
      StepCase s [] [] { s with timer := .unlock, callbacks := (TaskTimerManager.execute s.callbacks now).2 }
  | timerUnlock (ht : s.timer = .unlock) : StepCase s [] [] { unlock s .callbacksMutex with timer := .lock }
  | workerLock (hw : s.worker = .lock ∨ s.worker = .woken) (hfree : s.owner .mutex = none) :
      StepCase s [] [] { s with owner := Function.update s.owner .mutex (some .worker), worker := .testQueue }
  | wait (hw : s.worker = .testQueue) (hq : s.queue = []) : StepCase s [] [] { unlock s .mutex with worker := .waiting }
  | take (node : AnalysisNode) (queue : List AnalysisNode) (hw : s.worker = .testQueue) (hq : s.queue = node :: queue) :
      StepCase s [] [node] { s with queue := queue, worker := .unlock node }
  | workerUnlock (node : AnalysisNode) (hw : s.worker = .unlock node) :
      StepCase s [] [] { unlock s .mutex with worker := .doAnalysis node }
  | exit (node : AnalysisNode) (e : Exit) (hw : s.worker = .doAnalysis node) :
      StepCase s [] [] { s with worker := e.next node }
  | lockFor (op : Op) (hw : s.worker = .lockFor op) (hfree : s.owner op.mutex = none) :
      StepCase s [] [] { s with owner := Function.update s.owner op.mutex (some .worker), worker := .inside op }
  | inside (op : Op) (hw : s.worker = .inside op) :
      StepCase s [] [] { (op.run s).1 with worker := .unlockAfter op (op.run s).2 }
  | unlockAfter (op : Op) (next : Option Op) (hw : s.worker = .unlockAfter op next) :
      StepCase s [] [] { unlock s op.mutex with worker := next.elim .lock .lockFor }
  | spurious (hw : s.worker = .waiting) : StepCase s [] [] { s with worker := .woken }

/-- The nodes a step pushes. -/
def pushedBy (s : State) : Label → List AnalysisNode
  | .watcher => match s.watcher with
    | some (.push node) => [node]
    | _                 => []
  | .timer   => match s.timer with
    | .calling _ _ (some (.push node)) => [node]
    | _                                => []
  | _        => []

/-- The nodes a step takes off the queue. -/
def takenBy (s : State) : Label → List AnalysisNode
  | .worker => match s.worker, s.queue with
    | .testQueue, node :: _ => [node]
    | _, _                  => []
  | _       => []

theorem lock_some {s s' : State} {t : Thread} {m : Mutex} (h : lock s t m = some s') :
    s.owner m = none ∧ s' = { s with owner := Function.update s.owner m (some t) } := by
  unfold lock at h
  split at h
  · rename_i ho; cases h; exact ⟨ho, rfl⟩
  · cases h

theorem stepCase_addQueue {s s₁ : State} {t : Thread} {add : AddQueue} {add' : Option AddQueue} (ha : s.adding t = some add)
    (h : addQueue s t add = some (s₁, add')) :
    StepCase s (match add with | .push node => [node] | _ => []) [] (s₁.withAdding t add') := by
  cases add with
  | lock node =>
    simp only [addQueue, Option.map_eq_some_iff, Prod.mk.injEq] at h
    obtain ⟨s₂, hl, rfl, rfl⟩ := h
    obtain ⟨hfree, rfl⟩ := lock_some hl
    exact .addLock t node ha hfree
  | push node => cases h; exact .addPush t node ha
  | signal => cases h; exact .addSignal t ha
  | unlock => cases h; exact .addUnlock t ha

theorem addQueue_timer {s s₁ : State} {t : Thread} {add : AddQueue} {add' : Option AddQueue}
    (h : addQueue s t add = some (s₁, add')) : s₁.timer = s.timer := by
  cases add with
  | lock node =>
    simp only [addQueue, Option.map_eq_some_iff, Prod.mk.injEq] at h
    obtain ⟨s₂, hl, rfl, -⟩ := h
    rw [(lock_some hl).2]
  | push | signal | unlock => cases h; rfl

theorem stepCase_timer {s s' : State} (h : timerStep s = some s') : StepCase s (pushedBy s .timer) [] s' := by
  unfold timerStep at h
  split at h
  · rename_i ht
    obtain ⟨s₁, hl, rfl⟩ := Option.map_eq_some_iff.1 h
    obtain ⟨hfree, rfl⟩ := lock_some hl
    simp only [pushedBy, ht]
    exact .timerLock ht hfree
  · cases h
  · rename_i called now add ht
    obtain ⟨⟨s₁, add'⟩, ha, rfl⟩ := Option.map_eq_some_iff.1 h
    have hadd : s.adding .timer = some add := by simp only [State.adding, ht]
    have hcase := stepCase_addQueue hadd ha
    have hset : s₁.withAdding .timer add' = { s₁ with timer := .calling called now add' } := by
      simp only [State.withAdding, addQueue_timer ha, ht]
    rw [hset] at hcase
    cases add <;> simpa only [pushedBy, ht] using hcase
  · rename_i t called now ht
    cases h
    simp only [pushedBy, ht]
    exact .callback t called now ht
  · rename_i now ht
    cases h
    simp only [pushedBy, ht]
    exact .erase now ht
  · rename_i ht
    cases h
    simp only [pushedBy, ht]
    exact .timerUnlock ht

theorem takenBy_worker {s : State} (h : s.worker ≠ .testQueue) : takenBy s .worker = [] := by
  simp only [takenBy]
  split
  · rename_i hw _; exact absurd hw h
  · rfl

theorem stepCase_worker {s s' : State} (h : workerStep s = some s') : StepCase s [] (takenBy s .worker) s' := by
  unfold workerStep at h
  split at h
  · rename_i hw
    obtain ⟨s₁, hl, rfl⟩ := Option.map_eq_some_iff.1 h
    obtain ⟨hfree, rfl⟩ := lock_some hl
    rw [takenBy_worker (by rw [hw]; exact WorkerPc.noConfusion)]
    exact .workerLock (Or.inl hw) hfree
  · rename_i hw
    split at h
    · rename_i hq
      cases h
      simp only [takenBy, hw, hq]
      exact .wait hw hq
    · rename_i node queue hq
      cases h
      simp only [takenBy, hw, hq]
      exact .take node queue hw hq
  · rename_i hw
    obtain ⟨s₁, hl, rfl⟩ := Option.map_eq_some_iff.1 h
    obtain ⟨hfree, rfl⟩ := lock_some hl
    rw [takenBy_worker (by rw [hw]; exact WorkerPc.noConfusion)]
    exact .workerLock (Or.inr hw) hfree
  · rename_i node hw
    cases h
    rw [takenBy_worker (by rw [hw]; exact WorkerPc.noConfusion)]
    exact .workerUnlock node hw
  · rename_i op hw
    obtain ⟨s₁, hl, rfl⟩ := Option.map_eq_some_iff.1 h
    obtain ⟨hfree, rfl⟩ := lock_some hl
    rw [takenBy_worker (by rw [hw]; exact WorkerPc.noConfusion)]
    exact .lockFor op hw hfree
  · rename_i op hw
    cases h
    rw [takenBy_worker (by rw [hw]; exact WorkerPc.noConfusion)]
    exact .inside op hw
  · rename_i op next hw
    cases h
    rw [takenBy_worker (by rw [hw]; exact WorkerPc.noConfusion)]
    exact .unlockAfter op next hw
  · cases h
  · cases h

/-- **Every step of the threads is one of these.** -/
theorem stepCase_of_step (s s' : State) (l : Label) (h : step s l = some s') :
    StepCase s (pushedBy s l) (takenBy s l) s' := by
  cases l with
  | analysis node =>
    simp only [step] at h
    split at h
    · rename_i hw; cases h; exact .analysis node hw
    · cases h
  | watcher =>
    simp only [step] at h
    split at h
    · cases h
    · rename_i add hw
      obtain ⟨⟨s₁, add'⟩, ha, rfl⟩ := Option.map_eq_some_iff.1 h
      have hadd : s.adding .watcher = some add := hw
      have hcase : StepCase s _ [] { s₁ with watcher := add' } := stepCase_addQueue hadd ha
      show StepCase s (pushedBy s .watcher) [] _
      cases add <;> simpa only [pushedBy, hw] using hcase
  | time now =>
    simp only [step] at h
    split at h
    · rename_i ht; cases h; exact .due now ht
    · cases h
  | timer => exact stepCase_timer h
  | worker => exact stepCase_worker h
  | exit e =>
    simp only [step] at h
    split at h
    · rename_i node hw; cases h; exact .exit node e hw
    · cases h
  | spurious =>
    simp only [step] at h
    split at h
    · rename_i hw; cases h; exact .spurious hw
    · cases h

/-! ## Who holds what -/

/-- A mutex is owned by the thread that stands where it holds it, and by no other. -/
def Owned (s : State) : Prop := ∀ m t, s.owner m = some t ↔ s.holds t m = true

theorem owned_lock {s s' : State} (h : Owned s) (t : Thread) (m : Mutex) (hfree : s.owner m = none)
    (ho : s'.owner = Function.update s.owner m (some t)) (ht : ∀ m', s'.holds t m' = (s.holds t m' || decide (m' = m)))
    (hu : ∀ u, u ≠ t → ∀ m', s'.holds u m' = s.holds u m') : Owned s' := by
  intro m' u
  have hnone : ∀ u, s.holds u m = false := fun u => by
    by_contra hh
    rw [Bool.not_eq_false, ← h m u, hfree] at hh
    cases hh
  rw [ho, Function.update_apply]
  by_cases hm : m' = m
  · subst hm
    rw [if_pos rfl]
    by_cases hut : u = t
    · rw [hut, ht]; simp
    · rw [hu u hut, hnone]
      simp [Ne.symm hut]
  · rw [if_neg hm, h m' u]
    by_cases hut : u = t
    · rw [hut, ht]; simp [hm]
    · rw [hu u hut]

theorem owned_unlock {s s' : State} (h : Owned s) (t : Thread) (m : Mutex) (hheld : s.holds t m = true)
    (ho : s'.owner = Function.update s.owner m none) (ht : ∀ m', s'.holds t m' = (s.holds t m' && decide (m' ≠ m)))
    (hu : ∀ u, u ≠ t → ∀ m', s'.holds u m' = s.holds u m') : Owned s' := by
  intro m' u
  have howner := (h m t).2 hheld
  rw [ho, Function.update_apply]
  by_cases hm : m' = m
  · subst hm
    rw [if_pos rfl]
    by_cases hut : u = t
    · rw [hut, ht]; simp
    · rw [hu u hut, ← h m' u, howner]
      simp [Ne.symm hut]
  · rw [if_neg hm, h m' u]
    by_cases hut : u = t
    · rw [hut, ht]; simp [hm]
    · rw [hu u hut]

theorem owned_same {s s' : State} (h : Owned s) (ho : s'.owner = s.owner) (hh : ∀ u m, s'.holds u m = s.holds u m) :
    Owned s' := by
  intro m u
  rw [ho, hh]
  exact h m u

section

variable {s : State} {t : Thread}

theorem owner_withAdding (add : Option AddQueue) : (s.withAdding t add).owner = s.owner := by
  cases t <;> simp only [State.withAdding]
  split <;> rfl

theorem adding_timer {add : AddQueue} (h : s.adding .timer = some add) :
    ∃ called now, s.timer = .calling called now (some add) := by
  simp only [State.adding] at h
  split at h
  · rename_i called now add₁ ht; exact ⟨called, now, h ▸ ht⟩
  · cases h

/-- A thread in `add_queue` holds what it held before, and `mutex` from the lock on. -/
theorem holds_withAdding {add : AddQueue} (ha : s.adding t = some add) (add' : Option AddQueue) (u : Thread) (m : Mutex) :
    (s.withAdding t add').holds u m = if u = t ∧ m = .mutex then add'.any AddQueue.holds else s.holds u m := by
  cases t with
  | worker => cases ha
  | watcher =>
    cases u with
    | watcher => cases m <;> simp [State.withAdding, State.holds]
    | timer | worker => simp [State.withAdding, State.holds]
  | timer =>
    obtain ⟨called, now, ht⟩ := adding_timer ha
    cases u with
    | timer => cases m <;> simp [State.withAdding, State.holds, ht]
    | watcher | worker => simp [State.withAdding, State.holds, ht]

theorem holds_adding {add : AddQueue} (ha : s.adding t = some add) : s.holds t .mutex = add.holds := by
  cases t with
  | worker => cases ha
  | watcher =>
    have ha : s.watcher = some add := ha
    simp [State.holds, ha]
  | timer =>
    obtain ⟨called, now, ht⟩ := adding_timer ha
    simp [State.holds, ht]

end

theorem holds_congr {s s' : State} (hw : s'.watcher = s.watcher) (ht : s'.timer = s.timer)
    (hk : (s'.worker = s.worker) ∨ (s.worker = .waiting ∧ s'.worker = .woken)) (u : Thread) (m : Mutex) :
    s'.holds u m = s.holds u m := by
  cases u with
  | watcher => simp only [State.holds, hw]
  | timer => simp only [State.holds, ht]
  | worker =>
    rcases hk with hk | ⟨h1, h2⟩
    · simp only [State.holds, hk]
    · simp only [State.holds, h1, h2]

theorem adding_congr {s s' : State} (hw : s'.watcher = s.watcher) (ht : s'.timer = s.timer) (u : Thread) :
    s'.adding u = s.adding u := by
  cases u <;> simp only [State.adding, hw, ht]

/-- A step of `add_queue`: `s₁` is what it does apart from the next call. -/
theorem holds_addStep {s : State} {t : Thread} {add : AddQueue} (ha : s.adding t = some add) (s₁ : State)
    (hw : s₁.watcher = s.watcher) (ht : s₁.timer = s.timer)
    (hk : (s₁.worker = s.worker) ∨ (s.worker = .waiting ∧ s₁.worker = .woken)) (add' : Option AddQueue) (u : Thread) (m : Mutex) :
    (s₁.withAdding t add').holds u m = if u = t ∧ m = .mutex then add'.any AddQueue.holds else s.holds u m := by
  rw [holds_withAdding ((adding_congr hw ht t).trans ha), holds_congr hw ht hk]

theorem run_owner (s : State) (op : Op) : (op.run s).1.owner = s.owner ∧ (op.run s).1.watcher = s.watcher ∧
    (op.run s).1.timer = s.timer ∧ (op.run s).1.queue = s.queue := by
  cases op with
  | getTask node expiration =>
    simp only [Op.run]
    split <;> exact ⟨rfl, rfl, rfl, rfl⟩
  | _ => exact ⟨rfl, rfl, rfl, rfl⟩

/-- **Every step keeps the owners.** -/
theorem owned_step {s s' : State} {pushed taken : List AnalysisNode} (hs : StepCase s pushed taken s') (h : Owned s) :
    Owned s' := by
  cases hs with
  | analysis node hw =>
    exact owned_same h rfl (fun u m => by cases u <;> simp [State.holds, hw, AddQueue.holds])
  | addLock t node ha hfree =>
    have hh := holds_addStep ha { s with owner := Function.update s.owner .mutex (some t) } rfl rfl (Or.inl rfl)
      (some (.push node))
    have hheld := holds_adding ha
    refine owned_lock h t .mutex hfree (owner_withAdding _) (fun m => ?_) (fun u hu m => ?_)
    · rw [hh]
      cases m
      · simp [AddQueue.holds]
      · simp
    · rw [hh, if_neg (fun e => hu e.1)]
  | addPush t node ha =>
    refine owned_same h (owner_withAdding _) (fun u m => ?_)
    rw [holds_addStep ha { s with queue := s.queue ++ [node] } rfl rfl (Or.inl rfl)]
    split
    · rename_i e; rw [e.1, e.2, holds_adding ha]; rfl
    · rfl
  | addSignal t ha =>
    have hk : (if s.worker = .waiting then WorkerPc.woken else s.worker) = s.worker ∨
        (s.worker = .waiting ∧ (if s.worker = .waiting then WorkerPc.woken else s.worker) = .woken) := by
      by_cases hw : s.worker = .waiting
      · exact Or.inr ⟨hw, if_pos hw⟩
      · exact Or.inl (if_neg hw)
    refine owned_same h (owner_withAdding _) (fun u m => ?_)
    rw [holds_addStep ha { s with worker := if s.worker = .waiting then .woken else s.worker } rfl rfl hk]
    split
    · rename_i e; rw [e.1, e.2, holds_adding ha]; rfl
    · rfl
  | addUnlock t ha =>
    have hh := holds_addStep ha (unlock s .mutex) rfl rfl (Or.inl rfl) none
    refine owned_unlock h t .mutex (by rw [holds_adding ha]; rfl) (owner_withAdding _) (fun m => ?_) (fun u hu m => ?_)
    · rw [hh]
      cases m
      · simp
      · simp
    · rw [hh, if_neg (fun e => hu e.1)]
  | timerLock ht hfree =>
    refine owned_lock h .timer .callbacksMutex hfree rfl (fun m => ?_) (fun u hu m => ?_)
    · simp [State.holds, ht]
    · cases u <;> first | rfl | exact absurd rfl hu
  | due now ht =>
    exact owned_same h rfl (fun u m => by cases u <;> simp [State.holds, ht])
  | callback t called now ht =>
    exact owned_same h rfl (fun u m => by cases u <;> simp [State.holds, ht, AddQueue.holds])
  | erase now ht =>
    exact owned_same h rfl (fun u m => by cases u <;> simp [State.holds, ht])
  | timerUnlock ht =>
    refine owned_unlock h .timer .callbacksMutex (by simp [State.holds, ht]) rfl (fun m => ?_) (fun u hu m => ?_)
    · simp [State.holds, ht]
    · cases u <;> first | rfl | exact absurd rfl hu
  | workerLock hw hfree =>
    refine owned_lock h .worker .mutex hfree rfl (fun m => ?_) (fun u hu m => ?_)
    · rcases hw with hw | hw <;> simp [State.holds, hw]
    · cases u <;> first | rfl | exact absurd rfl hu
  | wait hw hq =>
    refine owned_unlock h .worker .mutex (by simp [State.holds, hw]) rfl (fun m => ?_) (fun u hu m => ?_)
    · simp [State.holds, hw]
    · cases u <;> first | rfl | exact absurd rfl hu
  | take node queue hw hq =>
    exact owned_same h rfl (fun u m => by cases u <;> simp [State.holds, hw])
  | workerUnlock node hw =>
    refine owned_unlock h .worker .mutex (by simp [State.holds, hw]) rfl (fun m => ?_) (fun u hu m => ?_)
    · simp [State.holds, hw]
    · cases u <;> first | rfl | exact absurd rfl hu
  | exit node e hw =>
    exact owned_same h rfl (fun u m => by cases u <;> cases e <;> simp [State.holds, hw, Exit.next])
  | lockFor op hw hfree =>
    refine owned_lock h .worker op.mutex hfree rfl (fun m => ?_) (fun u hu m => ?_)
    · simp [State.holds, hw]
    · cases u <;> first | rfl | exact absurd rfl hu
  | inside op hw =>
    obtain ⟨ho, hwatcher, htimer, -⟩ := run_owner s op
    refine owned_same h ho (fun u m => ?_)
    cases u with
    | watcher => simp only [State.holds, hwatcher]
    | timer => simp only [State.holds, htimer]
    | worker => simp only [State.holds, hw]
  | unlockAfter op next hw =>
    refine owned_unlock h .worker op.mutex (by simp [State.holds, hw]) rfl (fun m => ?_) (fun u hu m => ?_)
    · cases next <;> simp [State.holds, hw]
    · cases u <;> first | rfl | exact absurd rfl hu
  | spurious hw =>
    exact owned_same h rfl (fun u m => by cases u <;> simp [State.holds, hw])

/-- `callbacks_mutex` comes before `mutex`. -/
def Mutex.rank : Mutex → Nat
  | .callbacksMutex => 0
  | .mutex          => 1

/-- A thread that waits for a mutex holds at most `callbacks_mutex`, and waits for `mutex` then. -/
theorem rank_of_waits (s : State) (t : Thread) (m m' : Mutex) (hw : s.waits t = some m) (hh : s.holds t m' = true) :
    m'.rank < m.rank := by
  cases t with
  | watcher =>
    simp only [State.waits] at hw
    split at hw
    · rename_i hadd
      simp [State.holds, hadd, AddQueue.holds] at hh
    · cases hw
  | timer =>
    simp only [State.waits] at hw
    split at hw
    · rename_i ht
      simp [State.holds, ht] at hh
    · rename_i ht
      cases hw
      simp only [State.holds, ht, Option.any_some, AddQueue.holds, Bool.and_false, Bool.or_false, decide_eq_true_eq] at hh
      rw [hh]
      exact Nat.zero_lt_one
    · cases hw
  | worker =>
    simp only [State.waits] at hw
    split at hw
    · rename_i hk; simp [State.holds, hk] at hh
    · rename_i hk; simp [State.holds, hk] at hh
    · rename_i hk; simp [State.holds, hk] at hh
    · cases hw

/-! ## No wake-up is lost -/

/-- While the worker sleeps, the queue is empty or a producer is about to signal. -/
def Awake (s : State) : Prop := s.worker = .waiting → s.queue = [] ∨ ∃ t, s.adding t = some .signal

theorem adding_withAdding {s : State} {t : Thread} {add : AddQueue} (ha : s.adding t = some add) (add' : Option AddQueue)
    (u : Thread) : (s.withAdding t add').adding u = if u = t then add' else s.adding u := by
  cases t with
  | worker => cases ha
  | watcher => cases u <;> simp [State.withAdding, State.adding]
  | timer =>
    obtain ⟨called, now, ht⟩ := adding_timer ha
    cases u <;> simp [State.withAdding, State.adding, ht]

theorem worker_withAdding (s : State) (t : Thread) (add : Option AddQueue) :
    (s.withAdding t add).worker = s.worker ∧ (s.withAdding t add).queue = s.queue := by
  unfold State.withAdding
  split
  · exact ⟨rfl, rfl⟩
  · split <;> exact ⟨rfl, rfl⟩
  · exact ⟨rfl, rfl⟩

/-- A step of another kind leaves the worker, the queue and the signals alone. -/
theorem awake_same {s s' : State} (h : Awake s) (hk : s'.worker = .waiting → s.worker = .waiting) (hq : s'.queue = s.queue)
    (ha : ∀ t, s.adding t = some .signal → s'.adding t = some .signal) : Awake s' := by
  intro hw
  rw [hq]
  exact (h (hk hw)).imp id (fun ⟨t, ht⟩ => ⟨t, ha t ht⟩)

/-- A step of `add_queue` other than the push and the signal. -/
theorem awake_add {s : State} (h : Awake s) {t : Thread} {add : AddQueue} (ha : s.adding t = some add) (hne : add ≠ .signal)
    (s₁ : State) (hw : s₁.watcher = s.watcher) (ht : s₁.timer = s.timer) (hk : s₁.worker = s.worker)
    (hq : s₁.queue = s.queue) (add' : Option AddQueue) : Awake (s₁.withAdding t add') := by
  obtain ⟨hworker, hqueue⟩ := worker_withAdding s₁ t add'
  refine awake_same h (fun e => by rwa [hworker, hk] at e) (hqueue.trans hq) (fun u hu => ?_)
  rw [adding_withAdding ((adding_congr hw ht t).trans ha), adding_congr hw ht]
  split
  · rename_i e
    rw [e, ha] at hu
    exact absurd (Option.some.inj hu) hne
  · exact hu

/-- A step of the timer outside `add_queue`. -/
theorem awake_timer {s : State} (h : Awake s) (hnone : s.adding .timer = none) {s' : State} (hk : s'.worker = s.worker)
    (hq : s'.queue = s.queue) (hw : s'.watcher = s.watcher) : Awake s' := by
  refine awake_same h (fun e => hk ▸ e) hq (fun u hu => ?_)
  cases u with
  | watcher => exact hw.trans hu
  | timer => rw [hnone] at hu; cases hu
  | worker => cases hu

theorem awake_step {s s' : State} {pushed taken : List AnalysisNode} (hs : StepCase s pushed taken s') (h : Awake s) :
    Awake s' := by
  cases hs with
  | analysis node hw =>
    refine awake_same h (fun e => e) rfl (fun t ht => ?_)
    cases t with
    | watcher =>
      have ht : s.watcher = some .signal := ht
      rw [hw] at ht
      cases ht
    | timer | worker => exact ht
  | addLock t node ha =>
    exact awake_add h ha AddQueue.noConfusion { s with owner := Function.update s.owner .mutex (some t) } rfl rfl rfl rfl _
  | addUnlock t ha => exact awake_add h ha AddQueue.noConfusion (unlock s .mutex) rfl rfl rfl rfl _
  | addPush t node ha =>
    have ha' : ({ s with queue := s.queue ++ [node] } : State).adding t = some (.push node) :=
      (adding_congr rfl rfl t).trans ha
    exact fun _ => Or.inr ⟨t, by rw [adding_withAdding ha', if_pos rfl]⟩
  | addSignal t ha =>
    intro hw
    rw [(worker_withAdding _ t _).1] at hw
    have hw : (if s.worker = .waiting then WorkerPc.woken else s.worker) = .waiting := hw
    split at hw
    · cases hw
    · rename_i hn; exact absurd hw hn
  | timerLock ht | due now ht | callback t called now ht | erase now ht | timerUnlock ht =>
    exact awake_timer h (by simp only [State.adding, ht]) rfl rfl rfl
  | wait hw hq => exact fun _ => Or.inl hq
  | workerLock | take | workerUnlock | lockFor | inside | spurious => exact fun e => by cases e
  | exit node e hw => exact fun hk => by cases e <;> cases hk
  | unlockAfter op next hw => exact fun hk => by cases next <;> cases hk

/-! ## Delivery -/

/-- The nodes pushed and the nodes the worker has taken, in order. -/
structure Traffic where
  pushed : List AnalysisNode
  taken  : List AnalysisNode

def Traffic.note (s : State) (l : Label) (_ : State) (T : Traffic) : Traffic :=
  ⟨T.pushed ++ pushedBy s l, T.taken ++ takenBy s l⟩

def traffic (s₀ : State) (ls : List Label) : Traffic := Machine.history step Traffic.note s₀ ⟨[], []⟩ ls

/-- **Each step moves whole nodes**: what is taken and what is left is what was queued and what is pushed. -/
theorem queue_step {s s' : State} {pushed taken : List AnalysisNode} (hs : StepCase s pushed taken s') :
    taken ++ s'.queue = s.queue ++ pushed := by
  cases hs with
  | addLock t | addUnlock t | addSignal t =>
    rw [(worker_withAdding _ t _).2, List.append_nil]
    rfl
  | addPush t => rw [(worker_withAdding _ t _).2, List.nil_append]
  | take node queue hw hq => rw [hq, List.append_nil]; rfl
  | inside op =>
    show [] ++ (op.run s).1.queue = s.queue ++ []
    rw [(run_owner s op).2.2.2, List.append_nil, List.nil_append]
  | _ => exact (List.append_nil _).symm

/-- What holds in every run of the three threads. -/
structure Sane (s : State) (T : Traffic) : Prop where
  owned     : Owned s
  awake     : Awake s
  delivered : T.taken ++ s.queue = T.pushed

theorem run_sane (callbacks : Callbacks AnalysisNode) (taskmap : Str → Option (TaskTimer AnalysisNode)) (globalId : Int)
    (ls : List Label) (s : State) (h : Machine.run step (initial callbacks taskmap globalId) ls = some s) :
    Sane s (traffic (initial callbacks taskmap globalId) ls) := by
  refine Machine.run_inv_history step Traffic.note Sane (initial callbacks taskmap globalId) ⟨[], []⟩ ?_ ?_ ls s h
  · refine ⟨fun m t => ?_, fun hw => (by cases hw), rfl⟩
    cases t <;> simp [initial, State.holds]
  · intro s l s' T hi hs
    have hcase := stepCase_of_step s s' l hs
    refine ⟨owned_step hcase hi.owned, awake_step hcase hi.awake, ?_⟩
    show (T.taken ++ takenBy s l) ++ s'.queue = T.pushed ++ pushedBy s l
    rw [List.append_assoc, queue_step hcase, ← List.append_assoc, hi.delivered]

/-- **The queue delivers everything once and nobody gets stuck**: in every run, what the worker has taken and what is queued
is what was pushed, in order; a worker asleep with the mutex free has nothing to do; and no threads wait for each other in a
circle. -/
theorem queue_delivers (callbacks : Callbacks AnalysisNode) (taskmap : Str → Option (TaskTimer AnalysisNode)) (globalId : Int)
    (ls : List Label) (s : State) (h : Machine.run step (initial callbacks taskmap globalId) ls = some s) :
    (traffic (initial callbacks taskmap globalId) ls).taken ++ s.queue =
        (traffic (initial callbacks taskmap globalId) ls).pushed ∧
      ¬ (s.queue ≠ [] ∧ s.worker = .waiting ∧ s.owner .mutex = none) ∧
      ∀ t, ¬ Relation.TransGen (LockOrder.WaitsFor s.waits s.owner) t t := by
  have hsane := run_sane callbacks taskmap globalId ls s h
  refine ⟨hsane.delivered, fun ⟨hq, hw, hfree⟩ => ?_, ?_⟩
  · obtain ⟨t, ht⟩ := (hsane.awake hw).resolve_left hq
    have howner := (hsane.owned .mutex t).2 (by rw [holds_adding ht]; rfl)
    rw [hfree] at howner
    cases howner
  · exact LockOrder.no_cycle s.waits s.owner Mutex.rank
      (fun t m m' hw ho => rank_of_waits s t m m' hw ((hsane.owned m' t).1 ho))

/-- The worker sleeps, a pass pushes the node of a timer while the watcher waits for the mutex, and the worker takes it and
arms a timer for it. -/
def passWakesWorker : List Label :=
  [.worker, .worker, .timer, .time 7, .timer, .analysis ⟨ascii "/w", ascii "/w/g"⟩, .timer, .timer, .timer, .timer,
    .watcher, .watcher, .watcher, .watcher, .timer, .timer, .worker, .worker, .worker, .exit (.delay 9), .worker, .worker,
    .worker, .worker]

theorem passWakesWorker_delivers : ∃ s,
    Machine.run step (initial (TaskTimerManager.add TaskTimerManager.empty ⟨5, 0, ⟨ascii "/w", ascii "/w/f"⟩⟩) (fun _ => none) 1)
        passWakesWorker = some s ∧
      s.queue = [⟨ascii "/w", ascii "/w/g"⟩] ∧ s.worker = .inside (.add ⟨9, 1, ⟨ascii "/w", ascii "/w/f"⟩⟩) ∧
      ¬ Relation.TransGen (LockOrder.WaitsFor s.waits s.owner) .worker .worker := by
  have hrun : Machine.run step (initial (TaskTimerManager.add TaskTimerManager.empty ⟨5, 0, ⟨ascii "/w", ascii "/w/f"⟩⟩)
      (fun _ => none) 1) passWakesWorker = some _ := (Option.some_get (by decide)).symm
  exact ⟨_, hrun, by decide, by decide, (queue_delivers _ _ _ _ _ hrun).2.2 .worker⟩

end CheckRealtime.Threads
