import CheckRealtime.FileAnalysis
import CheckRealtime.Machine
/-!
# Pipeline — the watcher, the worker and the timer thread

The process as one labelled machine (`step`).  A changed file passes through four places: the kernel's inotify queue,
`anlysis_queue`, the worker and the timer manager.  What other processes do to files, `watch()`, a pass of
`TaskTimerManager::execute` and the worker's iterations interleave freely; `do_analysis` is split at every lock operation,
every call of the database, of `get_checksum` and of the alerter (`Pc`).  The scan at startup runs `do_analysis` in the
main thread before the two other threads exist, so it is the same machine with `running` unset.
-/
namespace CheckRealtime

/-- Where the thread that runs `do_analysis` stands; `idle` is between two calls. -/
inductive Pc where
  | idle
  | start (n : AnalysisNode)
  | newFile (n : AnalysisNode)
  | insertRow (n : AnalysisNode) (checksum : Str)
  | alertCreated (n : AnalysisNode)
  | getTask (n : AnalysisNode) (now : Int)
  | cancelTask (n : AnalysisNode) (now : Int) (oldTask : TaskTimer AnalysisNode)
  | addTask (n : AnalysisNode) (now : Int)
  | setTask (n : AnalysisNode) (taskTimer : TaskTimer AnalysisNode)
  | check (n : AnalysisNode) (sum : Str)
  | alertDeleted (n : AnalysisNode)
  | delRow (n : AnalysisNode)
  | updateRow (n : AnalysisNode) (checksum : Str)
  | alertChanged (n : AnalysisNode)
  | delTask (n : AnalysisNode)
deriving DecidableEq

/-- An inotify event: its watch descriptor and its name, which is empty when `len` is 0. -/
structure InotifyEvent where
  wd   : Nat
  name : Str
deriving DecidableEq

structure St (σ : Type) where
  now     : Int
  running : Bool
  hash    : Nat → Option Str
  kernel  : List InotifyEvent
  queue   : List AnalysisNode
  pc      : Pc
  judge   : Judge σ

inductive Label where
  -- the clock moves on
  | tick (t : Int)
  -- the scan puts a directory under watch: `add_dir(dir)`
  | addWatch (wd : Nat) (dir : Str)
  -- another process changes a file of a watched directory
  | change (wd : Nat) (dir name : Str)
  -- an event without a name, such as the one for `IN_DELETE_SELF`
  | unnamed (wd : Nat)
  -- the scan hands a file to `do_analysis`
  | scanFile (n : AnalysisNode)
  -- `main` creates the worker and the timer thread and enters the watch loop
  | startThreads
  -- `watch()` reads that many whole events
  | watch (count : Nat)
  -- a pass of the timer thread
  | pass
  -- the worker takes a node off the queue
  | take
  -- the two tests at the head of `do_analysis`, `time(NULL)` and `find`
  | enter
  -- `get_checksum`
  | checksum (name : Str) (ob : Observed)
  -- any other step of `do_analysis`
  | work

def finalName (baseDir name : Str) : Str := baseDir ++ slash :: name

/-- The body of the loop of `watch()`: an event without a name is skipped. -/
def watchEvent (hash : Nat → Option Str) (e : InotifyEvent) : Option AnalysisNode :=
  if e.name = [] then none else (hash e.wd).map (fun baseDir => ⟨baseDir, finalName baseDir e.name⟩)

variable {σ : Type}

def enter (C : Config) (D : DbOps σ) (s : St σ) (n : AnalysisNode) : St σ :=
  if C.passes n.dir n.name then
    let (db, row) := D.find s.judge.db n.name
    let s := { s with judge := { s.judge with db := db } }
    match row with
    | none                  => { s with pc := .newFile n }
    | some (sum, timestamp) =>
      if C.delays s.now timestamp then { s with pc := .getTask n s.now } else { s with pc := .check n sum }
  else { s with pc := .idle }

def afterChecksum (ob : Observed) (n : AnalysisNode) (sum : Str) : Pc :=
  let (rc, checksum) := getChecksum ob []
  if rc = FILE_NOT_EXIST then .alertDeleted n else if checksum ≠ sum then .updateRow n checksum else .delTask n

/-- The steps of `do_analysis` that see nothing but the process's own data. -/
def work (C : Config) (D : DbOps σ) (s : St σ) : Option (St σ) :=
  let j := s.judge
  match s.pc with
  | .insertRow n checksum  => some { s with pc := .alertCreated n, judge := { j with db := D.insert j.db n.name checksum s.now } }
  | .alertCreated n        => some { s with pc := .idle, judge := j.alert .created n.dir n.name }
  | .getTask n now         =>
    match j.taskmap n.name with
    | some oldTask => some { s with pc := .cancelTask n now oldTask }
    | none         => some { s with pc := .addTask n now }
  | .cancelTask n now old  =>
    some { s with pc := .addTask n now, judge := { j with callbacks := TaskTimerManager.cancel j.callbacks old } }
  | .addTask n now         =>
    let taskTimer := C.newTask j.globalId now n.dir n.name
    some { s with pc := .setTask n taskTimer
                  judge := { j with callbacks := TaskTimerManager.add j.callbacks taskTimer, globalId := j.globalId + 1 } }
  | .setTask n taskTimer   =>
    some { s with pc := .idle, judge := { j with taskmap := Function.update j.taskmap n.name (some taskTimer) } }
  | .alertDeleted n        => some { s with pc := .delRow n, judge := j.alert .deleted n.dir n.name }
  | .delRow n              => some { s with pc := .delTask n, judge := { j with db := D.del j.db n.name } }
  | .updateRow n checksum  => some { s with pc := .alertChanged n, judge := { j with db := D.update j.db n.name checksum s.now } }
  | .alertChanged n        => some { s with pc := .delTask n, judge := j.alert .changed n.dir n.name }
  | .delTask n             =>
    some { s with pc := .idle, judge := { j with taskmap := Function.update j.taskmap n.name none } }
  | _                      => none

def step (C : Config) (D : DbOps σ) (s : St σ) : Label → Option (St σ)
  | .tick t             => if s.now ≤ t then some { s with now := t } else none
  | .addWatch wd dir    =>
    if s.running = false ∧ s.pc = .idle then
      -- the string of the first `add_dir` stays
      some { s with hash := if s.hash wd = none then Function.update s.hash wd (some dir) else s.hash }
    else none
  | .change wd dir name =>
    if s.hash wd = some dir ∧ name ≠ [] then some { s with kernel := s.kernel ++ [⟨wd, name⟩] } else none
  | .unnamed wd         => if s.hash wd = none then none else some { s with kernel := s.kernel ++ [⟨wd, []⟩] }
  | .scanFile n         => if s.running = false ∧ s.pc = .idle then some { s with pc := .start n } else none
  | .startThreads       => if s.running = false ∧ s.pc = .idle then some { s with running := true } else none
  | .watch count        =>
    if s.running = true then
      some { s with kernel := s.kernel.drop count, queue := s.queue ++ (s.kernel.take count).filterMap (watchEvent s.hash) }
    else none
  | .pass               =>
    if s.running = true then
      let (called, cs) := TaskTimerManager.execute s.judge.callbacks s.now
      some { s with queue := s.queue ++ called.map (·.userData), judge := { s.judge with callbacks := cs } }
    else none
  | .take               =>
    match s.queue with
    | []     => none
    | n :: q => if s.running = true ∧ s.pc = .idle then some { s with queue := q, pc := .start n } else none
  | .enter              => match s.pc with
    | .start n => some (enter C D s n)
    | _        => none
  | .checksum name ob   => match s.pc with
    | .newFile n   => if name = n.name then some { s with pc := .insertRow n (getChecksum ob []).2 } else none
    | .check n sum => if name = n.name then some { s with pc := afterChecksum ob n sum } else none
    | _            => none
  | .work               => work C D s

/-- The process as it starts: nothing queued, armed or under watch, over whatever database an earlier run left. -/
def initial (now : Int) (db : σ) : St σ :=
  ⟨now, false, fun _ => none, [], [], .idle, ⟨noTasks, db, []⟩⟩

/-! ## One call, step by step

Left alone, the steps of a call from `start` to `idle` do what `doAnalysis` does in one. -/

theorem afterChecksum_eq (ob : Observed) (n : AnalysisNode) (sum : Str) : afterChecksum ob n sum =
    if ob.absent = true then .alertDeleted n
    else if (getChecksum ob []).2 ≠ sum then .updateRow n (getChecksum ob []).2 else .delTask n := by
  simp only [afterChecksum, getChecksum_rc_eq]

theorem enter_new {C : Config} {D : DbOps σ} {s : St σ} {n : AnalysisNode} {db : σ}
    (hp : C.passes n.dir n.name = true) (hf : D.find s.judge.db n.name = (db, none)) :
    enter C D s n = { s with pc := .newFile n, judge := { s.judge with db := db } } := by
  simp only [enter, if_pos hp, hf]

theorem enter_known {C : Config} {D : DbOps σ} {s : St σ} {n : AnalysisNode} {db : σ} {sum : Str} {ts : Int}
    (hp : C.passes n.dir n.name = true) (hf : D.find s.judge.db n.name = (db, some (sum, ts))) :
    enter C D s n = { s with
      pc    := if C.delays s.now ts = true then .getTask n s.now else .check n sum
      judge := { s.judge with db := db } } := by
  simp only [enter, if_pos hp, hf]
  split <;> rfl

section

variable (C : Config) (D : DbOps σ) {s : St σ} {n : AnalysisNode} (ls : List Label)

theorem run_enter (h : s.pc = .start n) :
    Machine.run (step C D) s (.enter :: ls) = Machine.run (step C D) (enter C D s n) ls := by
  have hs : step C D s .enter = some (enter C D s n) := by
    unfold step
    rw [h]
  rw [Machine.run_cons, hs]
  rfl

theorem run_tick {t : Int} (h : s.now ≤ t) :
    Machine.run (step C D) s (.tick t :: ls) = Machine.run (step C D) { s with now := t } ls := by
  have hs : step C D s (.tick t) = some { s with now := t } := if_pos h
  rw [Machine.run_cons, hs]
  rfl

theorem run_looked (h : s.pc = .newFile n) (ob : Observed) : Machine.run (step C D) s (.checksum n.name ob :: ls) =
    Machine.run (step C D) { s with pc := .insertRow n (getChecksum ob []).2 } ls := by
  have hs : step C D s (.checksum n.name ob) = some { s with pc := .insertRow n (getChecksum ob []).2 } := by
    unfold step
    rw [h]
    exact if_pos rfl
  rw [Machine.run_cons, hs]
  rfl

theorem run_checked {sum : Str} (h : s.pc = .check n sum) (ob : Observed) :
    Machine.run (step C D) s (.checksum n.name ob :: ls) =
      Machine.run (step C D) { s with pc := afterChecksum ob n sum } ls := by
  have hs : step C D s (.checksum n.name ob) = some { s with pc := afterChecksum ob n sum } := by
    unfold step
    rw [h]
    exact if_pos rfl
  rw [Machine.run_cons, hs]
  rfl

theorem run_getTask {now : Int} (h : s.pc = .getTask n now) : Machine.run (step C D) s (.work :: ls) =
    Machine.run (step C D) { s with pc := match s.judge.taskmap n.name with
      | some old => .cancelTask n now old
      | none     => .addTask n now } ls := by
  have hs : step C D s .work = some { s with pc := match s.judge.taskmap n.name with
      | some old => .cancelTask n now old
      | none     => .addTask n now } := by
    show work C D s = _
    unfold work
    rw [h]
    simp only
    split <;> rfl
  rw [Machine.run_cons, hs]
  rfl

end

/-- **The machine refines into `doAnalysis`**: a call that no other thread interrupts, with the clock read once before
and once after `get_checksum`. -/
theorem run_doAnalysis (C : Config) (D : DbOps σ) (s : St σ) (n : AnalysisNode) (later : Int) (ob : Observed)
    (hpc : s.pc = .start n) (hl : s.now ≤ later) :
    ∃ ls, Machine.run (step C D) s ls =
      some { s with pc := .idle, now := later, judge := doAnalysis C D s.now later ob s.judge n.dir n.name } := by
  by_cases hp : C.passes n.dir n.name = true
  · cases hf : D.find s.judge.db n.name with
    | mk db row =>
      cases row with
      | none =>
        refine ⟨[.enter, .tick later, .checksum n.name ob, .work, .work], ?_⟩
        rw [doAnalysis_new C D s.now later ob s.judge n.dir n.name hp hf, run_enter C D _ hpc, enter_new hp hf,
          run_tick C D _ (by exact hl), run_looked C D _ (by rfl)]
        rfl
      | some r =>
        obtain ⟨sum, ts⟩ := r
        have he := enter_known hp hf
        cases hd : C.delays s.now ts with
        | true =>
          rw [if_pos hd] at he
          rw [doAnalysis_delayed C D s.now later ob s.judge n.dir n.name hp hf hd]
          cases ht : s.judge.taskmap n.name with
          | none =>
            refine ⟨[.enter, .tick later, .work, .work, .work], ?_⟩
            rw [run_enter C D _ hpc, he, run_tick C D _ (by exact hl), run_getTask C D _ (by rfl)]
            simp only [ht, Judge.delay, cancelOld]
            rfl
          | some old =>
            refine ⟨[.enter, .tick later, .work, .work, .work, .work], ?_⟩
            rw [run_enter C D _ hpc, he, run_tick C D _ (by exact hl), run_getTask C D _ (by rfl)]
            simp only [ht, Judge.delay, cancelOld]
            rfl
        | false =>
          rw [if_neg (by rw [hd]; exact Bool.false_ne_true)] at he
          rw [doAnalysis_checked C D s.now later ob s.judge n.dir n.name hp hf hd]
          by_cases ha : ob.absent = true
          · refine ⟨[.enter, .tick later, .checksum n.name ob, .work, .work, .work], ?_⟩
            rw [run_enter C D _ hpc, he, run_tick C D _ (by exact hl), run_checked C D _ (by rfl), afterChecksum_eq,
              if_pos ha, if_pos ha]
            rfl
          · by_cases hc : (getChecksum ob []).2 = sum
            · refine ⟨[.enter, .tick later, .checksum n.name ob, .work], ?_⟩
              rw [run_enter C D _ hpc, he, run_tick C D _ (by exact hl), run_checked C D _ (by rfl), afterChecksum_eq,
                if_neg ha, if_neg ha, if_neg (not_not.2 hc), if_neg (not_not.2 hc)]
              rfl
            · refine ⟨[.enter, .tick later, .checksum n.name ob, .work, .work, .work], ?_⟩
              rw [run_enter C D _ hpc, he, run_tick C D _ (by exact hl), run_checked C D _ (by rfl), afterChecksum_eq,
                if_neg ha, if_neg ha, if_pos hc, if_pos hc]
              rfl
  · have hp : C.passes n.dir n.name = false := by simpa using hp
    have he : enter C D s n = { s with pc := .idle } := by rw [enter, if_neg (by rw [hp]; exact Bool.false_ne_true)]
    refine ⟨[.enter, .tick later], ?_⟩
    rw [doAnalysis_not_passes C D s.now later ob s.judge n.dir n.name hp, run_enter C D _ hpc, he,
      run_tick C D _ (by exact hl)]
    rfl

end CheckRealtime
