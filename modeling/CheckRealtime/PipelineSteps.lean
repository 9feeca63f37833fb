import CheckRealtime.Pipeline
/-!
# PipelineSteps — what a step of the machine can do

`StepCase` lists the transitions of the machine, each with its guard and the state it leads to, so that an invariant over
runs is one case analysis and never unfolds `step`.
-/
namespace CheckRealtime

variable {σ : Type}

/-- The labels that leave the clock, the queue, `do_analysis` and its data alone. -/
def Label.outside : Label → Bool
  | .addWatch _ _ | .change _ _ _ | .unnamed _ | .startThreads => true
  | _                                                          => false

/-- The file `do_analysis` is working on. -/
def Pc.file : Pc → Option Str
  | .idle             => none
  | .start n          => some n.name
  | .newFile n        => some n.name
  | .insertRow n _    => some n.name
  | .alertCreated n   => some n.name
  | .getTask n _      => some n.name
  | .cancelTask n _ _ => some n.name
  | .addTask n _      => some n.name
  | .setTask n _      => some n.name
  | .check n _        => some n.name
  | .alertDeleted n   => some n.name
  | .delRow n         => some n.name
  | .updateRow n _    => some n.name
  | .alertChanged n   => some n.name
  | .delTask n        => some n.name

/-- Outside the part of `do_analysis` that decides and writes. -/
def Pc.settled : Pc → Bool
  | .idle | .start _ | .getTask _ _ | .cancelTask _ _ _ | .addTask _ _ | .setTask _ _ | .delTask _ => true
  | _                                                                                             => false

theorem file_ne {n : AnalysisNode} {f : Str} (hf : n.name ≠ f) : some n.name ≠ some f := fun e => hf (Option.some.inj e)

inductive StepCase (C : Config) (D : DbOps σ) (s : St σ) : Label → St σ → Prop where
  | outside (l : Label) (s' : St σ) (hl : l.outside = true) (hnow : s'.now = s.now) (hq : s'.queue = s.queue)
      (hpc : s'.pc = s.pc) (hj : s'.judge = s.judge) : StepCase C D s l s'
  | tick (t : Int) (ht : s.now ≤ t) : StepCase C D s (.tick t) { s with now := t }
  | watch (count : Nat) : StepCase C D s (.watch count)
      { s with kernel := s.kernel.drop count, queue := s.queue ++ (s.kernel.take count).filterMap (watchEvent s.hash) }
  | pass : StepCase C D s .pass
      { s with queue := s.queue ++ (TaskTimerManager.execute s.judge.callbacks s.now).1.map (·.userData)
               judge := { s.judge with callbacks := (TaskTimerManager.execute s.judge.callbacks s.now).2 } }
  | scanFile (n : AnalysisNode) (hpc : s.pc = .idle) : StepCase C D s (.scanFile n) { s with pc := .start n }
  | take (n : AnalysisNode) (q : List AnalysisNode) (hq : s.queue = n :: q) (hpc : s.pc = .idle) :
      StepCase C D s .take { s with queue := q, pc := .start n }
  | skip (n : AnalysisNode) (hpc : s.pc = .start n) (hp : C.passes n.dir n.name = false) :
      StepCase C D s .enter { s with pc := .idle }
  | new (n : AnalysisNode) (db : σ) (hpc : s.pc = .start n) (hf : D.find s.judge.db n.name = (db, none))
      (hp : C.passes n.dir n.name = true) :
      StepCase C D s .enter { s with pc := .newFile n, judge := { s.judge with db := db } }
  | delay (n : AnalysisNode) (db : σ) (sum : Str) (ts : Int) (hpc : s.pc = .start n)
      (hf : D.find s.judge.db n.name = (db, some (sum, ts))) (hd : C.delays s.now ts = true) :
      StepCase C D s .enter { s with pc := .getTask n s.now, judge := { s.judge with db := db } }
  | check (n : AnalysisNode) (db : σ) (sum : Str) (ts : Int) (hpc : s.pc = .start n)
      (hf : D.find s.judge.db n.name = (db, some (sum, ts))) (hd : C.delays s.now ts = false) :
      StepCase C D s .enter { s with pc := .check n sum, judge := { s.judge with db := db } }
  | looked (n : AnalysisNode) (ob : Observed) (hpc : s.pc = .newFile n) :
      StepCase C D s (.checksum n.name ob) { s with pc := .insertRow n (getChecksum ob []).2 }
  | gone (n : AnalysisNode) (sum : Str) (ob : Observed) (hpc : s.pc = .check n sum) (ha : ob.absent = true) :
      StepCase C D s (.checksum n.name ob) { s with pc := .alertDeleted n }
  | differs (n : AnalysisNode) (sum : Str) (ob : Observed) (hpc : s.pc = .check n sum) (ha : ob.absent = false)
      (hc : (getChecksum ob []).2 ≠ sum) :
      StepCase C D s (.checksum n.name ob) { s with pc := .updateRow n (getChecksum ob []).2 }
  | same (n : AnalysisNode) (sum : Str) (ob : Observed) (hpc : s.pc = .check n sum) (ha : ob.absent = false)
      (hc : (getChecksum ob []).2 = sum) : StepCase C D s (.checksum n.name ob) { s with pc := .delTask n }
  | insertRow (n : AnalysisNode) (checksum : Str) (hpc : s.pc = .insertRow n checksum) : StepCase C D s .work
      { s with pc := .alertCreated n, judge := { s.judge with db := D.insert s.judge.db n.name checksum s.now } }
  | alertCreated (n : AnalysisNode) (hpc : s.pc = .alertCreated n) : StepCase C D s .work
      { s with pc := .idle, judge := s.judge.alert .created n.dir n.name }
  | found (n : AnalysisNode) (now : Int) (old : TaskTimer AnalysisNode) (hpc : s.pc = .getTask n now)
      (hold : s.judge.taskmap n.name = some old) : StepCase C D s .work { s with pc := .cancelTask n now old }
  | missing (n : AnalysisNode) (now : Int) (hpc : s.pc = .getTask n now) (hold : s.judge.taskmap n.name = none) :
      StepCase C D s .work { s with pc := .addTask n now }
  | cancelTask (n : AnalysisNode) (now : Int) (old : TaskTimer AnalysisNode) (hpc : s.pc = .cancelTask n now old) :
      StepCase C D s .work
        { s with pc := .addTask n now, judge := { s.judge with callbacks := TaskTimerManager.cancel s.judge.callbacks old } }
  | addTask (n : AnalysisNode) (now : Int) (hpc : s.pc = .addTask n now) : StepCase C D s .work
      { s with pc    := .setTask n (C.newTask s.judge.globalId now n.dir n.name)
               judge := { s.judge with
                 callbacks := TaskTimerManager.add s.judge.callbacks (C.newTask s.judge.globalId now n.dir n.name)
                 globalId  := s.judge.globalId + 1 } }
  | setTask (n : AnalysisNode) (t : TaskTimer AnalysisNode) (hpc : s.pc = .setTask n t) : StepCase C D s .work
      { s with pc := .idle, judge := { s.judge with taskmap := Function.update s.judge.taskmap n.name (some t) } }
  | alertDeleted (n : AnalysisNode) (hpc : s.pc = .alertDeleted n) : StepCase C D s .work
      { s with pc := .delRow n, judge := s.judge.alert .deleted n.dir n.name }
  | delRow (n : AnalysisNode) (hpc : s.pc = .delRow n) : StepCase C D s .work
      { s with pc := .delTask n, judge := { s.judge with db := D.del s.judge.db n.name } }
  | updateRow (n : AnalysisNode) (checksum : Str) (hpc : s.pc = .updateRow n checksum) : StepCase C D s .work
      { s with pc := .alertChanged n, judge := { s.judge with db := D.update s.judge.db n.name checksum s.now } }
  | alertChanged (n : AnalysisNode) (hpc : s.pc = .alertChanged n) : StepCase C D s .work
      { s with pc := .delTask n, judge := s.judge.alert .changed n.dir n.name }
  | delTask (n : AnalysisNode) (hpc : s.pc = .delTask n) : StepCase C D s .work
      { s with pc := .idle, judge := { s.judge with taskmap := Function.update s.judge.taskmap n.name none } }

theorem stepCase_enter (C : Config) (D : DbOps σ) (s : St σ) (n : AnalysisNode) (hpc : s.pc = .start n) :
    StepCase C D s .enter (enter C D s n) := by
  unfold enter
  split
  · rename_i hp
    cases hf : D.find s.judge.db n.name with
    | mk db row =>
      cases row with
      | none => exact .new n db hpc hf hp
      | some r =>
        obtain ⟨sum, ts⟩ := r
        simp only
        split
        · rename_i hd; exact .delay n db sum ts hpc hf hd
        · rename_i hd; exact .check n db sum ts hpc hf (by simpa using hd)
  · rename_i hp; exact .skip n hpc (by simpa using hp)

theorem stepCase_checksum (C : Config) (D : DbOps σ) (s : St σ) (n : AnalysisNode) (sum : Str) (ob : Observed)
    (hpc : s.pc = .check n sum) : StepCase C D s (.checksum n.name ob) { s with pc := afterChecksum ob n sum } := by
  rw [afterChecksum_eq]
  cases ha : ob.absent with
  | true => exact .gone n sum ob hpc ha
  | false =>
    by_cases hc : (getChecksum ob []).2 = sum
    · simp only [hc, Bool.false_eq_true, if_false, ne_eq, not_true]
      exact .same n sum ob hpc ha hc
    · simp only [hc, Bool.false_eq_true, if_false, ne_eq, not_false_eq_true, if_true]
      exact .differs n sum ob hpc ha hc

theorem stepCase_work (C : Config) (D : DbOps σ) (s s' : St σ) (h : work C D s = some s') : StepCase C D s .work s' := by
  unfold work at h
  cases hpc : s.pc with
  | idle | start | newFile | check => rw [hpc] at h; cases h
  | getTask n now =>
    rw [hpc] at h
    simp only at h
    split at h
    · rename_i old hold; cases h; exact .found n now old hpc hold
    · rename_i hold; cases h; exact .missing n now hpc hold
  | insertRow n checksum => rw [hpc] at h; cases h; exact .insertRow n checksum hpc
  | alertCreated n => rw [hpc] at h; cases h; exact .alertCreated n hpc
  | cancelTask n now old => rw [hpc] at h; cases h; exact .cancelTask n now old hpc
  | addTask n now => rw [hpc] at h; cases h; exact .addTask n now hpc
  | setTask n t => rw [hpc] at h; cases h; exact .setTask n t hpc
  | alertDeleted n => rw [hpc] at h; cases h; exact .alertDeleted n hpc
  | delRow n => rw [hpc] at h; cases h; exact .delRow n hpc
  | updateRow n checksum => rw [hpc] at h; cases h; exact .updateRow n checksum hpc
  | alertChanged n => rw [hpc] at h; cases h; exact .alertChanged n hpc
  | delTask n => rw [hpc] at h; cases h; exact .delTask n hpc

/-- **Every step of the machine is one of these.** -/
theorem stepCase_of_step (C : Config) (D : DbOps σ) (s s' : St σ) (l : Label) (h : step C D s l = some s') :
    StepCase C D s l s' := by
  cases l with
  | tick t =>
    simp only [step] at h
    split at h
    · rename_i ht; cases h; exact .tick t ht
    · cases h
  | addWatch wd dir =>
    simp only [step] at h
    split at h
    · cases h; exact .outside _ _ rfl rfl rfl rfl rfl
    · cases h
  | change wd dir name =>
    simp only [step] at h
    split at h
    · cases h; exact .outside _ _ rfl rfl rfl rfl rfl
    · cases h
  | unnamed wd =>
    simp only [step] at h
    split at h
    · cases h
    · cases h; exact .outside _ _ rfl rfl rfl rfl rfl
  | scanFile n =>
    simp only [step] at h
    split at h
    · rename_i hpc; cases h; exact .scanFile n hpc.2
    · cases h
  | startThreads =>
    simp only [step] at h
    split at h
    · cases h; exact .outside _ _ rfl rfl rfl rfl rfl
    · cases h
  | watch count =>
    simp only [step] at h
    split at h
    · cases h; exact .watch count
    · cases h
  | pass =>
    simp only [step] at h
    split at h
    · cases h; exact .pass
    · cases h
  | take =>
    simp only [step] at h
    split at h
    · cases h
    · rename_i n q hq
      split at h
      · rename_i hpc; cases h; exact .take n q hq hpc.2
      · cases h
  | enter =>
    simp only [step] at h
    split at h
    · rename_i n hpc; cases h; exact stepCase_enter C D s n hpc
    · cases h
  | checksum name ob =>
    simp only [step] at h
    split at h
    · rename_i n hpc
      split at h
      · rename_i hname; subst hname; cases h; exact .looked n ob hpc
      · cases h
    · rename_i n sum hpc
      split at h
      · rename_i hname; subst hname; cases h; exact stepCase_checksum C D s n sum ob hpc
      · cases h
    · cases h
  | work => exact stepCase_work C D s s' h

end CheckRealtime
