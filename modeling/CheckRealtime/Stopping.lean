import CheckRealtime.Startup
/-!
# Stopping — `main --stop`, the command file and the end of `File_watcher::loop`

The processes of `Startup` and those started with `--stop`, stepping in any order.  A `--stop` tells the monitor in two
ways: a byte in the FIFO, which ends `loop`, and a signal to the pid it reads from the pid file after that.  The monitor
that leaves its loop removes the pid file, and another may have been started by then.

`stop_stops`: one of the two always comes through.  `target_pos`: `kill` is never given a number that stands for more than
one process.
-/
namespace CheckRealtime.Stopping

open Startup (Sys Stage Alone getPid overwrite isHelper isRunning)

/-- Where a process stands in `main`, after `--stop`. -/
inductive StopStage where
  | started
  -- `is_running` has read the pid file
  | checking (pid : Option Int)
  | running
  -- `File_watcher::stop` has returned
  | told
  -- `get_pid` has read the pid file once more
  | target (pid : Int)
deriving DecidableEq

structure Control where
  sys     : Sys
  stops   : Nat → Option StopStage
  /-- The FIFO that `CMD_FILE` names: each one made has a number of its own. -/
  pipe    : Option Nat
  made    : Nat
  /-- The monitors in `loop`, with the FIFO each has open. -/
  ears    : List (Nat × Nat)
  /-- The FIFOs with a byte in them. -/
  written : List Nat
  /-- The monitors that have left `loop`. -/
  left    : List Nat

inductive Label where
  | main (l : Startup.Label)
  | stop (pid : Nat) (comm : Str)
  -- the next step of a `--stop`, up to its call of `kill`
  | next (pid : Nat)
  | kill (pid : Nat) (victims : List Nat)
  -- `poll` reports the FIFO
  | leave (pid : Nat)
  | removePidFile (pid : Nat)

/-- What a FIFO holds is lost once nothing has it open. -/
def heard (ears : List (Nat × Nat)) (written : List Nat) : List Nat :=
  written.filter (fun pipe => ears.any (fun e => e.2 == pipe))

/-- A process ends. -/
def Control.exit (c : Control) (pid : Nat) : Control :=
  let ears := c.ears.filter (fun e => e.1 != pid)
  { c with
    sys     := c.sys.set pid none
    stops   := Function.update c.stops pid none
    ears    := ears
    written := heard ears c.written
    left    := c.left.filter (· != pid) }

def Control.setStop (c : Control) (pid : Nat) (stage : StopStage) : Control :=
  { c with stops := Function.update c.stops pid (some stage) }

/-- What a step of `Startup` does to the FIFO besides. -/
def Control.fifoStep (c : Control) (pid : Nat) : Control :=
  match c.sys.stage pid with
  | some .written | some .unwritten => { c with pipe := none }
  -- `mkfifo` fails where there is one
  | some .unlinked => if c.pipe.isSome then c else { c with pipe := some c.made, made := c.made + 1 }
  | some .configured => match c.pipe with
    | some pipe => { c with ears := (pid, pipe) :: c.ears }
    | none      => c
  | _ => c

/-- `File_watcher::stop`, whose result nobody looks at. -/
def Control.tell (c : Control) : Control :=
  match c.pipe with
  | some pipe => { c with written := heard c.ears (pipe :: c.written) }
  | none      => c

def advance (c : Control) (pid : Nat) : StopStage → Option Control
  | .started    => some (c.setStop pid (.checking (getPid c.sys.pidFile)))
  | .checking q => if isRunning c.sys q then some (c.setStop pid .running) else some (c.exit pid)
  | .running    => some (c.tell.setStop pid .told)
  | .told       => match getPid c.sys.pidFile with
    | some q => some (c.setStop pid (.target q))
    | none   => some (c.exit pid)
  | .target _   => none

def step (c : Control) : Label → Option Control
  | .main l => match l with
    | .next pid => (Startup.step c.sys l).map (fun sys => { c.fifoStep pid with sys := sys })
    | .gone pid => if (c.stops pid).isSome then none else (Startup.step c.sys l).map (fun sys => { c.exit pid with sys := sys })
    | _         => (Startup.step c.sys l).map (fun sys => { c with sys := sys })
  | .stop pid comm =>
    if c.sys.free pid && isHelper comm then some ({ c with sys := c.sys.set pid (some ⟨comm, none⟩) }.setStop pid .started)
    else none
  | .next pid => (c.stops pid).bind (advance c pid)
  -- a positive number names one process, and `SIGTERM` ends it
  | .kill pid victims => match c.stops pid with
    | some (.target q) => if 0 < q → victims = [q.toNat] then some ((victims.foldl Control.exit c).exit pid) else none
    | _                => none
  | .leave pid =>
    if c.sys.stage pid = some .watching ∧ pid ∉ c.left ∧ c.ears.any (fun e => e.1 == pid && c.written.contains e.2) then
      some { c with left := pid :: c.left }
    else none
  | .removePidFile pid => match c.sys.procs pid with
    | some ⟨comm, some .watching⟩ =>
      if pid ∈ c.left then some { c with sys := { c.sys with pidFile := none }.set pid (some ⟨comm, none⟩) } else none
    | _ => none

def initial (pidFile : Option Str) (fifo : Bool) (others : Nat → Option Str) : Control :=
  ⟨Startup.initial pidFile fifo others, fun _ => none, if fifo then some 0 else none, 1, [], [], []⟩

/-! ## What a step does to the processes of `Startup` -/

/-- A step of a process of `Startup`, or what the others do to them. -/
inductive SysStep (c : Control) : Label → Sys → Prop where
  | main (l : Startup.Label) (sys : Sys) (h : Startup.step c.sys l = some sys) : SysStep c (.main l) sys
  | same (l : Label) (h : ∀ l', l ≠ .main l') : SysStep c l c.sys
  | appear (pid : Nat) (comm : Str) : SysStep c (.stop pid comm) (c.sys.set pid (some ⟨comm, none⟩))
  | ends (pid : Nat) : SysStep c (.next pid) (c.exit pid).sys
  | kill (pid : Nat) (victims : List Nat) : SysStep c (.kill pid victims) ((victims.foldl Control.exit c).exit pid).sys
  | remove (pid : Nat) (comm : Str) (h : c.sys.procs pid = some ⟨comm, some .watching⟩) :
    SysStep c (.removePidFile pid) ({ c.sys with pidFile := none }.set pid (some ⟨comm, none⟩))

theorem tell_sys (c : Control) : c.tell.sys = c.sys := by
  unfold Control.tell
  split <;> rfl

theorem main_sys {c c' : Control} {l : Startup.Label} (h : step c (.main l) = some c') :
    Startup.step c.sys l = some c'.sys := by
  have hmap : ∀ (f : Sys → Control), (∀ sys, (f sys).sys = sys) → (Startup.step c.sys l).map f = some c' →
      Startup.step c.sys l = some c'.sys := fun f hf hs => by
    obtain ⟨sys, hsys, rfl⟩ := Option.map_eq_some_iff.1 hs
    rw [hf, hsys]
  cases l with
  | next pid => exact hmap _ (fun _ => rfl) h
  | gone pid =>
    rw [step] at h
    split at h
    · cases h
    · exact hmap _ (fun _ => rfl) h
  | _ => exact hmap _ (fun _ => rfl) h

theorem advance_sys {c c' : Control} {pid : Nat} {stage : StopStage} (h : advance c pid stage = some c') :
    SysStep c (.next pid) c'.sys := by
  have hsame : SysStep c (.next pid) c.sys := .same _ (fun l' e => by cases e)
  cases stage with
  | started => cases h; exact hsame
  | checking q =>
    rw [advance] at h
    split at h
    · cases h; exact hsame
    · cases h; exact .ends pid
  | running =>
    cases h
    show SysStep c (.next pid) c.tell.sys
    rw [tell_sys]
    exact hsame
  | told =>
    rw [advance] at h
    split at h
    · cases h; exact hsame
    · cases h; exact .ends pid
  | target q => cases h

theorem sysStep_of_step {c c' : Control} {l : Label} (h : step c l = some c') : SysStep c l c'.sys := by
  cases l with
  | main l => exact .main l c'.sys (main_sys h)
  | stop pid comm =>
    rw [step] at h
    split at h
    · cases h; exact .appear pid comm
    · cases h
  | next pid =>
    obtain ⟨stage, -, hs⟩ := Option.bind_eq_some_iff.1 h
    exact advance_sys hs
  | kill pid victims =>
    rw [step] at h
    split at h
    · split at h
      · cases h; exact .kill pid victims
      · cases h
    · cases h
  | leave pid =>
    rw [step] at h
    split at h
    · cases h; exact .same _ (fun l' e => by cases e)
    · cases h
  | removePidFile pid =>
    rw [step] at h
    split at h
    · rename_i comm hp
      split at h
      · cases h; exact .remove pid comm hp
      · cases h
    · cases h

/-! ## One monitor, and the pid file names it -/

/-- Past `write_pid_file`, and not yet past `remove_pid_file`. -/
def Control.past (c : Control) (pid : Nat) : Bool := (c.sys.stage pid).any Stage.past

/-- The starts are orderly. -/
def Orderly (c : Control) (l : Label) : Prop := ∀ l', l = .main l' → Startup.Orderly c.sys l'

theorem alone_exit {c : Control} (h : Alone c.sys) (pid : Nat) : Alone (c.exit pid).sys :=
  Startup.alone_quiet h pid none (fun _ _ e => by cases e) (fun _ e => by cases e)

theorem alone_exits : ∀ (victims : List Nat) (c : Control), Alone c.sys → Alone (victims.foldl Control.exit c).sys
  | [], _, h => h
  | v :: victims, c, h => alone_exits victims (c.exit v) (alone_exit h v)

/-- The monitor that removes the pid file was the one it named: no other is past its write. -/
theorem alone_remove {s : Sys} (h : Alone s) {pid : Nat} {comm : Str} (hp : s.procs pid = some ⟨comm, some .watching⟩) :
    Alone ({ s with pidFile := none }.set pid (some ⟨comm, none⟩)) := by
  have hstage : ∀ pid', ({ s with pidFile := none }.set pid (some ⟨comm, none⟩)).stage pid' =
      if pid' = pid then none else s.stage pid' := fun pid' => Startup.stage_set _ pid pid' _
  have hw := Startup.stage_of_procs hp
  -- a process is as it was, and not past its write
  have hback : ∀ pid' stage, ({ s with pidFile := none }.set pid (some ⟨comm, none⟩)).stage pid' = some stage →
      s.stage pid' = some stage ∧ stage.past = false := fun pid' stage hs => by
    rw [hstage] at hs
    split at hs
    · cases hs
    · rename_i hne
      refine ⟨hs, ?_⟩
      by_contra hpast
      have h1 := h.past pid' stage hs (by simpa using hpast)
      rw [h.past pid .watching hw rfl] at h1
      have := Option.some.inj h1
      omega
  have hnot : ∀ pid' stage, ({ s with pidFile := none }.set pid (some ⟨comm, none⟩)).stage pid' = some stage →
      ¬ stage.past = true := fun pid' stage hs => by rw [(hback pid' stage hs).2]; exact Bool.false_ne_true
  constructor
  · intro pid' comm' stage hs
    have hs : Function.update s.procs pid _ pid' = some ⟨comm', some stage⟩ := hs
    rw [Function.update_apply] at hs
    split at hs
    · cases hs
    · exact h.named pid' comm' stage hs
  · exact fun pid' stage hs hpast => absurd hpast (hnot pid' stage hs)
  · exact fun pid₁ stage _ _ hs hpast => absurd hpast (hnot pid₁ stage hs)
  · exact fun pid₁ stage _ hs hpast => absurd hpast (hnot pid₁ stage hs)
  · exact fun pid₁ stage₁ pid₂ stage₂ hs₁ hw₁ hs₂ hw₂ =>
      h.window pid₁ stage₁ pid₂ stage₂ (hback pid₁ stage₁ hs₁).1 hw₁ (hback pid₂ stage₂ hs₂).1 hw₂

theorem alone_step {c c' : Control} {l : Label} (hc : Orderly c l) (h : Alone c.sys) (hs : step c l = some c') :
    Alone c'.sys := by
  have hsys := sysStep_of_step hs
  generalize c'.sys = sys' at hsys ⊢
  cases hsys with
  | main l _ hl => exact Startup.alone_step c.sys sys' l (hc l rfl) h hl
  | same => exact h
  | appear pid comm => exact Startup.alone_quiet h pid _ (fun _ _ e => by cases e) (fun _ e => by cases e)
  | ends pid => exact alone_exit h pid
  | kill pid victims => exact alone_exit (alone_exits victims c h) pid
  | remove pid comm hp => exact alone_remove h hp

/-! ## A `--stop` comes through -/

/-- What a `--stop` has read of the pid file is the pid of the monitor. -/
def StopStage.Aimed (m : Nat) : StopStage → Prop
  | .checking q => q = some (m : Int)
  | .target q   => q = (m : Int)
  | _           => True

theorem exit_stops (c : Control) (pid p : Nat) : (c.exit pid).stops p = if p = pid then none else c.stops p :=
  Function.update_apply _ _ _ _

theorem exits_stops (p : Nat) : ∀ (victims : List Nat) (c : Control),
    (victims.foldl Control.exit c).stops p = none ∨ (victims.foldl Control.exit c).stops p = c.stops p
  | [], _ => Or.inr rfl
  | v :: victims, c => by
    rw [List.foldl_cons]
    cases exits_stops p victims (c.exit v) with
    | inl h => exact Or.inl h
    | inr h =>
      rw [h, exit_stops]
      split
      · exact Or.inl rfl
      · exact Or.inr rfl

theorem setStop_stops (c : Control) (pid p : Nat) (stage : StopStage) :
    (c.setStop pid stage).stops p = if p = pid then some stage else c.stops p :=
  Function.update_apply _ _ _ _

theorem tell_stops (c : Control) : c.tell.stops = c.stops := by
  unfold Control.tell
  split <;> rfl

theorem fifoStep_stops (c : Control) (pid : Nat) : (c.fifoStep pid).stops = c.stops := by
  unfold Control.fifoStep
  split
  · rfl
  · rfl
  · split <;> rfl
  · split <;> rfl
  · rfl

/-- The stage a process of `--stop` has come to. -/
inductive StopMove (c : Control) (p : Nat) : Label → StopStage → Prop where
  | stays (l : Label) (stage : StopStage) (h : c.stops p = some stage) : StopMove c p l stage
  | started (comm : Str) : StopMove c p (.stop p comm) .started
  | checking (h : c.stops p = some .started) : StopMove c p (.next p) (.checking (getPid c.sys.pidFile))
  | running (q : Option Int) (h : c.stops p = some (.checking q)) (hq : isRunning c.sys q = true) :
    StopMove c p (.next p) .running
  | told (h : c.stops p = some .running) : StopMove c p (.next p) .told
  | target (q : Int) (h : c.stops p = some .told) (hq : getPid c.sys.pidFile = some q) : StopMove c p (.next p) (.target q)

theorem advance_move {c c' : Control} {pid p : Nat} {stage stage' : StopStage} (hpid : c.stops pid = some stage)
    (h : advance c pid stage = some c') (hp : c'.stops p = some stage') : StopMove c p (.next pid) stage' := by
  -- another `--stop` stays where it is
  have hset : ∀ (d : Control) (st : StopStage), d.stops = c.stops → (d.setStop pid st).stops p = some stage' →
      (p = pid ∧ stage' = st) ∨ c.stops p = some stage' := fun d st hd hs => by
    rw [setStop_stops, hd] at hs
    split at hs
    · rename_i he
      exact Or.inl ⟨he, (Option.some.inj hs).symm⟩
    · exact Or.inr hs
  have hexit : (c.exit pid).stops p = some stage' → c.stops p = some stage' := fun hs => by
    rw [exit_stops] at hs
    split at hs
    · cases hs
    · exact hs
  cases stage with
  | started =>
    cases h
    obtain ⟨rfl, rfl⟩ | hs := hset c _ rfl hp
    · exact .checking hpid
    · exact .stays _ _ hs
  | checking q =>
    rw [advance] at h
    split at h
    · rename_i hq
      cases h
      obtain ⟨rfl, rfl⟩ | hs := hset c _ rfl hp
      · exact .running q hpid hq
      · exact .stays _ _ hs
    · cases h
      exact .stays _ _ (hexit hp)
  | running =>
    cases h
    obtain ⟨rfl, rfl⟩ | hs := hset c.tell _ (tell_stops c) hp
    · exact .told hpid
    · exact .stays _ _ hs
  | told =>
    rw [advance] at h
    split at h
    · rename_i q hq
      cases h
      obtain ⟨rfl, rfl⟩ | hs := hset c _ rfl hp
      · exact .target q hpid hq
      · exact .stays _ _ hs
    · cases h
      exact .stays _ _ (hexit hp)
  | target q => cases h

theorem main_stops {c c' : Control} {l : Startup.Label} {p : Nat} {stage : StopStage} (h : step c (.main l) = some c')
    (hp : c'.stops p = some stage) : c.stops p = some stage := by
  cases l with
  | next pid =>
    obtain ⟨sys, -, rfl⟩ := Option.map_eq_some_iff.1 h
    rw [← fifoStep_stops c pid]
    exact hp
  | gone pid =>
    rw [step] at h
    split at h
    · cases h
    · obtain ⟨sys, -, rfl⟩ := Option.map_eq_some_iff.1 h
      have hp : (c.exit pid).stops p = some stage := hp
      rw [exit_stops] at hp
      split at hp
      · cases hp
      · exact hp
  | _ =>
    obtain ⟨sys, -, rfl⟩ := Option.map_eq_some_iff.1 h
    exact hp

theorem stopMove_of_step {c c' : Control} {l : Label} {p : Nat} {stage : StopStage} (h : step c l = some c')
    (hp : c'.stops p = some stage) : StopMove c p l stage := by
  cases l with
  | main l => exact .stays _ _ (main_stops h hp)
  | stop pid comm =>
    rw [step] at h
    split at h
    · cases h
      rw [setStop_stops] at hp
      split at hp
      · rename_i he
        cases hp
        rw [he]
        exact .started comm
      · exact .stays _ _ hp
    · cases h
  | next pid =>
    obtain ⟨stage₀, hpid, hs⟩ := Option.bind_eq_some_iff.1 h
    exact advance_move hpid hs hp
  | kill pid victims =>
    rw [step] at h
    split at h
    · split at h
      · cases h
        rw [exit_stops] at hp
        split at hp
        · cases hp
        · cases exits_stops p victims c with
          | inl hn => rw [hn] at hp; cases hp
          | inr he => exact .stays _ _ (he ▸ hp)
      · cases h
    · cases h
  | leave pid =>
    rw [step] at h
    split at h
    · cases h; exact .stays _ _ hp
    · cases h
  | removePidFile pid =>
    rw [step] at h
    split at h
    · split at h
      · cases h; exact .stays _ _ hp
      · cases h
    · cases h

theorem exists_of_past {c : Control} {m : Nat} (h : c.past m = true) : ∃ stage, c.sys.stage m = some stage ∧ stage.past = true := by
  unfold Control.past at h
  cases hs : c.sys.stage m with
  | none => rw [hs] at h; cases h
  | some stage => exact ⟨stage, rfl, by rw [hs] at h; exact h⟩

theorem aimed_step {c c' : Control} {l : Label} {m p : Nat} (ha : Alone c.sys) (hm : c.past m = true)
    (h : ∀ stage, c.stops p = some stage → stage.Aimed m) (hs : step c l = some c') :
    ∀ stage, c'.stops p = some stage → stage.Aimed m := by
  obtain ⟨stage₀, hstage, hpast⟩ := exists_of_past hm
  have hfile : getPid c.sys.pidFile = some (m : Int) := ha.past m stage₀ hstage hpast
  intro stage hp
  cases stopMove_of_step hs hp with
  | stays _ _ hst => exact h stage hst
  | started | running | told => trivial
  | checking => exact hfile
  | target q _ hq => exact Option.some.inj (hq.symm.trans hfile)

/-- What the `--stop` does itself. -/
def Label.own (p : Nat) : Label → Prop
  | .next pid   => pid = p
  | .kill pid _ => pid = p
  | _           => False

theorem setStop_ne_none (c : Control) (p : Nat) (stage : StopStage) : (c.setStop p stage).stops p ≠ none := by
  rw [setStop_stops, if_pos rfl]
  exact Option.some_ne_none _

/-- **The end of a `--stop`** that is aimed at the monitor. -/
theorem not_past_of_end {c c' : Control} {l : Label} {m p : Nat} (ha : Alone c.sys) (hm : c.past m = true)
    (h : ∀ stage, c.stops p = some stage → stage.Aimed m) (hs : step c l = some c') (hl : l.own p)
    (hend : c'.stops p = none) : c'.past m = false := by
  obtain ⟨stage₀, hstage, hpast⟩ := exists_of_past hm
  have hfile : getPid c.sys.pidFile = some (m : Int) := ha.past m stage₀ hstage hpast
  cases l with
  | next pid =>
    cases hl
    obtain ⟨stage, hp, hs⟩ := Option.bind_eq_some_iff.1 hs
    -- every step but the ones that end it leaves it somewhere
    cases stage with
    | started => cases hs; exact absurd hend (setStop_ne_none _ _ _)
    | checking q =>
      have hq : q = some (m : Int) := h _ hp
      rw [advance, hq, ha.isRunning hstage] at hs
      cases hs
      exact absurd hend (setStop_ne_none _ _ _)
    | running => cases hs; exact absurd hend (setStop_ne_none _ _ _)
    | told =>
      rw [advance, hfile] at hs
      cases hs
      exact absurd hend (setStop_ne_none _ _ _)
    | target q => cases hs
  | kill pid victims =>
    cases hl
    rw [step] at hs
    split at hs
    · rename_i q hp
      have hq : q = (m : Int) := h _ hp
      split at hs
      · rename_i hv
        obtain ⟨comm, hc⟩ := Startup.procs_of_stage hstage
        have hpos := (ha.named m comm stage₀ hc).2.1
        rw [hv (by omega), hq, Int.toNat_natCast] at hs
        cases hs
        have hgone : ((c.exit m).exit p).sys.stage m = none := by
          show (((c.sys.set m none).set p none)).stage m = none
          rw [Startup.stage_set, Startup.stage_set, if_pos rfl]
          split <;> rfl
        show (((c.exit m).exit p).sys.stage m).any Stage.past = false
        rw [hgone]
        rfl
      · cases hs
    · cases hs
  | main l | stop | leave | removePidFile => cases hl

theorem alone_initial (pidFile : Option Str) (fifo : Bool) (others : Nat → Option Str) :
    Alone (initial pidFile fifo others).sys := Startup.alone_initial pidFile fifo others

/-- **A `--stop` stops the monitor**: one that was started while a monitor was past its write of the pid file, and has come to
its own end since, has not left it there, however the two of them and the others step. -/
theorem stop_stops (pidFile : Option Str) (fifo : Bool) (others : Nat → Option Str) (ls₁ ls₂ : List Label) (l : Label)
    (s t : Control) (m p : Nat) (hc : Machine.Meets step Orderly (initial pidFile fifo others) (ls₁ ++ (ls₂ ++ [l])))
    (hs : Machine.run step (initial pidFile fifo others) ls₁ = some s) (hp : s.stops p = some .started)
    (ht : Machine.run step s (ls₂ ++ [l]) = some t)
    (hm : Machine.Meets step (fun c _ => c.past m = true) s (ls₂ ++ [l])) (hl : l.own p) (hend : t.stops p = none) :
    t.past m = false := by
  have halone : Alone s.sys := Machine.run_inv_meets step Orderly (fun c => Alone c.sys)
    (fun c l c' hc ha hs => alone_step hc ha hs) _ (alone_initial pidFile fifo others) ls₁ s
    (hc.of_prefix (List.prefix_append _ _)) hs
  have hboth : Machine.Meets step (fun c l => Orderly c l ∧ c.past m = true) s (ls₂ ++ [l]) :=
    fun l₁ l' c hpre hrun => ⟨hc.of_append hs l₁ l' c hpre hrun, hm l₁ l' c hpre hrun⟩
  obtain ⟨c, hrun, hlast⟩ := (Machine.run_snoc_some step s t ls₂ l).1 ht
  obtain ⟨hbefore, -, hpast⟩ := hboth.of_snoc hrun
  -- up to the last step it aims at the monitor
  have haim := Machine.run_inv_meets step (fun c l => Orderly c l ∧ c.past m = true)
    (fun c => Alone c.sys ∧ ∀ stage, c.stops p = some stage → stage.Aimed m)
    (fun c l c' hc hi hs => ⟨alone_step hc.1 hi.1 hs, aimed_step hi.1 hc.2 hi.2 hs⟩) s
    ⟨halone, fun stage hst => by rw [hp] at hst; cases hst; trivial⟩ ls₂ c hbefore hrun
  exact not_past_of_end haim.1 hpast haim.2 hlast hl hend

def loneStart : List Startup.Label :=
  [.start 10 (ascii "zzhelper"), .next 10, .next 10, .daemon 10 11, .next 11, .next 11, .next 11, .next 11, .next 11, .next 11,
    .next 11]

/-- A start, and a `--stop` while the monitor is in its loop; the byte and the signal both come. -/
def startStop : List Label × List Label × Label :=
  (loneStart.map .main ++ [.stop 30 (ascii "zzhelper")], [.next 30, .next 30, .next 30, .leave 11, .next 30], .kill 30 [11])

def nothing : Control := initial none false fun _ => none

theorem orderly_of_own {c : Control} {l : Label} (h : ∀ l', l ≠ .main l') : Orderly c l := fun l' e => absurd e (h l')

theorem startStop_orderly : Machine.Meets step Orderly nothing (startStop.1 ++ (startStop.2.1 ++ [startStop.2.2])) := by
  have hmain : ∀ (c : Control) (pid : Nat), (∀ pid', pid' ≠ pid → c.sys.stage pid' = none) →
      (∀ q, c.sys.stage pid = some (.ownPid q) → q = none) → Orderly c (.main (.next pid)) := fun c pid h hq l' e => by
    cases e
    exact Startup.orderly_next h hq
  have hother : ∀ (c : Control) (l : Startup.Label), (∀ pid, l ≠ .next pid) → Orderly c (.main l) := fun c l h l' e pid e' => by
    cases e
    exact absurd e' (h pid)
  refine .cons (hother _ _ (fun _ e => by cases e)) (fun s hs => ?_)
  cases hs
  iterate 2
    refine .cons (hmain _ 10 (fun pid' h => by simp [Sys.stage, Sys.set, nothing, initial, Startup.initial, h])
      (fun q hq => by cases hq)) (fun s hs => ?_)
    cases hs
  refine .cons (hother _ _ (fun _ e => by cases e)) (fun s hs => ?_)
  cases hs
  iterate 7
    refine .cons (hmain _ 11 (fun pid' h => by simp [Sys.stage, Sys.set, nothing, initial, Startup.initial, h])
      (fun q hq => by cases hq <;> rfl)) (fun s hs => ?_)
    cases hs
  iterate 7
    refine .cons (orderly_of_own (fun _ e => by cases e)) (fun s hs => ?_)
    cases hs
  exact .nil _ _ _

theorem startStop_stops : ∃ s t, Machine.run step nothing startStop.1 = some s ∧ s.past 11 = true ∧
    Machine.run step s (startStop.2.1 ++ [startStop.2.2]) = some t ∧ t.past 11 = false := by
  have hs : Machine.run step nothing startStop.1 = some _ := (Option.some_get (by decide)).symm
  have ht : Machine.run step ((Machine.run step nothing startStop.1).get (by decide)) (startStop.2.1 ++ [startStop.2.2]) =
      some _ := (Option.some_get (by decide)).symm
  have hm := Machine.Meets.of_meets step (fun c _ => c.past 11) (startStop.2.1 ++ [startStop.2.2])
    ((Machine.run step nothing startStop.1).get (by decide)) (by decide)
  exact ⟨_, _, hs, by decide, ht, stop_stops none false (fun _ => none) startStop.1 startStop.2.1 startStop.2.2 _ _ 11 30
    startStop_orderly hs (by decide) ht hm rfl (by decide)⟩

/-! ## What is signalled -/

/-- Every number the pid file can give is the pid of one process. -/
def Positive (pidFile : Option Str) : Prop := ∀ q, getPid pidFile = some q → 0 < q

def StopStage.Sound (pidFile : Option Str) : StopStage → Prop
  | .started    => True
  | .checking q => q = getPid pidFile ∨ Positive pidFile
  | .running    => Positive pidFile
  | .told       => Positive pidFile
  | .target q   => 0 < q

/-- The processes of `Startup` have pids. -/
def Named (s : Sys) : Prop := ∀ pid comm stage, s.procs pid = some ⟨comm, some stage⟩ → 0 < pid ∧ pid < 2 ^ 31

theorem named_set {s : Sys} (h : Named s) (pid : Nat) (proc : Option Startup.Proc)
    (hp : ∀ comm stage, proc = some ⟨comm, some stage⟩ → 0 < pid ∧ pid < 2 ^ 31) : Named (s.set pid proc) := by
  intro pid' comm stage hs
  have hs : Function.update s.procs pid proc pid' = some ⟨comm, some stage⟩ := hs
  rw [Function.update_apply] at hs
  split at hs
  · rename_i he
    rw [he]
    exact hp comm stage hs
  · exact h pid' comm stage hs

theorem named_advance {s s' : Sys} (h : Named s) {pid : Nat} {comm : Str} {stage : Stage}
    (hp : s.procs pid = some ⟨comm, some stage⟩) (hs : Startup.advance s pid comm stage = some s') :
    Named s' ∧ (s'.pidFile = s.pidFile ∨ Positive s'.pidFile) := by
  have hpid := h pid comm stage hp
  have hgo : ∀ (sys : Sys) (proc : Option Startup.Proc), sys.procs = s.procs → Named (sys.set pid proc) := fun sys proc he =>
    named_set (s := sys) (fun pid' comm' stage' e => h pid' comm' stage' (he ▸ e)) pid proc (fun _ _ _ => hpid)
  cases stage with
  | cleared =>
    cases hs
    refine ⟨hgo _ _ rfl, Or.inr (fun q hq => ?_)⟩
    have hq : getPid (some (overwrite s.pidFile pid)) = some q := hq
    rw [Startup.getPid_overwrite s.pidFile pid hpid.2] at hq
    cases hq
    omega
  | mainPid q | ownPid q =>
    simp only [Startup.advance] at hs
    split at hs
    · cases hs; exact ⟨hgo _ _ rfl, Or.inl rfl⟩
    · cases hs; exact ⟨hgo _ _ rfl, Or.inl rfl⟩
  | passed | watching => cases hs
  | _ => cases hs; exact ⟨hgo _ _ rfl, Or.inl rfl⟩

theorem named_startup {s s' : Sys} {l : Startup.Label} (h : Named s) (hs : Startup.step s l = some s') :
    Named s' ∧ (s'.pidFile = s.pidFile ∨ Positive s'.pidFile) := by
  cases l with
  | next pid =>
    simp only [Startup.step] at hs
    split at hs
    · rename_i comm stage hp
      exact named_advance h hp hs
    · cases hs
  | gone pid =>
    simp only [Startup.step] at hs
    split at hs
    · cases hs; exact ⟨named_set h pid none (fun _ _ e => by cases e), Or.inl rfl⟩
    · cases hs
  | start pid comm =>
    simp only [Startup.step] at hs
    split at hs
    · rename_i hfree
      rw [Bool.and_eq_true] at hfree
      cases hs
      exact ⟨named_set h pid _ (fun _ _ _ => Startup.free_range hfree.1), Or.inl rfl⟩
    · cases hs
  | other pid comm =>
    simp only [Startup.step] at hs
    split at hs
    · cases hs; exact ⟨named_set h pid _ (fun _ _ e => by cases e), Or.inl rfl⟩
    · cases hs
  | daemon pid child =>
    simp only [Startup.step] at hs
    split at hs
    · split at hs
      · rename_i hfree
        cases hs
        exact ⟨named_set (named_set h pid none (fun _ _ e => by cases e)) child _ (fun _ _ _ => Startup.free_range hfree),
          Or.inl rfl⟩
      · cases hs
    · cases hs

theorem named_exits : ∀ (victims : List Nat) (c : Control), Named c.sys →
    Named (victims.foldl Control.exit c).sys ∧ (victims.foldl Control.exit c).sys.pidFile = c.sys.pidFile
  | [], _, h => ⟨h, rfl⟩
  | v :: victims, c, h => named_exits victims (c.exit v) (named_set h v none (fun _ _ e => by cases e))

theorem named_step {c c' : Control} {l : Label} (h : Named c.sys) (hs : step c l = some c') :
    Named c'.sys ∧ (c'.sys.pidFile = c.sys.pidFile ∨ Positive c'.sys.pidFile) := by
  have hsys := sysStep_of_step hs
  generalize c'.sys = sys' at hsys ⊢
  cases hsys with
  | main l _ hl => exact named_startup h hl
  | same => exact ⟨h, Or.inl rfl⟩
  | appear pid comm => exact ⟨named_set h pid _ (fun _ _ e => by cases e), Or.inl rfl⟩
  | ends pid => exact ⟨named_set h pid none (fun _ _ e => by cases e), Or.inl rfl⟩
  | kill pid victims =>
    obtain ⟨hn, he⟩ := named_exits victims c h
    exact ⟨named_set hn pid none (fun _ _ e => by cases e), Or.inl he⟩
  | remove pid comm hp =>
    refine ⟨named_set (s := { c.sys with pidFile := none }) h pid _ (fun _ _ e => by cases e), Or.inr (fun q hq => ?_)⟩
    cases hq

theorem StopStage.Sound.of_file {pidFile pidFile' : Option Str} {stage : StopStage} (h : stage.Sound pidFile)
    (hf : pidFile' = pidFile ∨ Positive pidFile') : stage.Sound pidFile' := by
  cases hf with
  | inl he => rw [he]; exact h
  | inr hp =>
    cases stage with
    | started => trivial
    | checking q => exact Or.inr hp
    | running | told => exact hp
    | target q => exact h

theorem sound_step {c c' : Control} {l : Label} {p : Nat} (hf : c'.sys.pidFile = c.sys.pidFile ∨ Positive c'.sys.pidFile)
    (h : ∀ stage, c.stops p = some stage → stage.Sound c.sys.pidFile) (hs : step c l = some c') :
    ∀ stage, c'.stops p = some stage → stage.Sound c'.sys.pidFile := by
  intro stage hp
  refine StopStage.Sound.of_file ?_ hf
  cases stopMove_of_step hs hp with
  | stays _ _ hst => exact h stage hst
  | started => trivial
  | checking hst => exact Or.inl rfl
  | running q hst hq =>
    cases h _ hst with
    | inr hpos => exact hpos
    | inl he =>
      -- a number that is not positive is not found running
      intro q' hq'
      rw [he, hq'] at hq
      simp only [isRunning, Bool.and_eq_true, decide_eq_true_eq] at hq
      exact hq.1
  | told hst => exact h .running hst
  | target q hst hq => exact h _ hst q hq

/-- **What `--stop` signals**: in every run, however the starts and stops step and whatever stood in the pid file, `kill` is
called with the number of one process, never with one that stands for a group or for all of them. -/
theorem target_pos (pidFile : Option Str) (fifo : Bool) (others : Nat → Option Str) (ls : List Label) (c : Control)
    (h : Machine.run step (initial pidFile fifo others) ls = some c) (p : Nat) (q : Int)
    (hp : c.stops p = some (.target q)) : 0 < q := by
  have hinv := Machine.run_inv step
    (fun c => Named c.sys ∧ ∀ stage, c.stops p = some stage → stage.Sound c.sys.pidFile)
    (fun c l c' hi hs => by
      obtain ⟨hn, hf⟩ := named_step hi.1 hs
      exact ⟨hn, sound_step hf hi.2 hs⟩)
    ⟨fun pid comm stage hp => absurd (Startup.stage_of_procs hp)
        (by rw [show (initial pidFile fifo others).sys = Startup.initial pidFile fifo others from rfl, Startup.stage_initial];
            exact Option.some_ne_none _ |>.symm),
      fun stage hst => by cases hst⟩ h
  exact hinv.2 (.target q) hp

theorem startStop_target : ∃ c, Machine.run step nothing (startStop.1 ++ startStop.2.1) = some c ∧
    c.stops 30 = some (.target 11) ∧ (0 : Int) < 11 := by
  have h : Machine.run step nothing (startStop.1 ++ startStop.2.1) = some _ := (Option.some_get (by decide)).symm
  exact ⟨_, h, by decide, target_pos none false (fun _ => none) _ _ h 30 11 (by decide)⟩

end CheckRealtime.Stopping
