import CheckRealtime.Machine
import CheckRealtime.Util
import Mathlib.Logic.Function.Basic
/-!
# Startup — `main --start`, the pid file and the other processes

Processes started with `--start`, stepping in any order among those of other programs.  The pid file is a string of bytes,
written over and never cut; `is_running` reads it in one step and looks at the process it names in another.  Two monitors
at once come from a check of `write_pid_file` that is not acted on or overlaps another's (`one_monitor`).
-/
namespace CheckRealtime.Startup

/-! ## The pid file -/

def isDigit (c : UInt8) : Bool := 48 ≤ c && c ≤ 57

def digits (s : Str) : Nat := (s.takeWhile isDigit).foldl (fun n c => 10 * n + (c.toNat - 48)) 0

/-- `strtol` in base 10, which stays within a `long`. -/
def strtol (s : Str) : Int :=
  let value : Int := match s.dropWhile isspace with
    | []     => 0
    | c :: r => if c = 45 then -(digits r : Int) else if c = 43 then digits r else digits (c :: r)
  max (-2 ^ 63) (min value (2 ^ 63 - 1))

def atoi (s : Str) : Int := toInt (strtol s)

/-- `get_pid`: the number at the head of the file, unless there is no file or nothing in it. -/
def getPid (pidFile : Option Str) : Option Int :=
  match pidFile with
  | none         => none
  | some content =>
    let pbuf := content.take 255
    if pbuf.length = 0 then none else some (atoi pbuf)

/-- What `write_pid_file` leaves in the file, which it opens without `O_TRUNC`. -/
def overwrite (pidFile : Option Str) (pid : Nat) : Str :=
  let pbuf := dec pid ++ ascii "\n"
  pbuf ++ (pidFile.getD []).drop pbuf.length

theorem isDigit_decNat (n : Nat) (c : UInt8) (h : c ∈ decNat n) : isDigit c = true := by
  have := mem_decNat n c h
  simp [isDigit, this.1, this.2]

theorem digits_decNat (n : Nat) (c : UInt8) (hc : isDigit c = false) (rest : Str) : digits (decNat n ++ c :: rest) = n := by
  rw [digits, List.takeWhile_append_of_pos (isDigit_decNat n), List.takeWhile_cons_of_neg (by simp [hc]), List.append_nil,
    foldl_decNat]

theorem atoi_decNat (n : Nat) (hn : n < 2 ^ 31) (c : UInt8) (hc : isDigit c = false) (rest : Str) :
    atoi (decNat n ++ c :: rest) = n := by
  have hvalue : strtol (decNat n ++ c :: rest) = n := by
    cases hd : decNat n with
    | nil => exact absurd hd (decNat_ne_nil n)
    | cons d ds =>
      have hdig := mem_decNat n d (by rw [hd]; exact List.mem_cons_self)
      have hspace : isspace d = false := by
        have h1 := UInt8.le_iff_toNat_le.1 hdig.1
        simp only [isspace, Bool.or_eq_false_iff, Bool.and_eq_false_iff, beq_eq_false_iff_ne, decide_eq_false_iff_not]
        refine ⟨fun e => ?_, Or.inr (fun h => ?_)⟩
        · rw [e] at h1; exact absurd h1 (by decide)
        · have h2 := UInt8.le_iff_toNat_le.1 h
          have h3 : (48 : UInt8).toNat = 48 := rfl
          have h4 : (13 : UInt8).toNat = 13 := rfl
          omega
      have hm : ¬ d = 45 := fun e => by rw [e] at hdig; exact absurd hdig.1 (by decide)
      have hp : ¬ d = 43 := fun e => by rw [e] at hdig; exact absurd hdig.1 (by decide)
      have hdigits := digits_decNat n c hc rest
      rw [hd] at hdigits
      rw [strtol, List.cons_append, List.dropWhile_cons_of_neg (by simp [hspace])]
      simp only [if_neg hm, if_neg hp]
      rw [← List.cons_append, hdigits]
      omega
  rw [atoi, hvalue, toInt_of_int (by omega)]

/-- **What is written is read back**, whatever stood in the file. -/
theorem getPid_overwrite (pidFile : Option Str) (pid : Nat) (hp : pid < 2 ^ 31) :
    getPid (some (overwrite pidFile pid)) = some (pid : Int) := by
  have hlen : (decNat pid).length ≤ 10 := decNat_length_le pid 10 (by decide) (by omega)
  have hdec : dec (pid : Int) = decNat pid := if_neg (by omega)
  have htake : (overwrite pidFile pid).take 255 =
      decNat pid ++ 10 :: ((pidFile.getD []).drop (decNat pid ++ ascii "\n").length).take (255 - (decNat pid).length - 1) := by
    have hnl : ascii "\n" = [10] := rfl
    rw [overwrite, hdec]
    simp only [hnl]
    rw [List.append_assoc, List.singleton_append, List.take_append, List.take_of_length_le (by omega)]
    congr 1
    rw [List.take_cons (by omega)]
  simp only [getPid, htake]
  rw [if_neg (by simp), atoi_decNat pid hp 10 (by decide)]

/-! ## The processes -/

/-- Where a process stands in `main`, after `--start`. -/
inductive Stage where
  | started
  -- `is_running` of `main` has read the pid file
  | mainPid (pid : Option Int)
  | passed
  -- the child of `daemon`
  | daemonised
  -- `is_running` of `write_pid_file` has read the pid file
  | ownPid (pid : Option Int)
  | cleared
  -- `write_pid_file` has returned `OK`, or `ERROR`, which `main` does not look at
  | written
  | unwritten
  -- the constructor of `File_watcher` has unlinked the FIFO, and then made it
  | unlinked
  | constructed
  | configured
  | watching
deriving DecidableEq

/-- A process that is there: its `/proc/<pid>/comm`, and its stage if it is one of the program's. -/
structure Proc where
  comm  : Str
  stage : Option Stage
deriving DecidableEq

structure Sys where
  pidFile : Option Str
  fifo    : Bool
  procs   : Nat → Option Proc

inductive Label where
  | start (pid : Nat) (comm : Str)
  -- the next step of a process of the program
  | next (pid : Nat)
  -- `daemon`: the parent exits and the child goes on
  | daemon (pid child : Nat)
  -- processes of other programs come and go
  | other (pid : Nat) (comm : Str)
  | gone (pid : Nat)

/-- `strstr` finds it. -/
def strstr (buff needle : Str) : Bool := buff.tails.any needle.isPrefixOf

def isHelper (comm : Str) : Bool := strstr comm (ascii "zzhelper")

/-- A pid that no process has. -/
def Sys.free (s : Sys) (pid : Nat) : Bool := decide (0 < pid) && decide (pid < 2 ^ 31) && (s.procs pid).isNone

def Sys.set (s : Sys) (pid : Nat) (proc : Option Proc) : Sys := { s with procs := Function.update s.procs pid proc }

/-- What `is_running` makes of the pid it has read: `kill(pid, 0)` and the look at `comm`, which is there for a positive
pid only. -/
def isRunning (s : Sys) (pid : Option Int) : Bool :=
  match pid with
  | none     => false
  | some pid => decide (0 < pid) && (s.procs pid.toNat).any (fun proc => isHelper proc.comm)

def advance (s : Sys) (pid : Nat) (comm : Str) (stage : Stage) : Option Sys :=
  let goOn := fun (s : Sys) (stage : Stage) => some (s.set pid (some ⟨comm, some stage⟩))
  match stage with
  | .started     => goOn s (.mainPid (getPid s.pidFile))
  | .mainPid q   => if isRunning s q then some (s.set pid none) else goOn s .passed
  | .daemonised  => goOn s (.ownPid (getPid s.pidFile))
  | .ownPid q    => if isRunning s q then goOn s .unwritten else goOn s .cleared
  | .cleared     => goOn { s with pidFile := some (overwrite s.pidFile pid) } .written
  | .written     => goOn { s with fifo := false } .unlinked
  | .unwritten   => goOn { s with fifo := false } .unlinked
  -- a `mkfifo` that fails is logged
  | .unlinked    => goOn { s with fifo := true } .constructed
  | .constructed => goOn s .configured
  | .configured  => goOn s .watching
  | .passed      => none
  | .watching    => none

def step (s : Sys) : Label → Option Sys
  | .start pid comm   => if s.free pid && isHelper comm then some (s.set pid (some ⟨comm, some .started⟩)) else none
  | .other pid comm   => if s.free pid then some (s.set pid (some ⟨comm, none⟩)) else none
  | .gone pid         => match s.procs pid with
    | some ⟨_, none⟩ => some (s.set pid none)
    | _              => none
  | .next pid         => match s.procs pid with
    | some ⟨comm, some stage⟩ => advance s pid comm stage
    | _                       => none
  | .daemon pid child => match s.procs pid with
    | some ⟨comm, some .passed⟩ =>
      if s.free child then some ((s.set pid none).set child (some ⟨comm, some .daemonised⟩)) else none
    | _                         => none

/-- Before the first `--start`: whatever an earlier run left in the pid file, and the processes of other programs. -/
def initial (pidFile : Option Str) (fifo : Bool) (others : Nat → Option Str) : Sys :=
  ⟨pidFile, fifo, fun pid => (others pid).map (fun comm => ⟨comm, none⟩)⟩

def Sys.stage (s : Sys) (pid : Nat) : Option Stage := (s.procs pid).bind Proc.stage

/-! ## One monitor -/

/-- Between the check of `write_pid_file` and its write. -/
def Stage.window : Stage → Bool
  | .ownPid _ | .cleared => true
  | _                    => false

/-- Past `write_pid_file`. -/
def Stage.past : Stage → Bool
  | .written | .unwritten | .unlinked | .constructed | .configured | .watching => true
  | _                                                                         => false

/-- `write_pid_file` begins while no other process is between its check and its write, and its check finds no monitor
running. -/
def Orderly (s : Sys) (l : Label) : Prop :=
  ∀ pid, l = .next pid →
    (s.stage pid = some .daemonised → ∀ pid' stage, s.stage pid' = some stage → stage.window = false) ∧
    ∀ q, s.stage pid = some (.ownPid q) → isRunning s q = false

/-- The monitor past `write_pid_file` is the one in the pid file, and no other can get there. -/
structure Alone (s : Sys) : Prop where
  named  : ∀ pid comm stage, s.procs pid = some ⟨comm, some stage⟩ → isHelper comm = true ∧ 0 < pid ∧ pid < 2 ^ 31
  past   : ∀ pid stage, s.stage pid = some stage → stage.past = true → getPid s.pidFile = some (pid : Int)
  own    : ∀ pid stage pid' q, s.stage pid = some stage → stage.past = true → s.stage pid' = some (.ownPid q) →
    q = some (pid : Int)
  cleared : ∀ pid stage pid', s.stage pid = some stage → stage.past = true → s.stage pid' ≠ some .cleared
  window : ∀ pid stage pid' stage', s.stage pid = some stage → stage.window = true → s.stage pid' = some stage' →
    stage'.window = true → pid = pid'

theorem stage_of_procs {s : Sys} {pid : Nat} {comm : Str} {stage : Option Stage} (h : s.procs pid = some ⟨comm, stage⟩) :
    s.stage pid = stage := by
  rw [Sys.stage, h]; rfl

theorem procs_of_stage {s : Sys} {pid : Nat} {stage : Stage} (h : s.stage pid = some stage) :
    ∃ comm, s.procs pid = some ⟨comm, some stage⟩ := by
  obtain ⟨proc, hp, hs⟩ := Option.bind_eq_some_iff.1 h
  exact ⟨proc.comm, by rw [hp]; cases proc; cases hs; rfl⟩

theorem stage_set (s : Sys) (pid pid' : Nat) (proc : Option Proc) :
    (s.set pid proc).stage pid' = if pid' = pid then proc.bind Proc.stage else s.stage pid' := by
  unfold Sys.stage Sys.set
  simp only [Function.update_apply]
  split <;> rfl

/-- The monitor past `write_pid_file` is found running. -/
theorem Alone.isRunning {s : Sys} (h : Alone s) {pid : Nat} {stage : Stage} (hs : s.stage pid = some stage) :
    isRunning s (some (pid : Int)) = true := by
  obtain ⟨comm, hc⟩ := procs_of_stage hs
  obtain ⟨hh, hpos, -⟩ := h.named pid comm stage hc
  simp only [Startup.isRunning, Int.toNat_natCast, hc, Option.any_some, hh, Bool.and_true, decide_eq_true_eq]
  omega

/-- A step of one process that leaves the pid file alone. -/
theorem alone_set {s : Sys} (h : Alone s) (pid : Nat) (proc : Option Proc) (fifo : Bool)
    (hnamed : ∀ comm stage, proc = some ⟨comm, some stage⟩ → isHelper comm = true ∧ 0 < pid ∧ pid < 2 ^ 31)
    (hpast : ∀ stage, proc.bind Proc.stage = some stage → stage.past = true →
      ∃ stage₀, s.stage pid = some stage₀ ∧ stage₀.past = true)
    (hown : ∀ q pid' stage', proc.bind Proc.stage = some (.ownPid q) → s.stage pid' = some stage' → stage'.past = true →
      q = some (pid' : Int))
    (hcleared : ∀ pid' stage', proc.bind Proc.stage = some .cleared → pid' ≠ pid → s.stage pid' = some stage' →
      stage'.past = false)
    (hwindow : ∀ stage pid' stage', proc.bind Proc.stage = some stage → stage.window = true → pid' ≠ pid →
      s.stage pid' = some stage' → stage'.window = false) :
    Alone ({ s with fifo := fifo }.set pid proc) := by
  have hstage : ∀ pid', ({ s with fifo := fifo }.set pid proc).stage pid' =
      if pid' = pid then proc.bind Proc.stage else s.stage pid' := fun pid' => stage_set _ pid pid' proc
  -- a process that is past the write now was past it before
  have hback : ∀ pid' stage, ({ s with fifo := fifo }.set pid proc).stage pid' = some stage → stage.past = true →
      ∃ stage₀, s.stage pid' = some stage₀ ∧ stage₀.past = true := fun pid' stage hs hp => by
    rw [hstage] at hs
    split at hs
    · rename_i he; rw [he]; exact hpast stage hs hp
    · exact ⟨stage, hs, hp⟩
  constructor
  · intro pid' comm stage hp
    have hp : Function.update s.procs pid proc pid' = some ⟨comm, some stage⟩ := hp
    rw [Function.update_apply] at hp
    split at hp
    · rename_i he; rw [he]; exact hnamed comm stage hp
    · exact h.named pid' comm stage hp
  · intro pid' stage hs hp
    obtain ⟨stage₀, hs₀, hp₀⟩ := hback pid' stage hs hp
    exact h.past pid' stage₀ hs₀ hp₀
  · intro pid₁ stage pid₂ q hs hp ho
    obtain ⟨stage₁, hs₁, hp₁⟩ := hback pid₁ stage hs hp
    rw [hstage] at ho
    split at ho
    · exact hown q pid₁ stage₁ ho hs₁ hp₁
    · exact h.own pid₁ stage₁ pid₂ q hs₁ hp₁ ho
  · intro pid₁ stage pid₂ hs hp ho
    obtain ⟨stage₁, hs₁, hp₁⟩ := hback pid₁ stage hs hp
    rw [hstage] at hs ho
    split at ho
    · split at hs
      · rw [ho] at hs; cases hs; cases hp
      · rename_i he₁
        rw [hcleared pid₁ stage ho he₁ hs] at hp
        cases hp
    · exact h.cleared pid₁ stage₁ pid₂ hs₁ hp₁ ho
  · intro pid₁ stage₁ pid₂ stage₂ hs₁ hw₁ hs₂ hw₂
    rw [hstage] at hs₁ hs₂
    by_cases he₁ : pid₁ = pid <;> by_cases he₂ : pid₂ = pid
    · rw [he₁, he₂]
    · rw [if_pos he₁] at hs₁
      rw [if_neg he₂] at hs₂
      rw [hwindow stage₁ pid₂ stage₂ hs₁ hw₁ he₂ hs₂] at hw₂
      cases hw₂
    · rw [if_neg he₁] at hs₁
      rw [if_pos he₂] at hs₂
      rw [hwindow stage₂ pid₁ stage₁ hs₂ hw₂ he₁ hs₁] at hw₁
      cases hw₁
    · rw [if_neg he₁] at hs₁
      rw [if_neg he₂] at hs₂
      exact h.window pid₁ stage₁ pid₂ stage₂ hs₁ hw₁ hs₂ hw₂

/-- **The write**: no process was past it, and the file names this one now. -/
theorem alone_write {s : Sys} (h : Alone s) (pid : Nat) (comm : Str) (hpid : s.procs pid = some ⟨comm, some .cleared⟩) :
    Alone ({ s with pidFile := some (overwrite s.pidFile pid) }.set pid (some ⟨comm, some .written⟩)) := by
  have hstage : ∀ pid', ({ s with pidFile := some (overwrite s.pidFile pid) }.set pid (some ⟨comm, some .written⟩)).stage
      pid' = if pid' = pid then some .written else s.stage pid' := fun pid' => stage_set _ pid pid' _
  have hcleared := stage_of_procs hpid
  have hnamed := h.named pid comm .cleared hpid
  have honly : ∀ pid' stage, (if pid' = pid then some Stage.written else s.stage pid') = some stage → stage.past = true →
      pid' = pid := by
    intro pid' stage hs hp
    by_contra hne
    rw [if_neg hne] at hs
    exact h.cleared pid' stage pid hs hp hcleared
  have hother : ∀ pid' stage, (if pid' = pid then some Stage.written else s.stage pid') = some stage →
      stage.window = false := by
    intro pid' stage hs
    split at hs
    · cases hs; rfl
    · rename_i hne
      by_contra hw
      exact hne (h.window pid' stage pid .cleared hs (by simpa using hw) hcleared rfl)
  constructor
  · intro pid' comm' stage hp
    have hp : Function.update s.procs pid _ pid' = some ⟨comm', some stage⟩ := hp
    rw [Function.update_apply] at hp
    split at hp
    · rename_i he; cases hp; rw [he]; exact hnamed
    · exact h.named pid' comm' stage hp
  · intro pid' stage hs hp
    rw [hstage] at hs
    rw [honly pid' stage hs hp]
    exact getPid_overwrite s.pidFile pid hnamed.2.2
  · intro pid₁ stage pid₂ q hs hp ho
    rw [hstage] at ho
    cases hother pid₂ (.ownPid q) ho
  · intro pid₁ stage pid₂ hs hp ho
    rw [hstage] at ho
    cases hother pid₂ .cleared ho
  · intro pid₁ stage₁ pid₂ stage₂ hs₁ hw₁
    rw [hstage] at hs₁
    rw [hother pid₁ stage₁ hs₁] at hw₁
    cases hw₁

/-- A step to a stage that is neither in the window nor past it. -/
theorem alone_quiet {s : Sys} (h : Alone s) (pid : Nat) (proc : Option Proc)
    (hnamed : ∀ comm stage, proc = some ⟨comm, some stage⟩ → isHelper comm = true ∧ 0 < pid ∧ pid < 2 ^ 31)
    (hquiet : ∀ stage, proc.bind Proc.stage = some stage → stage.past = false ∧ stage.window = false) :
    Alone (s.set pid proc) := by
  refine alone_set h pid proc s.fifo hnamed (fun stage hs hp => ?_) (fun q pid' stage' hs => ?_) (fun pid' stage' hs => ?_)
    (fun stage pid' stage' hs hw => ?_)
  · rw [(hquiet stage hs).1] at hp; cases hp
  · cases (hquiet _ hs).2
  · cases (hquiet _ hs).2
  · rw [(hquiet stage hs).2] at hw; cases hw

/-- A step of a process that is past `write_pid_file`. -/
theorem alone_past {s : Sys} (h : Alone s) (pid : Nat) (comm : Str) (stage stage' : Stage) (fifo : Bool)
    (hpid : s.procs pid = some ⟨comm, some stage⟩) (hp : stage.past = true) (hp' : stage'.past = true) :
    Alone ({ s with fifo := fifo }.set pid (some ⟨comm, some stage'⟩)) := by
  have hnotwin : stage'.window = false := by cases stage' <;> first | rfl | cases hp'
  refine alone_set h pid _ fifo (fun comm' st e => ?_) (fun _ _ _ => ⟨stage, stage_of_procs hpid, hp⟩)
    (fun q pid' st hs => ?_) (fun pid' st hs => ?_) (fun st pid' st' hs hw => ?_)
  · cases e; exact h.named pid comm stage hpid
  · cases hs; cases hp'
  · cases hs; cases hp'
  · cases hs; rw [hnotwin] at hw; cases hw

theorem alone_advance {s s' : Sys} (h : Alone s) (pid : Nat) (comm : Str) (stage : Stage) (hc : Orderly s (.next pid))
    (hpid : s.procs pid = some ⟨comm, some stage⟩) (hs : advance s pid comm stage = some s') : Alone s' := by
  have hstage := stage_of_procs hpid
  have hnamed : ∀ stage' comm' st, some (⟨comm, some stage'⟩ : Proc) = some ⟨comm', some st⟩ →
      isHelper comm' = true ∧ 0 < pid ∧ pid < 2 ^ 31 := fun stage' comm' st e => by
    cases e; exact h.named pid comm stage hpid
  cases stage with
  | started =>
    cases hs
    exact alone_quiet h pid _ (hnamed _) (fun st e => by cases e; exact ⟨rfl, rfl⟩)
  | mainPid q =>
    simp only [advance] at hs
    split at hs
    · cases hs
      exact alone_quiet h pid none (fun _ _ e => by cases e) (fun st e => by cases e)
    · cases hs
      exact alone_quiet h pid _ (hnamed _) (fun st e => by cases e; exact ⟨rfl, rfl⟩)
  | daemonised =>
    cases hs
    have hwin := (hc pid rfl).1 hstage
    refine alone_set h pid _ s.fifo (hnamed _) (fun st e hp => ?_) (fun q pid' st e hs' hp => ?_) (fun pid' st e => ?_)
      (fun st pid' st' _ _ _ hs' => hwin pid' st' hs')
    · cases e; cases hp
    · cases e; exact h.past pid' st hs' hp
    · cases e
  | ownPid q =>
    have hnot := (hc pid rfl).2 q hstage
    simp only [advance, hnot, Bool.false_eq_true, if_false] at hs
    cases hs
    refine alone_set h pid _ s.fifo (hnamed _) (fun st e hp => ?_) (fun q' pid' st e => ?_) (fun pid' st _ _ hs' => ?_)
      (fun st pid' st' _ _ hne hs' => ?_)
    · cases e; cases hp
    · cases e
    · by_contra hp
      have hp : st.past = true := by simpa using hp
      rw [h.own pid' st pid q hs' hp hstage, h.isRunning hs'] at hnot
      cases hnot
    · by_contra hw
      exact hne (h.window pid' st' pid (.ownPid q) hs' (by simpa using hw) hstage rfl)
  | cleared =>
    cases hs
    exact alone_write h pid comm hpid
  | written | unwritten => cases hs; exact alone_past h pid comm _ _ false hpid rfl rfl
  | unlinked => cases hs; exact alone_past h pid comm _ _ true hpid rfl rfl
  | constructed | configured => cases hs; exact alone_past h pid comm _ _ s.fifo hpid rfl rfl
  | passed | watching => cases hs

theorem free_range {s : Sys} {pid : Nat} (h : s.free pid = true) : 0 < pid ∧ pid < 2 ^ 31 := by
  simp only [Sys.free, Bool.and_eq_true, decide_eq_true_eq] at h
  exact h.1

theorem alone_step (s s' : Sys) (l : Label) (hc : Orderly s l) (h : Alone s) (hs : step s l = some s') : Alone s' := by
  cases l with
  | start pid comm =>
    simp only [step] at hs
    split at hs
    · rename_i hfree
      rw [Bool.and_eq_true] at hfree
      cases hs
      exact alone_quiet h pid _ (fun comm' st e => by cases e; exact ⟨hfree.2, free_range hfree.1⟩)
        (fun st e => by cases e; exact ⟨rfl, rfl⟩)
    · cases hs
  | other pid comm =>
    simp only [step] at hs
    split at hs
    · cases hs
      exact alone_quiet h pid _ (fun _ _ e => by cases e) (fun st e => by cases e)
    · cases hs
  | gone pid =>
    simp only [step] at hs
    split at hs
    · cases hs
      exact alone_quiet h pid none (fun _ _ e => by cases e) (fun st e => by cases e)
    · cases hs
  | next pid =>
    simp only [step] at hs
    split at hs
    · rename_i comm stage hpid
      exact alone_advance h pid comm stage hc hpid hs
    · cases hs
  | daemon pid child =>
    simp only [step] at hs
    split at hs
    · rename_i comm hpid
      split at hs
      · rename_i hfree
        cases hs
        have hgone := alone_quiet h pid none (fun _ _ e => by cases e) (fun st e => by cases e)
        exact alone_quiet hgone child _
          (fun comm' st e => by cases e; exact ⟨(h.named pid comm _ hpid).1, free_range hfree⟩)
          (fun st e => by cases e; exact ⟨rfl, rfl⟩)
      · cases hs
    · cases hs

theorem stage_initial (pidFile : Option Str) (fifo : Bool) (others : Nat → Option Str) (pid : Nat) :
    (initial pidFile fifo others).stage pid = none := by
  show ((others pid).map (fun comm => (⟨comm, none⟩ : Proc))).bind Proc.stage = none
  cases others pid <;> rfl

theorem alone_initial (pidFile : Option Str) (fifo : Bool) (others : Nat → Option Str) :
    Alone (initial pidFile fifo others) := by
  have hnone : ∀ pid stage, (initial pidFile fifo others).stage pid ≠ some stage := fun pid stage hs => by
    rw [stage_initial] at hs; cases hs
  refine ⟨fun pid comm stage hp => absurd (stage_of_procs hp) (hnone pid stage), fun pid stage hs => absurd hs (hnone pid stage),
    fun pid stage _ _ hs => absurd hs (hnone pid stage), fun pid stage _ hs => absurd hs (hnone pid stage),
    fun pid stage _ _ hs => absurd hs (hnone pid stage)⟩

/-- **At most one monitor runs**, in every run in which `write_pid_file` begins while no other process is between its check
and its write, and its check finds nothing running. -/
theorem one_monitor (pidFile : Option Str) (fifo : Bool) (others : Nat → Option Str) (ls : List Label) (s : Sys)
    (hm : Machine.Meets step Orderly (initial pidFile fifo others) ls)
    (h : Machine.run step (initial pidFile fifo others) ls = some s) (pid pid' : Nat)
    (hw : s.stage pid = some .watching) (hw' : s.stage pid' = some .watching) : pid = pid' := by
  have halone : Alone s := Machine.run_inv_meets step Orderly Alone (fun s l s' hc hi hs => alone_step s s' l hc hi hs)
    (initial pidFile fifo others) (alone_initial pidFile fifo others) ls s hm h
  have h1 := halone.past pid .watching hw rfl
  rw [halone.past pid' .watching hw' rfl] at h1
  have := Option.some.inj h1
  omega

/-- Two starts: both find nothing running, and the second one does not heed its own check of `write_pid_file`. -/
def overlappingStarts : List Label :=
  [.start 10 (ascii "zzhelper"), .start 20 (ascii "zzhelper"), .next 10, .next 10, .next 20, .next 20, .daemon 10 11,
    .daemon 20 21, .next 11, .next 11, .next 11, .next 21, .next 21, .next 11, .next 11, .next 11, .next 11,
    .next 21, .next 21, .next 21, .next 21]

theorem overlappingStarts_two : (Machine.run step (initial none false fun _ => none) overlappingStarts).map
    (fun s => (s.pidFile, s.stage 11, s.stage 21)) = some (some (ascii "11\n"), some .watching, some .watching) := by
  decide

/-- The second start comes while the first is past its write of the pid file, and is refused by `main`. -/
def refusedStart : List Label :=
  [.start 10 (ascii "zzhelper"), .next 10, .next 10, .daemon 10 11, .next 11, .next 11, .next 11,
    .start 20 (ascii "zzhelper"), .next 20, .next 11, .next 20, .next 11, .next 11, .next 11]

theorem orderly_next {s : Sys} {pid : Nat} (hother : ∀ pid', pid' ≠ pid → s.stage pid' = none)
    (hq : ∀ q, s.stage pid = some (.ownPid q) → q = none) : Orderly s (.next pid) := by
  intro pid₁ e
  cases e
  refine ⟨fun hd pid' stage hs => ?_, fun q hs => by rw [hq q hs]; rfl⟩
  by_cases he : pid' = pid
  · rw [he, hd] at hs; cases hs; rfl
  · rw [hother pid' he] at hs; cases hs

theorem orderly_elsewhere {s : Sys} {pid : Nat} (hd : s.stage pid ≠ some .daemonised)
    (hq : ∀ q, s.stage pid ≠ some (.ownPid q)) : Orderly s (.next pid) := by
  intro pid₁ e
  cases e
  exact ⟨fun h => absurd h hd, fun q h => absurd h (hq q)⟩

theorem refusedStart_orderly : Machine.Meets step Orderly (initial none false fun _ => none) refusedStart := by
  refine .cons (fun _ e => by cases e) (fun s hs => ?_)
  cases hs
  iterate 2
    refine .cons (orderly_next (fun pid' h => by simp [Sys.stage, Sys.set, initial, h]) (fun q hq => by cases hq))
      (fun s hs => ?_)
    cases hs
  refine .cons (fun _ e => by cases e) (fun s hs => ?_)
  cases hs
  iterate 3
    refine .cons (orderly_next (fun pid' h => by simp [Sys.stage, Sys.set, initial, h]) (fun q hq => by cases hq <;> rfl))
      (fun s hs => ?_)
    cases hs
  refine .cons (fun _ e => by cases e) (fun s hs => ?_)
  cases hs
  iterate 6
    refine .cons (orderly_elsewhere (by decide) (fun q hq => by cases hq)) (fun s hs => ?_)
    cases hs
  exact .nil _ _ _

theorem refusedStart_one : ∃ s, Machine.run step (initial none false fun _ => none) refusedStart = some s ∧
    s.stage 11 = some .watching ∧ s.procs 20 = none ∧ ∀ pid, s.stage pid = some .watching → pid = 11 := by
  have hrun : Machine.run step (initial none false fun _ => none) refusedStart = some _ :=
    (Option.some_get (by decide)).symm
  have hw : ((Machine.run step (initial none false fun _ => none) refusedStart).get (by decide)).stage 11 =
      some .watching := by decide
  exact ⟨_, hrun, hw, by decide, fun pid hp =>
    one_monitor none false (fun _ => none) refusedStart _ refusedStart_orderly hrun pid 11 hp hw⟩

end CheckRealtime.Startup
