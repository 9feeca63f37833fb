import CheckRealtime.TaskTimer
import Mathlib.Logic.Function.Basic
/-!
# FileAnalysis — `file_analysis.cpp`

`doAnalysis` is `FileAnalysis::do_analysis` on the data it owns (`Judge`: the armed timers, `_taskmap`, `global_id`, the
database and the alerts raised so far), with the clock readings and the view of the file as arguments.  The database is
a parameter (`DbOps`), so that one definition serves a map, a table behind SQL and a database whose calls may fail;
`mapDb` is the map.

`doAnalysis_reconciles_iff` says when one call brings the row of a file into line with the file.
-/
namespace CheckRealtime

/-! ## Filters and greps -/

/-- A `regmap`, listed in the order a `tr1::unordered_map` iterates it. -/
abbrev RegMap := List (Str × List Str)

/-- `is_prefix_`: the two strings agree up to the end of the shorter one. -/
def isPrefix_ : Str → Str → Bool
  | c :: p, d :: q => if c ≠ d then false else isPrefix_ p q
  | _, _           => true

/-- `match`: the first entry related to the file decides, and `dir` is not looked at. -/
def matchFilter (matchRegex : Str → Str → Bool) (regs : RegMap) (_dir filename : Str) : Bool :=
  match regs.find? (fun it => isPrefix_ filename it.1) with
  | none    => false
  | some it => decide (it.2.countP (matchRegex filename) ≠ 0)

/-- What a run fixes: the two maps, the POSIX matcher behind `match_regex`, and `_interval` in seconds. -/
structure Config where
  ignore     : RegMap
  grep       : RegMap
  matchRegex : Str → Str → Bool
  interval   : Int

/-- The two tests at the head of `do_analysis`: not ignored, and grepped when anything is. -/
def Config.passes (C : Config) (dir name : Str) : Bool :=
  !matchFilter C.matchRegex C.ignore dir name &&
    !(decide (0 < C.grep.length) && !matchFilter C.matchRegex C.grep dir name)

/-! ## The database -/

abbrev Row := Str × Int

/-- The calls of `FileDB`.  `find` returns nothing both for a missing row and for an error; the return codes of the
other three are not looked at. -/
structure DbOps (σ : Type) where
  find   : σ → Str → σ × Option Row
  insert : σ → Str → Str → Int → σ
  update : σ → Str → Str → Int → σ
  del    : σ → Str → σ

abbrev DbMap := Str → Option Row

def mapDb : DbOps DbMap where
  find db name := (db, db name)
  insert db name md5sum now := Function.update db name (some (md5sum, now))
  update db name md5sum now := Function.update db name ((db name).map (fun _ => (md5sum, now)))
  del db name := Function.update db name none

theorem mapDb_find {db : DbMap} {name : Str} {row : Option Row} (h : db name = row) : mapDb.find db name = (db, row) := by
  rw [← h]; rfl

theorem mapDb_find_inv {db db' : DbMap} {name : Str} {row : Option Row} (h : mapDb.find db name = (db', row)) :
    db = db' ∧ db name = row :=
  Prod.mk.inj h

@[simp] theorem mapDb_insert (db : DbMap) (name md5sum : Str) (now : Int) :
    mapDb.insert db name md5sum now = Function.update db name (some (md5sum, now)) := rfl

theorem mapDb_update {db : DbMap} {name : Str} {row : Row} (h : db name = some row) (md5sum : Str) (now : Int) :
    mapDb.update db name md5sum now = Function.update db name (some (md5sum, now)) := by
  show Function.update db name ((db name).map _) = _
  rw [h, Option.map_some]

@[simp] theorem mapDb_del (db : DbMap) (name : Str) : mapDb.del db name = Function.update db name none := rfl

/-! ## `do_analysis` -/

structure AnalysisNode where
  dir  : Str
  name : Str
deriving DecidableEq

inductive Level where
  | changed | created | deleted
deriving DecidableEq

/-- `enum { CHANGED = 1, CREATED = 2, DELETED = 3 }`. -/
def Level.code : Level → Int
  | .changed => 1
  | .created => 2
  | .deleted => 3

structure Alert where
  level : Level
  dir   : Str
  name  : Str
deriving DecidableEq

/-- The armed timers, the task on record for each file, and the next `task_id`. -/
structure Tasks where
  callbacks : Callbacks AnalysisNode
  taskmap   : Str → Option (TaskTimer AnalysisNode)
  globalId  : Int

def noTasks : Tasks := ⟨TaskTimerManager.empty, fun _ => none, 0⟩

structure Judge (σ : Type) extends Tasks where
  db     : σ
  alerts : List Alert

variable {σ : Type}

def Judge.alert (j : Judge σ) (level : Level) (dir name : Str) : Judge σ :=
  { j with alerts := j.alerts ++ [⟨level, dir, name⟩] }

/-- `_interval && now < timestamp + _interval`. -/
def Config.delays (C : Config) (now timestamp : Int) : Bool :=
  decide (C.interval ≠ 0) && decide (now < timestamp + C.interval)

def cancelOld (cs : Callbacks AnalysisNode) : Option (TaskTimer AnalysisNode) → Callbacks AnalysisNode
  | none     => cs
  | some old => TaskTimerManager.cancel cs old

/-- The timer a delayed check arms; its expiration is narrowed to `int`. -/
def Config.newTask (C : Config) (id now : Int) (dir name : Str) : TaskTimer AnalysisNode :=
  ⟨toInt (C.interval + now), id, ⟨dir, name⟩⟩

/-- The delayed exit: cancel the task on record, arm a new one and put it on record. -/
def Judge.delay (C : Config) (j : Judge σ) (now : Int) (dir name : Str) : Judge σ :=
  let taskTimer := C.newTask j.globalId now dir name
  { j with
    callbacks := TaskTimerManager.add (cancelOld j.callbacks (j.taskmap name)) taskTimer
    globalId  := j.globalId + 1
    taskmap   := Function.update j.taskmap name (some taskTimer) }

/-- `do_analysis`, where `now` is its `time(NULL)`, `later` the one `insert` or `update` reads, and `ob` what
`get_checksum` sees of the file. -/
def doAnalysis (C : Config) (D : DbOps σ) (now later : Int) (ob : Observed) (j : Judge σ) (baseDir finalName : Str) :
    Judge σ :=
  if matchFilter C.matchRegex C.ignore baseDir finalName then j
  else if decide (0 < C.grep.length) && !matchFilter C.matchRegex C.grep baseDir finalName then j
  else
    let (db, row) := D.find j.db finalName
    let j := { j with db := db }
    match row with
    | none =>
      -- the return code of `get_checksum` is not looked at here
      let checksum := (getChecksum ob []).2
      Judge.alert { j with db := D.insert j.db finalName checksum later } .created baseDir finalName
    | some (sum, timestamp) =>
      if C.delays now timestamp then j.delay C now baseDir finalName
      else
        let (rc, checksum) := getChecksum ob []
        let j :=
          if rc = FILE_NOT_EXIST then
            let j := j.alert .deleted baseDir finalName
            { j with db := D.del j.db finalName }
          else if checksum ≠ sum then
            Judge.alert { j with db := D.update j.db finalName checksum later } .changed baseDir finalName
          else j
        { j with taskmap := Function.update j.taskmap finalName none }

theorem doAnalysis_not_passes (C : Config) (D : DbOps σ) (now later : Int) (ob : Observed) (j : Judge σ) (dir name : Str)
    (h : C.passes dir name = false) : doAnalysis C D now later ob j dir name = j := by
  unfold doAnalysis
  split
  · rfl
  · rename_i hi
    split
    · rfl
    · rename_i hg
      simp only [Config.passes, Bool.and_eq_false_iff, Bool.not_eq_false'] at h
      rcases h with h | h
      · exact absurd h hi
      · exact absurd h hg

/-! ## The exits of a call

What a call that passes the tests leaves behind, by what `find` answers. -/

theorem passes_iff (C : Config) (dir name : Str) : C.passes dir name = true ↔
    ¬ matchFilter C.matchRegex C.ignore dir name = true ∧
      ¬ (decide (0 < C.grep.length) && !matchFilter C.matchRegex C.grep dir name) = true := by
  rw [Config.passes, Bool.and_eq_true, Bool.not_eq_true', Bool.not_eq_true', Bool.not_eq_true, Bool.not_eq_true]

section

variable (C : Config) (D : DbOps σ) (now later : Int) (ob : Observed) (j : Judge σ) (dir name : Str) {db : σ} {sum : Str} {ts : Int}

theorem doAnalysis_new (hp : C.passes dir name = true) (hf : D.find j.db name = (db, none)) :
    doAnalysis C D now later ob j dir name =
      { j with db := D.insert db name (getChecksum ob []).2 later
               alerts := j.alerts ++ [⟨.created, dir, name⟩] } := by
  obtain ⟨hi, hg⟩ := (passes_iff C dir name).1 hp
  simp only [doAnalysis, if_neg hi, if_neg hg, hf]
  rfl

theorem doAnalysis_delayed (hp : C.passes dir name = true) (hf : D.find j.db name = (db, some (sum, ts)))
    (hd : C.delays now ts = true) :
    doAnalysis C D now later ob j dir name = Judge.delay C { j with db := db } now dir name := by
  obtain ⟨hi, hg⟩ := (passes_iff C dir name).1 hp
  simp only [doAnalysis, if_neg hi, if_neg hg, hf, hd, if_true]

theorem doAnalysis_checked (hp : C.passes dir name = true) (hf : D.find j.db name = (db, some (sum, ts)))
    (hd : C.delays now ts = false) :
    doAnalysis C D now later ob j dir name =
      if ob.absent = true then
        { j with db := D.del db name
                 alerts := j.alerts ++ [⟨.deleted, dir, name⟩]
                 taskmap := Function.update j.taskmap name none }
      else if (getChecksum ob []).2 ≠ sum then
        { j with db := D.update db name (getChecksum ob []).2 later
                 alerts := j.alerts ++ [⟨.changed, dir, name⟩]
                 taskmap := Function.update j.taskmap name none }
      else { j with db := db, taskmap := Function.update j.taskmap name none } := by
  obtain ⟨hi, hg⟩ := (passes_iff C dir name).1 hp
  simp only [doAnalysis, if_neg hi, if_neg hg, hf, hd, getChecksum_rc_eq]
  by_cases ha : ob.absent = true
  · simp only [if_pos ha]; rfl
  · by_cases hc : (getChecksum ob []).2 = sum
    · simp [ha, hc]
    · simp only [if_neg ha, ne_eq, hc, not_false_eq_true]; rfl

end

/-! ## Reconciling the record with the file -/

/-- What one call should leave behind for a file that is readable or absent: its row agrees with it, every other row is
untouched, and the one alert raised, if any, names the difference between the old row and the file. -/
structure Reconciles (j j' : Judge DbMap) (ob : Observed) (dir name : Str) : Prop where
  row      : (j'.db name).isSome = true ↔ ob.readable = true
  checksum : ∀ r, j'.db name = some r → r.1 = (getChecksum ob []).2
  others   : ∀ g, g ≠ name → j'.db g = j.db g
  alerts   : ∃ raised : Option Level, j'.alerts = j.alerts ++ (raised.map (fun l => ⟨l, dir, name⟩)).toList ∧
    (raised = some .created ↔ j.db name = none ∧ ob.readable = true) ∧
    (raised = some .deleted ↔ j.db name ≠ none ∧ ob.absent = true) ∧
    (raised = some .changed ↔ (∃ r, j.db name = some r ∧ r.1 ≠ (getChecksum ob []).2) ∧ ob.readable = true)

/-- **A call outside the delay window reconciles the record with the file exactly when there was a row or there is a
file.**  With neither, it records the empty checksum and raises CREATED. -/
theorem doAnalysis_reconciles_iff (C : Config) (now later : Int) (ob : Observed) (j : Judge DbMap) (dir name : Str)
    (hp : C.passes dir name = true) (hw : ∀ sum ts, j.db name = some (sum, ts) → C.delays now ts = false)
    (hob : ob.readable = true ∨ ob.absent = true) :
    Reconciles j (doAnalysis C mapDb now later ob j dir name) ob dir name ↔
      j.db name ≠ none ∨ ob.readable = true := by
  have hra : ob.readable = true ↔ ob.absent = false :=
    ⟨absent_of_readable ob, fun h => hob.resolve_right (by simp [h])⟩
  cases hrow : j.db name with
  | none =>
    rw [doAnalysis_new C mapDb now later ob j dir name hp (mapDb_find hrow), mapDb_insert]
    constructor
    · intro h
      exact Or.inr (h.row.1 (by simp))
    · intro h
      have hr : ob.readable = true := h.resolve_left (fun h => h rfl)
      refine ⟨by simp [hr], fun r hr => ?_, fun g hg => Function.update_of_ne hg _ _, ?_⟩
      · simp only [Function.update_self, Option.some.injEq] at hr
        rw [← hr]
      · exact ⟨some .created, rfl, by simp [hrow, hr], by simp [hrow], by simp [hrow]⟩
  | some r =>
    obtain ⟨sum, ts⟩ := r
    refine ⟨fun _ => Or.inl (by simp), fun _ => ?_⟩
    rw [doAnalysis_checked C mapDb now later ob j dir name hp (mapDb_find hrow) (hw sum ts hrow), mapDb_del, mapDb_update hrow]
    cases ha : ob.absent with
    | true =>
      have hr : ob.readable = false := by simpa [ha] using hra
      simp only [if_true]
      refine ⟨by simp [hr], fun r hr => ?_, fun g hg => Function.update_of_ne hg _ _, ?_⟩
      · simp at hr
      · exact ⟨some .deleted, rfl, by simp [hrow], by simp [hrow, ha], by simp [hr]⟩
    | false =>
      have hr : ob.readable = true := hra.2 ha
      by_cases hc : (getChecksum ob []).2 = sum
      · simp only [hc, Bool.false_eq_true, if_false, ne_eq, not_true]
        refine ⟨by simp [hrow, hr], fun r hr => ?_, fun g _ => rfl, ?_⟩
        · have hr : j.db name = some r := hr
          rw [hrow] at hr; cases hr; exact hc.symm
        · exact ⟨none, by simp, by simp [hrow], by simp [ha], by simp [hrow, hc]⟩
      · simp only [hc, Bool.false_eq_true, if_false, ne_eq, not_false_eq_true, if_true]
        refine ⟨by simp [hr], fun r hr => ?_, fun g hg => Function.update_of_ne hg _ _, ?_⟩
        · simp only [Function.update_self, Option.some.injEq] at hr
          rw [← hr]
        · exact ⟨some .changed, rfl, by simp [hrow], by simp [ha], by simpa [hrow, hr] using fun h => hc h.symm⟩

def plainConfig : Config := ⟨[], [], fun _ _ => false, 0⟩

def emptyJudge (db : σ) : Judge σ := ⟨noTasks, db, []⟩

/-- A file that is gone when the worker gets to it. -/
def goneFile : Observed := ⟨.error ENOENT, .openFails⟩

def emptyFile : Observed := ⟨.ok ⟨0, 0o100644, 0, 0⟩, .digest .zero⟩

/-- A file created and removed before the worker gets to it, with no row: the call reports CREATED and records a row. -/
theorem doAnalysis_gone_unrecorded :
    plainConfig.passes (ascii "/w") (ascii "/w/f") = true ∧ goneFile.absent = true ∧
      (doAnalysis plainConfig mapDb 5 5 goneFile (emptyJudge fun _ => none) (ascii "/w") (ascii "/w/f")).alerts =
        [⟨.created, ascii "/w", ascii "/w/f"⟩] ∧
      ¬ Reconciles (emptyJudge fun _ => none)
        (doAnalysis plainConfig mapDb 5 5 goneFile (emptyJudge fun _ => none) (ascii "/w") (ascii "/w/f"))
        goneFile (ascii "/w") (ascii "/w/f") := by
  refine ⟨by decide, by decide, by decide, fun h => ?_⟩
  have := h.row.1 (by decide)
  revert this; decide

theorem doAnalysis_emptyFile_reconciles :
    Reconciles (emptyJudge fun _ => none)
      (doAnalysis plainConfig mapDb 5 5 emptyFile (emptyJudge fun _ => none) (ascii "/w") (ascii "/w/f"))
      emptyFile (ascii "/w") (ascii "/w/f") :=
  (doAnalysis_reconciles_iff plainConfig 5 5 emptyFile (emptyJudge fun _ => none) (ascii "/w") (ascii "/w/f") (by decide)
    (fun _ _ h => by cases h) (Or.inl (by decide))).2 (Or.inr (by decide))

/-! ## A file whose state cannot be determined -/

/-- `lstat` fails with another error than `ENOENT`, or the file does not open or does not read to the end. -/
def Observed.undetermined (ob : Observed) : Bool :=
  match ob.lstat, ob.reading with
  | .error e, _        => e != ENOENT
  | .ok _, .digest _   => false
  | .ok st, .openFails => isReg st.mode || isLnk st.mode
  | .ok st, .readFails => isReg st.mode || isLnk st.mode

/-- The string such a state comes to: nothing when `lstat` fails, and else one without a digest. -/
def undeterminedSum (ob : Observed) : Str :=
  match ob.lstat with
  | .error _ => []
  | .ok st   => checksumString st []

theorem getChecksum_undetermined (ob : Observed) (h : ob.undetermined = true) :
    ob.absent = false ∧ (getChecksum ob []).2 = undeterminedSum ob := by
  obtain ⟨lstat, reading⟩ := ob
  cases lstat with
  | error e =>
    have he : ¬ e = ENOENT := by simpa [Observed.undetermined] using h
    simp [Observed.absent, getChecksum, undeterminedSum, he]
  | ok st =>
    cases reading with
    | digest d => cases h
    | openFails =>
      have hst : (isReg st.mode || isLnk st.mode) = true := h
      simp only [Observed.absent, getChecksum, undeterminedSum, hst, if_true, getMd5sum, and_self]
    | readFails =>
      have hst : (isReg st.mode || isLnk st.mode) = true := h
      simp only [Observed.absent, getChecksum, undeterminedSum, hst, if_true, getMd5sum, and_self]

/-- What a check that cannot read the file should leave alone: the row and its alerts, and no row made of what was not
read. -/
structure Intact (j j' : Judge DbMap) (ob : Observed) (name : Str) : Prop where
  row        : j.db name ≠ none → j'.db name = j.db name
  alerts     : j.db name ≠ none → ∃ raised, j'.alerts = j.alerts ++ raised ∧ ∀ a ∈ raised, a.level = .created
  unrecorded : j.db name = none → ∀ ts, j'.db name ≠ some ((getChecksum ob []).2, ts)

/-- **A check that cannot read the file leaves the record intact exactly when the row holds already what such a state
comes to.**  Without a row it never does. -/
theorem doAnalysis_intact_iff (C : Config) (now later : Int) (ob : Observed) (j : Judge DbMap) (dir name : Str)
    (hp : C.passes dir name = true) (hw : ∀ sum ts, j.db name = some (sum, ts) → C.delays now ts = false)
    (hob : ob.undetermined = true) :
    Intact j (doAnalysis C mapDb now later ob j dir name) ob name ↔ ∃ ts, j.db name = some (undeterminedSum ob, ts) := by
  obtain ⟨habsent, hsum⟩ := getChecksum_undetermined ob hob
  cases hrow : j.db name with
  | none =>
    rw [doAnalysis_new C mapDb now later ob j dir name hp (mapDb_find hrow), mapDb_insert]
    constructor
    · intro h
      exact absurd (Function.update_self ..) (h.unrecorded hrow later)
    · rintro ⟨ts, hts⟩
      cases hts
  | some r =>
    obtain ⟨sum, ts⟩ := r
    rw [doAnalysis_checked C mapDb now later ob j dir name hp (mapDb_find hrow) (hw sum ts hrow), mapDb_update hrow, hsum,
      if_neg (by simp [habsent])]
    by_cases hc : undeterminedSum ob = sum
    · rw [if_neg (by simp [hc])]
      refine iff_of_true ⟨fun _ => rfl, fun _ => ⟨[], (List.append_nil _).symm, fun _ h => by cases h⟩, fun h => ?_⟩
        ⟨ts, by rw [hc]⟩
      rw [hrow] at h; cases h
    · rw [if_pos hc]
      refine iff_of_false (fun h => ?_) ?_
      · obtain ⟨raised, hraised, hcreated⟩ := h.alerts (by rw [hrow]; exact Option.some_ne_none _)
        have := hcreated ⟨.changed, dir, name⟩ (by rw [← List.append_cancel_left hraised]; exact List.mem_singleton_self _)
        cases this
      · rintro ⟨ts', hts⟩
        cases hts
        exact hc rfl

def EACCES : Errno := 13

def lockedFile : Observed := ⟨.error EACCES, .openFails⟩

def lockedJudge (sum : Str) : Judge DbMap := emptyJudge fun name => if name = ascii "/w/f" then some (sum, 7) else none

/-- A directory on the way to the file is closed to the monitor: the row loses its checksum and CHANGED is raised. -/
theorem doAnalysis_locked_changes : ¬ ∀ (C : Config) (now later : Int) (ob : Observed) (j : Judge DbMap) (dir name : Str),
    C.passes dir name = true → (∀ sum ts, j.db name = some (sum, ts) → C.delays now ts = false) →
      ob.undetermined = true → Intact j (doAnalysis C mapDb now later ob j dir name) ob name := by
  intro h
  have hrow := (h plainConfig 9 9 lockedFile (lockedJudge (ascii "0:33188:0:0:")) (ascii "/w") (ascii "/w/f") (by decide)
    (fun _ _ _ => rfl) (by decide)).row (by decide)
  exact absurd hrow (by decide +kernel)

theorem doAnalysis_locked_intact :
    Intact (lockedJudge []) (doAnalysis plainConfig mapDb 9 9 lockedFile (lockedJudge []) (ascii "/w") (ascii "/w/f"))
      lockedFile (ascii "/w/f") :=
  (doAnalysis_intact_iff plainConfig 9 9 lockedFile (lockedJudge []) (ascii "/w") (ascii "/w/f") (by decide)
    (fun _ _ _ => rfl) (by decide)).2 ⟨7, by decide⟩

end CheckRealtime
