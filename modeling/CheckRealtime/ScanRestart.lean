import CheckRealtime.ScanTree
/-!
# ScanRestart — what a scan finds after a restart

The database of an earlier run meets a file system that changed while the process was down.  The scan brings the rows of
the files it goes through into line and leaves every other row as it is.
-/
namespace CheckRealtime

def checksumNow (fs : FileSys) (path : Str) : Str := (getChecksum (fs.observed path) []).2

def restartAlerts (fs : FileSys) (row : Option Row) (path : Str) : List Alert :=
  match row with
  | none   => [⟨.created, getBasedir path, path⟩]
  | some r => if r.1 = checksumNow fs path then [] else [⟨.changed, getBasedir path, path⟩]

def alertsFor (w : Watcher DbMap) (path : Str) : List Alert := w.judge.alerts.filter (fun a => a.name = path)

structure Config.Plain (C : Config) : Prop where
  ignore   : C.ignore = []
  grep     : C.grep = []
  interval : C.interval = 0

theorem Config.Plain.passes {C : Config} (h : C.Plain) (dir name : Str) : C.passes dir name = true := by
  simp [Config.passes, matchFilter, h.ignore, h.grep]

theorem delays_zero {C : Config} (h : C.interval = 0) (now ts : Int) : C.delays now ts = false := by
  simp [Config.delays, h]

theorem absent_of_file (fs : FileSys) (path : Str) (h : isDir fs path = false) : (fs.observed path).absent = false := by
  unfold isDir at h
  unfold Observed.absent FileSys.observed
  cases hl : fs.lstat path with
  | error e => rw [hl] at h; cases h
  | ok st => rfl

section

variable (E : ScanEnv) (C : Config)

/-- **One file that passes and is there**: its row is brought into line, with an alert when there was a difference. -/
theorem analyse_spec (hI : C.interval = 0) (clock : Nat → Int) (w : Watcher DbMap) (path : Str)
    (hpass : C.passes (getBasedir path) path = true) (ha : (E.fs.observed path).absent = false) :
    (∃ ts, (analyse E C mapDb clock w path).judge.db path = some (checksumNow E.fs path, ts)) ∧
      (∀ g, g ≠ path → (analyse E C mapDb clock w path).judge.db g = w.judge.db g) ∧
      (analyse E C mapDb clock w path).judge.alerts = w.judge.alerts ++ restartAlerts E.fs (w.judge.db path) path := by
  have hpass : C.passes (scanNode path).dir (scanNode path).name = true := hpass
  cases hrow : w.judge.db path with
  | none =>
    simp only [analyse]
    rw [doAnalysis_new C _ _ _ _ _ _ _ hpass (mapDb_find hrow)]
    exact ⟨⟨_, Function.update_self ..⟩, fun g hg => Function.update_of_ne hg _ _, rfl⟩
  | some r =>
    obtain ⟨sum, ts⟩ := r
    simp only [analyse]
    have hnode : w.judge.db (scanNode path).name = some (sum, ts) := hrow
    rw [doAnalysis_checked C _ _ _ _ _ _ _ hpass (mapDb_find hnode) (delays_zero hI _ _), ha, mapDb_update hnode]
    by_cases hsum : checksumNow E.fs path = sum
    · have hsame : ¬ (getChecksum (E.fs.observed path) []).2 ≠ sum := not_not.2 hsum
      simp only [Bool.false_eq_true, if_false, if_neg hsame]
      exact ⟨⟨ts, by rw [hrow, hsum]⟩, fun _ _ => trivial, by simp [restartAlerts, hsum]⟩
    · have hdiff : (getChecksum (E.fs.observed path) []).2 ≠ sum := hsum
      simp only [Bool.false_eq_true, if_false, if_pos hdiff]
      exact ⟨⟨_, Function.update_self ..⟩, fun g hg => Function.update_of_ne hg _ _,
        by simp [restartAlerts, Ne.symm hdiff, scanNode, checksumNow]⟩

variable (hC : C.Plain) (clock : Nat → Int)

/-- What holds when the scan has gone through some entries: files among them have their row and their alert, and nothing
else has changed. -/
structure AfterScan (db : DbMap) (seen : List Entry) (w : Watcher DbMap) : Prop where
  row       : ∀ path, (⟨0, path⟩ : Entry) ∈ seen → ∃ ts, w.judge.db path = some (checksumNow E.fs path, ts)
  alerts    : ∀ path, (⟨0, path⟩ : Entry) ∈ seen → alertsFor w path = restartAlerts E.fs (db path) path
  unchanged : ∀ path, (⟨0, path⟩ : Entry) ∉ seen → w.judge.db path = db path ∧ alertsFor w path = []

theorem filter_restartAlerts (fs : FileSys) (row : Option Row) (path g : Str) :
    (restartAlerts fs row path).filter (fun a => a.name = g) = if path = g then restartAlerts fs row path else [] := by
  unfold restartAlerts
  cases row with
  | none => by_cases h : path = g <;> simp [h]
  | some r =>
    simp only
    split
    · simp
    · by_cases h : path = g <;> simp [h]

include hC in
theorem afterScan_file (db : DbMap) (seen : List Entry) (w : Watcher DbMap) (h : AfterScan E db seen w) (path : Str)
    (hfile : isDir E.fs path = false) :
    AfterScan E db (seen ++ [⟨0, path⟩]) (analyse E C mapDb clock w path) := by
  obtain ⟨hrow, hframe, halerts⟩ := analyse_spec E C hC.interval clock w path (hC.passes _ _)
    (absent_of_file E.fs path hfile)
  have hfor : ∀ g, alertsFor (analyse E C mapDb clock w path) g =
      alertsFor w g ++ if path = g then restartAlerts E.fs (w.judge.db path) path else [] := fun g => by
    rw [alertsFor, halerts, List.filter_append, filter_restartAlerts]; rfl
  have hmem : ∀ g, (⟨0, g⟩ : Entry) ∈ seen ++ [⟨0, path⟩] ↔ (⟨0, g⟩ : Entry) ∈ seen ∨ g = path := fun g => by simp
  -- a file seen before has its row already, and no alert is added
  have hagain : (⟨0, path⟩ : Entry) ∈ seen → restartAlerts E.fs (w.judge.db path) path = [] := fun hs => by
    obtain ⟨ts, hts⟩ := h.row path hs
    simp [restartAlerts, hts]
  constructor
  · intro g hg
    by_cases hgp : g = path
    · subst hgp; exact hrow
    · rw [hframe g hgp]
      exact h.row g (((hmem g).1 hg).resolve_right hgp)
  · intro g hg
    rw [hfor g]
    by_cases hgp : g = path
    · subst hgp
      rw [if_pos rfl]
      by_cases hs : (⟨0, g⟩ : Entry) ∈ seen
      · rw [hagain hs, List.append_nil, h.alerts g hs]
      · rw [(h.unchanged g hs).2, (h.unchanged g hs).1, List.nil_append]
    · rw [if_neg (fun e => hgp e.symm), List.append_nil]
      exact h.alerts g (((hmem g).1 hg).resolve_right hgp)
  · intro g hg
    rw [hmem, not_or] at hg
    rw [hframe g hg.2, hfor g, if_neg (fun e => hg.2 e.symm), List.append_nil]
    exact h.unchanged g hg.1

theorem afterScan_dir (db : DbMap) (seen : List Entry) (w : Watcher DbMap) (h : AfterScan E db seen w) (dir : Str) :
    AfterScan E db (seen ++ [⟨1, dir⟩]) (addWatch E w dir) := by
  have hjudge : (addWatch E w dir).judge = w.judge := by
    unfold addWatch
    split
    · rfl
    · split <;> rfl
  have hmem : ∀ g, (⟨0, g⟩ : Entry) ∈ seen ++ [⟨1, dir⟩] ↔ (⟨0, g⟩ : Entry) ∈ seen := fun g => by simp
  constructor
  · intro g hg
    rw [hjudge]
    exact h.row g ((hmem g).1 hg)
  · intro g hg
    rw [alertsFor, hjudge]
    exact h.alerts g ((hmem g).1 hg)
  · intro g hg
    rw [alertsFor, hjudge]
    exact h.unchanged g (fun hs => hg ((hmem g).2 hs))

include hC in
theorem afterScan_entries (hskip : E.skip = false) (roots : List (Str × Bool)) (db : DbMap) :
    ∀ seen : List Entry, (∀ e ∈ seen, e ∈ entriesOf E roots) →
      AfterScan E db seen (seen.foldl (onEntry E C mapDb clock) (newWatcher db)) := by
  intro seen
  induction seen using List.reverseRecOn with
  | nil => exact fun _ => ⟨fun _ h => by simp at h, fun _ h => by simp at h, fun _ _ => ⟨rfl, rfl⟩⟩
  | append_singleton seen e ih =>
    intro hseen
    have hw := ih (fun e' he' => hseen e' (by simp [he']))
    have he := hseen e (by simp)
    rw [List.foldl_concat]
    rcases type_of_mem E e he with heq | heq
    · rw [heq]
      exact afterScan_dir E db seen _ hw e.name
    · rw [heq] at he ⊢
      have hstep : ∀ w : Watcher DbMap, onEntry E C mapDb clock w ⟨0, e.name⟩ = analyse E C mapDb clock w e.name := fun w => by
        simp [onEntry, hskip]
      rw [hstep]
      exact afterScan_file E C hC clock db seen _ hw e.name (isDir_of_mem_file E _ he)

include hC in
/-- **A restart finds every file that a scanned directory lists, and nothing else**: a file's row gets the checksum of now,
with CREATED when there was no row and CHANGED when it held another checksum; the row of a path where there is no file
stays, and nothing is said about it. -/
theorem restart_finds_files (hfs : E.fs.Sound) (hskip : E.skip = false) (roots : List (Str × Bool))
    (hroom : HasRoom E roots) (hroots : ∀ r ∈ roots, Normal r.1) (db : DbMap) :
    ∃ w, (∃ k, ∀ fuel, k ≤ fuel → loadWatcher E C mapDb clock fuel roots (newWatcher db) = some w) ∧
      ∀ dir names n, Scanned E roots dir → E.fs.opendir dir = some names → isDot n = false →
        (n ∈ names → isDir E.fs (withSlash dir ++ n) = false →
          (∃ ts, w.judge.db (withSlash dir ++ n) = some (checksumNow E.fs (withSlash dir ++ n), ts)) ∧
            alertsFor w (withSlash dir ++ n) = restartAlerts E.fs (db (withSlash dir ++ n)) (withSlash dir ++ n)) ∧
        (isDir E.fs (withSlash dir ++ n) = true →
          w.judge.db (withSlash dir ++ n) = db (withSlash dir ++ n) ∧ alertsFor w (withSlash dir ++ n) = []) := by
  have hscan := afterScan_entries E C hC clock hskip roots db (entriesOf E roots) (fun _ h => h)
  refine ⟨_, ⟨(entriesOf E roots).length + 1, fun fuel hfuel =>
      loadWatcher_eq E C mapDb clock hfs hroom fuel _ (by omega)⟩,
    fun dir names n hs hopen hdot => ⟨fun hn hfile => ?_, fun hdir => ?_⟩⟩
  · have hmem := mem_file_of_scanned E hfs hroom hroots dir n hs names hopen hn hdot hfile
    exact ⟨hscan.row _ hmem, hscan.alerts _ hmem⟩
  · refine hscan.unchanged _ (fun hmem => ?_)
    rw [isDir_of_mem_file E _ hmem] at hdir
    cases hdir

end

/-! ## The directory with one file again -/

theorem oneFile_lstat_ok (p : Str) (st : Stat) (h : oneFile.lstat p = .ok st) :
    p = ascii "/w" ∨ p = ascii "/w/" ∨ p = ascii "/w/f" := by
  simp only [oneFile] at h
  split at h
  · rename_i hp
    exact hp.elim Or.inl (fun hp => Or.inr (Or.inl hp))
  · split at h
    · rename_i hp; exact Or.inr (Or.inr hp)
    · cases h

theorem oneFile_opendir (dir : Str) (names : List Str) (h : oneFile.opendir dir = some names) :
    withSlash dir = ascii "/w/" ∧ dir.length ≤ 3 ∧ names = [ascii ".", ascii "..", ascii "f"] := by
  simp only [oneFile] at h
  split at h
  · rename_i hp
    rcases hp with rfl | rfl <;> exact ⟨by decide, by decide, (Option.some.inj h).symm⟩
  · cases h

theorem oneFile_sound : oneFile.Sound where
  emptyLstat := by decide
  emptyOpendir := by decide
  short path st h := by
    rcases oneFile_lstat_ok path st h with rfl | rfl | rfl <;> decide
  names dir names n h hn := by
    obtain ⟨-, -, rfl⟩ := oneFile_opendir dir names h
    simp only [List.mem_cons, List.not_mem_nil, or_false] at hn
    rcases hn with rfl | rfl | rfl <;> decide

theorem oneFile_room {E : ScanEnv} (h : E.fs = oneFile) (roots : List (Str × Bool)) : HasRoom E roots := by
  intro dir names n _ hopen _ _
  rw [h] at hopen
  have hlen := (oneFile_opendir dir names hopen).2.1
  omega

def oneFileEnv : ScanEnv := ⟨oneFile, [], false, 3⟩

theorem plainConfig_plain : plainConfig.Plain := ⟨rfl, rfl, rfl⟩

theorem oneFile_scanned : Scanned oneFileEnv [(ascii "/w", true)] (ascii "/w") :=
  ⟨_, List.mem_singleton.2 rfl, .refl, by decide, by decide, by decide⟩

/-- The rows of an earlier run: the one of `/w/f` has another checksum, and `/w/gone` is no longer there. -/
def staleRows : DbMap := fun p => if p = ascii "/w/f" ∨ p = ascii "/w/gone" then some (ascii "old", 0) else none

theorem oneFile_found : ∃ w, (∃ k, ∀ fuel, k ≤ fuel →
    loadWatcher oneFileEnv plainConfig mapDb (fun _ => 5) fuel [(ascii "/w", true)] (newWatcher staleRows) = some w) ∧
      (∃ ts, w.judge.db (ascii "/w/f") = some (checksumNow oneFile (ascii "/w/f"), ts)) ∧
      alertsFor w (ascii "/w/f") = [⟨.changed, ascii "/w", ascii "/w/f"⟩] ∧
      w.judge.db (ascii "/w/gone") = some (ascii "old", 0) ∧ alertsFor w (ascii "/w/gone") = [] := by
  obtain ⟨w, hw, h⟩ := restart_finds_files oneFileEnv plainConfig plainConfig_plain (fun _ => 5) oneFile_sound rfl
    [(ascii "/w", true)] (oneFile_room rfl _) (by simp [Normal, ascii, slash]) staleRows
  obtain ⟨hrow, halerts⟩ := (h (ascii "/w") _ (ascii "f") oneFile_scanned rfl (by decide)).1 (by decide) (by decide)
  obtain ⟨hkept, hsilent⟩ := (h (ascii "/w") _ (ascii "gone") oneFile_scanned rfl (by decide)).2 (by decide)
  exact ⟨w, hw, hrow, halerts.trans (by decide), hkept.trans (by decide), hsilent⟩

def goneRow : DbMap := fun p => if p = ascii "/w/gone" then some (ascii "old", 0) else none

/-- A file deleted while the process was down keeps its row, and no alert is raised for it. -/
theorem gone_row_stays : Scanned oneFileEnv [(ascii "/w", true)] (ascii "/w") ∧
    oneFile.lstat (ascii "/w/gone") = .error ENOENT ∧
    ∃ w, loadWatcher oneFileEnv plainConfig mapDb (fun _ => 5) 5 [(ascii "/w", true)] (newWatcher goneRow) = some w ∧
      w.judge.db (ascii "/w/gone") = some (ascii "old", 0) ∧
      w.judge.alerts = [⟨.created, ascii "/w", ascii "/w/f"⟩] :=
  ⟨oneFile_scanned, by decide, Option.get _ (by decide +kernel), (Option.some_get _).symm, by decide +kernel,
    by decide +kernel⟩

end CheckRealtime
