import CheckRealtime.ScanRestart
/-!
# Coverage — directories come and go after startup

The tree below the roots after the scan: directories are made, removed and renamed, files in them change, and `watch()`
turns the events into calls of `analysis`.  A directory has a number of its own, which is also the descriptor
`inotify_add_watch` gives for it; its path is what changes.  `watch()` never adds a watch and never touches `_hash`, and
`covered_iff` says which directories stay covered.
-/
namespace CheckRealtime

/-- The directories with their current paths, the watches the kernel holds, `_hash`, the kernel's event queue, and
`anlysis_queue`. -/
structure TreeSt where
  dirs   : List (Nat × Str)
  live   : List Nat
  hash   : Nat → Option Str
  kernel : List InotifyEvent
  queue  : List AnalysisNode

inductive TreeLabel where
  -- a directory is made in another one
  | mkdir (dir : Nat) (parent : Nat) (name : Str)
  -- an empty directory is removed; its watch goes with it
  | rmdir (dir : Nat) (parent : Nat) (name : Str)
  -- a directory is renamed, with everything below it
  | rename (dir : Nat) (parent : Nat) (name : Str) (newParent : Nat) (newName : Str)
  -- a file is created, written, renamed or removed in a directory
  | change (dir : Nat) (name : Str)
  -- `watch()` reads that many whole events
  | watch (count : Nat)
deriving DecidableEq

namespace TreeSt

def pathOf (s : TreeSt) (dir : Nat) : Option Str := (s.dirs.find? (fun x => x.1 = dir)).map Prod.snd

def entryPath (s : TreeSt) (dir : Nat) (name : Str) : Option Str := (s.pathOf dir).map (fun p => withSlash p ++ name)

/-- The event for a change of a name in a directory, when it is under watch. -/
def notice (s : TreeSt) (dir : Nat) (name : Str) : List InotifyEvent := if dir ∈ s.live then [⟨dir, name⟩] else []

/-- What `watch()` makes of a change of a name in a directory. -/
def reported (s : TreeSt) (dir : Nat) (name : Str) : List AnalysisNode := (s.notice dir name).filterMap (watchEvent s.hash)

end TreeSt

def isBelow (dir path : Str) : Bool := (withSlash dir).isPrefixOf path

def movePath (old new path : Str) : Str :=
  if path = old then new else if isBelow old path then new ++ path.drop old.length else path

def isName (name : Str) : Bool := decide (name ≠ []) && !name.contains slash

def treeStep (s : TreeSt) : TreeLabel → Option TreeSt
  | .mkdir dir parent name =>
    match s.entryPath parent name with
    | none      => none
    | some path =>
      if isName name ∧ s.pathOf dir = none ∧ dir ∉ s.live ∧ s.dirs.all (fun x => x.2 ≠ path) then
        some { s with dirs := s.dirs ++ [(dir, path)], kernel := s.kernel ++ s.notice parent name }
      else none
  | .rmdir dir parent name =>
    match s.entryPath parent name with
    | none      => none
    | some path =>
      if s.pathOf dir = some path ∧ s.dirs.all (fun x => !isBelow path x.2) then
        some { s with dirs   := s.dirs.filter (fun x => x.1 ≠ dir)
                      live   := s.live.filter (· ≠ dir)
                      kernel := s.kernel ++ s.notice parent name ++ s.notice dir [] }
      else none
  | .rename dir parent name newParent newName =>
    match s.entryPath parent name, s.entryPath newParent newName with
    | some old, some new =>
      if isName newName ∧ s.pathOf dir = some old ∧ s.dirs.all (fun x => x.2 ≠ new) ∧ isBelow old new = false then
        some { s with dirs   := s.dirs.map (fun x => (x.1, movePath old new x.2))
                      kernel := s.kernel ++ s.notice parent name ++ s.notice newParent newName }
      else none
    | _, _               => none
  | .change dir name =>
    if s.pathOf dir ≠ none ∧ isName name then some { s with kernel := s.kernel ++ s.notice dir name } else none
  | .watch count =>
    some { s with kernel := s.kernel.drop count
                  queue  := s.queue ++ (s.kernel.take count).filterMap (watchEvent s.hash) }

/-- The directory has a watch whose entry in `_hash` is its current path. -/
def TreeSt.Covered (s : TreeSt) (dir : Nat) : Prop :=
  dir ∈ s.live ∧ ∃ path, s.pathOf dir = some path ∧ s.hash dir = some path

/-- When the scan is over: the watches and `_hash` are the scan's, the directories are where they are. -/
def afterStartup {σ : Type} (w : Watcher σ) (dirs : List (Nat × Str)) : TreeSt :=
  ⟨dirs, w.watches.map Prod.fst, w.hash, [], []⟩

/-! ## What a step does to the watches -/

/-- **No step adds a watch or touches `_hash`**; only `rmdir` takes a watch away. -/
theorem treeStep_watches (s s' : TreeSt) (l : TreeLabel) (h : treeStep s l = some s') :
    s'.hash = s.hash ∧ ∀ dir, dir ∈ s'.live ↔ dir ∈ s.live ∧ ∀ parent name, l ≠ .rmdir dir parent name := by
  cases l <;> simp only [treeStep] at h
  case mkdir dir parent name =>
    split at h
    · cases h
    · split at h <;> cases h
      exact ⟨rfl, fun dir => by simp⟩
  case rmdir dir parent name =>
    split at h
    · cases h
    · split at h <;> cases h
      refine ⟨rfl, fun dir' => ?_⟩
      simp only [List.mem_filter, decide_eq_true_eq]
      refine and_congr_right (fun _ => ⟨fun hne parent' name' e => ?_, fun hno e => ?_⟩)
      · cases e; exact hne rfl
      · exact hno parent name (by rw [e])
  case rename dir parent name newParent newName =>
    split at h
    · split at h <;> cases h
      exact ⟨rfl, fun dir => by simp⟩
    · cases h
  case change dir name =>
    split at h <;> cases h
    exact ⟨rfl, fun dir => by simp⟩
  case watch count =>
    cases h
    exact ⟨rfl, fun dir => by simp⟩

/-- **The watches of a run**: those of the start whose directory has not been removed. -/
theorem run_watches (s₀ : TreeSt) (ls : List TreeLabel) (s : TreeSt) (h : Machine.run treeStep s₀ ls = some s) :
    s.hash = s₀.hash ∧ ∀ dir, dir ∈ s.live ↔ dir ∈ s₀.live ∧ ∀ parent name, .rmdir dir parent name ∉ ls := by
  refine Machine.run_inv_hist treeStep (fun ls s => s.hash = s₀.hash ∧
    ∀ dir, dir ∈ s.live ↔ dir ∈ s₀.live ∧ ∀ parent name, .rmdir dir parent name ∉ ls) s₀ ?_ ?_ ls s h
  · exact ⟨rfl, fun dir => by simp⟩
  · rintro ls s l s' - ⟨hhash, hlive⟩ hstep
    obtain ⟨hhash', hlive'⟩ := treeStep_watches s s' l hstep
    refine ⟨hhash'.trans hhash, fun dir => ?_⟩
    rw [hlive', hlive, and_assoc]
    refine and_congr_right (fun _ => ?_)
    simp only [List.mem_append, List.mem_singleton, not_or]
    exact ⟨fun ⟨h₁, h₂⟩ p n => ⟨h₁ p n, fun e => h₂ p n e.symm⟩, fun h => ⟨fun p n => (h p n).1, fun p n e => (h p n).2 e.symm⟩⟩

/-- **A change is reported under the current path of the directory exactly where it is covered.** -/
theorem reported_iff (s : TreeSt) (dir : Nat) (path name : Str) (hp : s.pathOf dir = some path) (hn : name ≠ []) :
    s.reported dir name = [⟨path, finalName path name⟩] ↔ s.Covered dir := by
  unfold TreeSt.reported TreeSt.notice TreeSt.Covered
  by_cases hl : dir ∈ s.live
  · rw [if_pos hl, hp]
    cases hh : s.hash dir with
    | none => simp [watchEvent, hn, hh]
    | some base =>
      simp only [watchEvent, List.filterMap_cons, hn, if_false, hh, Option.map_some, List.filterMap_nil, List.cons.injEq,
        and_true, AnalysisNode.mk.injEq, hl, true_and, Option.some.injEq, exists_eq_left']
      refine ⟨fun h => h.1, fun h => ?_⟩
      rw [h]; exact ⟨rfl, rfl⟩
  · simp [hl]

/-- The name is the file's, unless the path of the directory ends with a slash: there it has two. -/
theorem finalName_eq_iff (path name : Str) :
    finalName path name = withSlash path ++ name ↔ path.getLast? ≠ some slash := by
  have hfinal : finalName path name = path ++ [slash] ++ name := (List.append_cons path slash name)
  rw [hfinal, List.append_cancel_right_eq, withSlash]
  split
  · rename_i hlast
    exact iff_of_false (fun h => by simp at h) (not_not.2 hlast)
  · rename_i hlast
    exact iff_of_true rfl hlast

/-! ## From the scan to the end of a run -/

section

variable {σ : Type} (E : ScanEnv) (C : Config) (D : DbOps σ) (clock : Nat → Int)

def watchOf (entry : Entry) : Option (Nat × Str) :=
  if entry.type = 1 then (E.fs.addWatch entry.name).map (fun wd => (wd, entry.name)) else none

theorem onEntry_watches (hfd : 0 ≤ E.fd) (w : Watcher σ) (entry : Entry) :
    (onEntry E C D clock w entry).watches = w.watches ++ (watchOf E entry).toList := by
  unfold onEntry watchOf
  split
  · unfold addWatch
    rw [if_neg (by omega)]
    cases E.fs.addWatch entry.name with
    | none => simp
    | some wd => rfl
  · split <;> simp [analyse]

theorem foldl_watches (hfd : 0 ≤ E.fd) : ∀ (entries : List Entry) (w : Watcher σ),
    (entries.foldl (onEntry E C D clock) w).watches = w.watches ++ entries.filterMap (watchOf E)
  | [], w => by rw [List.foldl_nil, List.filterMap_nil, List.append_nil]
  | e :: rest, w => by
    rw [List.foldl_cons, foldl_watches hfd rest, onEntry_watches E C D clock hfd, List.append_assoc, List.filterMap_cons]
    cases watchOf E e <;> rfl

/-- **The startup scan puts under watch the directories it scans**, as far as the kernel lets it. -/
theorem mem_watches_iff (hfs : E.fs.Sound) (hfd : 0 ≤ E.fd) (roots : List (Str × Bool)) (hroom : HasRoom E roots) (db : σ)
    (wd : Nat) (dir : Str) :
    (wd, dir) ∈ ((entriesOf E roots).foldl (onEntry E C D clock) (newWatcher db)).watches ↔
      Scanned E roots dir ∧ E.fs.addWatch dir = some wd := by
  rw [foldl_watches E C D clock hfd, newWatcher, List.nil_append, List.mem_filterMap, ← mem_dir_iff E hfs hroom]
  constructor
  · rintro ⟨e, he, hw⟩
    unfold watchOf at hw
    split at hw
    · rename_i htype
      obtain ⟨wd', hadd, heq⟩ := Option.map_eq_some_iff.1 hw
      cases heq
      rcases type_of_mem E e he with h | h
      · rw [← h]; exact ⟨he, hadd⟩
      · rw [h] at htype; cases htype
    · cases hw
  · rintro ⟨he, hadd⟩
    exact ⟨_, he, by rw [watchOf, if_pos rfl, hadd]; rfl⟩

/-- Each directory is scanned under one path. -/
def OnePath (roots : List (Str × Bool)) : Prop :=
  ∀ dir dir' wd, Scanned E roots dir → Scanned E roots dir' → E.fs.addWatch dir = some wd → E.fs.addWatch dir' = some wd →
    dir = dir'

theorem firstWatched_iff (hfs : E.fs.Sound) (hfd : 0 ≤ E.fd) (roots : List (Str × Bool)) (hroom : HasRoom E roots)
    (hone : OnePath E roots) (db : σ) (wd : Nat) (dir : Str) :
    firstWatched ((entriesOf E roots).foldl (onEntry E C D clock) (newWatcher db)).watches wd = some dir ↔
      Scanned E roots dir ∧ E.fs.addWatch dir = some wd := by
  have hmem := mem_watches_iff E C D clock hfs hfd roots hroom db
  rw [← hmem wd dir, firstWatched]
  constructor
  · intro h
    obtain ⟨⟨wd', dir'⟩, hf, rfl⟩ := Option.map_eq_some_iff.1 h
    have hwd : wd' = wd := by simpa using List.find?_some hf
    rw [← hwd]
    exact List.mem_of_find?_eq_some hf
  · intro h
    cases hf : List.find? (fun x => decide (x.1 = wd))
        ((entriesOf E roots).foldl (onEntry E C D clock) (newWatcher db)).watches with
    | none => exact absurd (List.find?_eq_none.1 hf _ h) (by simp)
    | some x =>
      obtain ⟨wd', dir'⟩ := x
      have hwd : wd' = wd := by simpa using List.find?_some hf
      subst hwd
      obtain ⟨hs, hadd⟩ := (hmem wd' dir).1 h
      obtain ⟨hs', hadd'⟩ := (hmem wd' dir').1 (List.mem_of_find?_eq_some hf)
      rw [Option.map_some, hone dir' dir wd' hs' hs hadd' hadd]

/-- **What stays covered**: in every state of every run after the scan, a directory is covered exactly when the scan put
this very directory under watch under the path it has now, and it has not been removed since; and a change of a file in it
is reported under that path exactly then, with the file's current name unless the path ends with a slash. -/
theorem covered_iff (hfs : E.fs.Sound) (hfd : 0 ≤ E.fd) (roots : List (Str × Bool)) (hroom : HasRoom E roots)
    (hone : OnePath E roots) (db : σ) :
    ∃ w, (∃ k, ∀ fuel, k ≤ fuel → loadWatcher E C D clock fuel roots (newWatcher db) = some w) ∧
      ∀ dirs ls s, Machine.run treeStep (afterStartup w dirs) ls = some s → ∀ dir path, s.pathOf dir = some path →
        (s.Covered dir ↔ Scanned E roots path ∧ E.fs.addWatch path = some dir ∧
          ∀ parent name, .rmdir dir parent name ∉ ls) ∧
        ∀ name, name ≠ [] → (s.reported dir name = [⟨path, finalName path name⟩] ↔ s.Covered dir) ∧
          (finalName path name = withSlash path ++ name ↔ path.getLast? ≠ some slash) := by
  have hend : ∀ fuel, (entriesOf E roots).length + 1 ≤ fuel → loadWatcher E C D clock fuel roots (newWatcher db) =
      some ((entriesOf E roots).foldl (onEntry E C D clock) (newWatcher db)) := fun fuel hfuel =>
    loadWatcher_eq E C D clock hfs hroom fuel _ (by omega)
  refine ⟨_, ⟨(entriesOf E roots).length + 1, hend⟩, fun dirs ls s hrun dir path hp => ⟨?_, fun name hn =>
    ⟨reported_iff s dir path name hp hn, finalName_eq_iff path name⟩⟩⟩
  obtain ⟨hhash, hlive⟩ := run_watches _ ls s hrun
  have hfirst := firstWatched_iff E C D clock hfs hfd roots hroom hone db dir path
  have hstored : s.hash dir = some path ↔ Scanned E roots path ∧ E.fs.addWatch path = some dir := by
    rw [hhash, ← hfirst]
    exact Eq.congr_left (hash_eq_firstWatched E C D clock _ roots db _ (hend _ (Nat.le_refl _)) dir)
  constructor
  · rintro ⟨hl, path', hp', hh⟩
    cases hp.symm.trans hp'
    obtain ⟨hs, hadd⟩ := hstored.1 hh
    exact ⟨hs, hadd, ((hlive dir).1 hl).2⟩
  · rintro ⟨hs, hadd, hno⟩
    refine ⟨(hlive dir).2 ⟨?_, hno⟩, path, hp, hstored.2 ⟨hs, hadd⟩⟩
    exact List.mem_map.2 ⟨(dir, path), (mem_watches_iff E C D clock hfs hfd roots hroom db dir path).2 ⟨hs, hadd⟩, rfl⟩

end

/-! ## The directory with one file, once more -/

theorem oneFile_onePath : OnePath oneFileEnv [(ascii "/w", true)] := by
  have hw : ∀ dir wd, Scanned oneFileEnv [(ascii "/w", true)] dir → oneFile.addWatch dir = some wd → dir = ascii "/w" := by
    rintro dir wd ⟨r, hr, hreach, -⟩ hadd
    rw [List.mem_singleton] at hr
    subst hr
    have hnormal := normal_of_reach oneFileEnv oneFile_sound (oneFile_room rfl _) _ (List.mem_singleton.2 rfl)
      (Or.inr (by decide)) dir hreach
    simp only [oneFile] at hadd
    split at hadd
    · rename_i hdir
      rcases hdir with rfl | rfl
      · rfl
      · exact absurd hnormal (by simp [Normal, ascii, slash])
    · cases hadd
  intro dir dir' wd hs hs' hadd hadd'
  rw [hw dir wd hs hadd, hw dir' wd hs' hadd']

def watchOneFile : Option (Watcher DbMap) :=
  loadWatcher oneFileEnv plainConfig mapDb (fun _ => 5) 5 [(ascii "/w", true)] (newWatcher fun _ => none)

/-- A directory made after startup, when all events have been handled: it is there, nothing excludes it, and no change in
it is reported. -/
theorem new_dir_not_covered : ∃ w s, watchOneFile = some w ∧
    Machine.run treeStep (afterStartup w [(1, ascii "/w")]) [.mkdir 2 1 (ascii "d"), .watch 1] = some s ∧
    s.kernel = [] ∧ s.pathOf 2 = some (ascii "/w/d") ∧ oneFileEnv.needMon (ascii "/w/d") = true ∧
    ¬ s.Covered 2 ∧ s.reported 2 (ascii "f") = [] :=
  ⟨watchOneFile.get (by decide +kernel), (Machine.run treeStep (afterStartup (watchOneFile.get (by decide +kernel))
      [(1, ascii "/w")]) [.mkdir 2 1 (ascii "d"), .watch 1]).get (by decide +kernel), (Option.some_get _).symm,
    (Option.some_get _).symm, by decide +kernel, by decide +kernel, by decide +kernel,
    fun h => absurd h.1 (by decide +kernel), by decide +kernel⟩

/-- The root itself stays covered when a directory is made in it. -/
theorem root_covered : ∃ w s, watchOneFile = some w ∧
    Machine.run treeStep (afterStartup w [(1, ascii "/w")]) [.mkdir 2 1 (ascii "d"), .watch 1] = some s ∧ s.Covered 1 := by
  obtain ⟨w, ⟨k, hk⟩, h⟩ := covered_iff oneFileEnv plainConfig mapDb (fun _ => 5) oneFile_sound (by decide)
    [(ascii "/w", true)] (oneFile_room rfl _) oneFile_onePath (fun _ => none)
  have hlen : (entriesOf oneFileEnv [(ascii "/w", true)]).length < 5 := by decide +kernel
  have hw : watchOneFile = some w := by
    rw [watchOneFile, loadWatcher_eq _ _ _ _ oneFile_sound (oneFile_room rfl _) 5 _ hlen, ← hk (k + 5) (by omega),
      loadWatcher_eq _ _ _ _ oneFile_sound (oneFile_room rfl _) (k + 5) _ (by omega)]
  have hget : ∀ w, watchOneFile = some w → ∃ s, Machine.run treeStep (afterStartup w [(1, ascii "/w")])
      [.mkdir 2 1 (ascii "d"), .watch 1] = some s ∧ s.pathOf 1 = some (ascii "/w") := by
    intro w hw
    have hw : w = watchOneFile.get (by decide +kernel) := Option.some.inj (hw.symm.trans (Option.some_get _).symm)
    subst hw
    exact ⟨Option.get _ (by decide +kernel), (Option.some_get _).symm, by decide +kernel⟩
  obtain ⟨s, hs, hp⟩ := hget w hw
  exact ⟨w, s, hw, hs, (h _ _ s hs 1 (ascii "/w") hp).1.2 ⟨oneFile_scanned, by decide, by simp⟩⟩

end CheckRealtime
