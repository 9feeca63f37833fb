import CheckRealtime.Pipeline
/-!
# Scan — `EntryIterator`, `File_watcher::add_dir` and the names they build

The scan at startup over a file system that stands still (`FileSys`).  `next` takes directories and files off a stack,
`addDir` puts the directories under watch and hands the files to `do_analysis`, and `loadWatcher` runs over the
configured roots.  `scanNode_eq_watchEvent_iff` says for which names the scan and `watch()` agree.
-/
namespace CheckRealtime

/-- What the scan can see of a file system: `lstat`, the names `readdir` returns from a directory that opens, what comes
of reading a file, and the descriptor `inotify_add_watch` returns. -/
structure FileSys where
  lstat    : Str → Except Errno Stat
  opendir  : Str → Option (List Str)
  reading  : Str → Reading
  addWatch : Str → Option Nat

def FileSys.observed (fs : FileSys) (name : Str) : Observed := ⟨fs.lstat name, fs.reading name⟩

/-- `is_dir`: a failing `lstat` returns -1, which is `true`. -/
def isDir (fs : FileSys) (fileName : Str) : Bool :=
  match fs.lstat fileName with
  | .error _ => true
  | .ok st   => isDirMode st.mode

def PATH_MAX : Nat := 4096

def sizeT (x : Int) : Nat := (x % 2 ^ 64).toNat

def isDot (name : Str) : Bool := name == ascii "." || name == ascii ".."

def withSlash (dir : Str) : Str := if dir.getLast? = some slash then dir else dir ++ [slash]

/-- The path of an entry, built in a buffer of `PATH_MAX + 2` bytes: `strncpy` writes all of its count, so the result is
undefined when that runs past the buffer. -/
def joinName (dir name : Str) : Option Str :=
  let sName := withSlash dir
  let count := sizeT (PATH_MAX - dir.length - 2)
  if sName.length + count ≤ PATH_MAX + 2 then some (sName ++ name.take count) else none

/-! ## `EntryIterator` -/

/-- `Entry`: type 1 is a directory. -/
structure Entry where
  type : Nat
  name : Str
deriving DecidableEq

/-- What the entries of a directory push, the last one on top. -/
def pushEntries (fs : FileSys) (recursive : Bool) (dirName : Str) : List Str → List Str → Option (List Str)
  | [], queue             => some queue
  | dName :: rest, queue =>
    if isDot dName then pushEntries fs recursive dirName rest queue
    else match joinName dirName dName with
      | none       => none
      | some fName =>
        pushEntries fs recursive dirName rest (if !isDir fs fName || recursive then fName :: queue else queue)

/-- `EntryIterator::next`, with the top of the stack first.  Excluded directories and those that do not open are passed
over; an empty name says that the stack is empty. -/
def next (fs : FileSys) (isInteresting : Str → Bool) (recursive : Bool) : List Str → Option (Entry × List Str)
  | []               => some (⟨1, []⟩, [])
  | dirName :: queue =>
    if isDir fs dirName then
      if !isInteresting dirName then next fs isInteresting recursive queue
      else match fs.opendir dirName with
        | none       => next fs isInteresting recursive queue
        | some names =>
          match pushEntries fs recursive dirName names queue with
          | none       => none
          | some queue => some (⟨1, dirName⟩, queue)
    else some (⟨0, dirName⟩, queue)

/-! ## `File_watcher` -/

/-- What a scan leaves alone: the file system, `_filter`, `_skip` and `_fd`. -/
structure ScanEnv where
  fs     : FileSys
  filter : List Str
  skip   : Bool
  fd     : Int

def excludeDir (filter : List Str) (excluded : List Str) : List Str :=
  filter ++ excluded.filter (fun it => it.length ≠ 0)

def ScanEnv.needMon (E : ScanEnv) (dir : Str) : Bool := !E.filter.contains dir

/-- `_hash`, the watches the kernel holds in the order they were added, the judge, and the number of clock readings so
far. -/
structure Watcher (σ : Type) where
  hash    : Nat → Option Str
  watches : List (Nat × Str)
  judge   : Judge σ
  ticks   : Nat

def newWatcher {σ : Type} (db : σ) : Watcher σ := ⟨fun _ => none, [], emptyJudge db, 0⟩

def scanNode (name : Str) : AnalysisNode := ⟨getBasedir name, name⟩

section

variable {σ : Type} (E : ScanEnv) (C : Config) (D : DbOps σ) (clock : Nat → Int)

/-- `add_dir(dir)`: the string of the first call for a descriptor stays. -/
def addWatch (w : Watcher σ) (dir : Str) : Watcher σ :=
  if E.fd < 0 then w
  else match E.fs.addWatch dir with
    | none    => w
    | some wd =>
      { w with
        hash    := if w.hash wd = none then Function.update w.hash wd (some dir) else w.hash
        watches := w.watches ++ [(wd, dir)] }

/-- `do_analysis` of a file, which reads the clock at its head and again when it writes a row. -/
def analyse (w : Watcher σ) (name : Str) : Watcher σ :=
  let n := scanNode name
  { w with
    judge := doAnalysis C D (clock w.ticks) (clock (w.ticks + 1)) (E.fs.observed name) w.judge n.dir n.name
    ticks := w.ticks + 2 }

/-- What the loop of `add_dir` does with an entry. -/
def onEntry (w : Watcher σ) (entry : Entry) : Watcher σ :=
  if entry.type = 1 then addWatch E w entry.name
  else if E.skip then w
  else analyse E C D clock w entry.name

/-- The loop of `add_dir(dir, recursive, ..)`. -/
def addDirLoop (recursive : Bool) : Nat → List Str → Watcher σ → Option (Watcher σ)
  | 0, _, _            => none
  | fuel + 1, queue, w =>
    match next E.fs E.needMon recursive queue with
    | none                => none
    | some (entry, queue) =>
      if entry.name.length = 0 then some w
      else addDirLoop recursive fuel queue (onEntry E C D clock w entry)

def addDir (fuel : Nat) (w : Watcher σ) (dir : Str) (recursive : Bool) : Option (Watcher σ) :=
  addDirLoop E C D clock recursive fuel [dir] w

/-- The loops of `load_watcher` over the checks and their paths. -/
def loadWatcher (fuel : Nat) : List (Str × Bool) → Watcher σ → Option (Watcher σ)
  | [], w                        => some w
  | (path, recursive) :: rest, w =>
    match addDir E C D clock fuel w path recursive with
    | none   => none
    | some w => loadWatcher fuel rest w

end

/-! ## Joining -/

def stripSlash (dir : Str) : Str := if dir.getLast? = some slash then dir.dropLast else dir

theorem withSlash_eq (dir : Str) : withSlash dir = stripSlash dir ++ [slash] := by
  unfold withSlash stripSlash
  split
  · rename_i h
    obtain ⟨front, rfl⟩ := List.getLast?_eq_some_iff.1 h
    rw [List.dropLast_concat]
  · rfl

theorem withSlash_length_le (dir : Str) : dir.length ≤ (withSlash dir).length ∧ (withSlash dir).length ≤ dir.length + 1 := by
  unfold withSlash
  split
  · omega
  · rw [List.length_append, List.length_singleton]; omega

/-- **What `joinName` computes**: the name is cut off at `PATH_MAX - |dir| - 2` bytes, and from 4095 bytes on the count
wraps around. -/
theorem joinName_eq (dir name : Str) :
    joinName dir name = if dir.length ≤ 4094 then some (withSlash dir ++ name.take (4094 - dir.length)) else none := by
  have hle := withSlash_length_le dir
  unfold joinName PATH_MAX sizeT
  by_cases hd : dir.length ≤ 4094
  · have hc : (((4096 : Nat) : Int) - dir.length - 2) % 2 ^ 64 = ((4094 - dir.length : Nat) : Int) := by omega
    rw [if_pos hd, hc, Int.toNat_natCast]
    exact if_pos (by omega)
  · rw [if_neg hd]
    refine if_neg ?_
    have hc : 4096 + 2 < dir.length + (((4096 : Nat) : Int) - dir.length - 2) % 2 ^ 64 := by omega
    omega

theorem joinName_of_fits (dir name : Str) (h : dir.length + name.length ≤ 4094) :
    joinName dir name = some (withSlash dir ++ name) := by
  rw [joinName_eq, if_pos (by omega), List.take_of_length_le (by omega)]

/-- What reading the entry `name` of `dir` should do: its count does not wrap around, and the whole path is pushed, or
nothing. -/
structure PathExact (fs : FileSys) (recursive : Bool) (dir name : Str) (queue : List Str) : Prop where
  count : isDot name = false → (sizeT (PATH_MAX - dir.length - 2) : Int) = PATH_MAX - dir.length - 2
  push  : pushEntries fs recursive dir [name] queue = some queue ∨
    pushEntries fs recursive dir [name] queue = some ((withSlash dir ++ name) :: queue)

theorem pushEntries_one (fs : FileSys) (recursive : Bool) (dir name : Str) (queue : List Str) (hdot : isDot name = false)
    (hdir : dir.length ≤ 4094) (path : Str) (hpath : withSlash dir ++ name.take (4094 - dir.length) = path) :
    pushEntries fs recursive dir [name] queue = some (if !isDir fs path || recursive then path :: queue else queue) := by
  rw [pushEntries, hdot, if_neg (by decide), joinName_eq, if_pos hdir, hpath]
  rfl

theorem pushEntries_wrapped (fs : FileSys) (recursive : Bool) (dir name : Str) (queue : List Str) (hdot : isDot name = false)
    (hdir : ¬ dir.length ≤ 4094) : pushEntries fs recursive dir [name] queue = none := by
  rw [pushEntries, hdot, if_neg (by decide), joinName_eq, if_neg hdir]

/-- The whole path is pushed, or nothing, when there is room for it or what is left of it is passed over. -/
theorem push_exact_iff (fs : FileSys) (recursive : Bool) (dir name : Str) (queue : List Str) (hdot : isDot name = false)
    (hdir : dir.length ≤ 4094) :
    (pushEntries fs recursive dir [name] queue = some queue ∨
      pushEntries fs recursive dir [name] queue = some ((withSlash dir ++ name) :: queue)) ↔
    (dir.length + name.length ≤ 4094 ∨
      (recursive = false ∧ isDir fs (withSlash dir ++ name.take (4094 - dir.length)) = true)) := by
  generalize hpath : withSlash dir ++ name.take (4094 - dir.length) = path
  have hwhole : path = withSlash dir ++ name ↔ dir.length + name.length ≤ 4094 := by
    rw [← hpath, List.append_cancel_left_eq, List.take_eq_self_iff]
    omega
  rw [pushEntries_one fs recursive dir name queue hdot hdir path hpath]
  cases hp : !isDir fs path || recursive with
  | true =>
    have hkept : ¬ (recursive = false ∧ isDir fs path = true) := by
      rintro ⟨hrec, hisdir⟩
      rw [hrec, hisdir] at hp
      cases hp
    rw [if_pos rfl, or_iff_left hkept, ← hwhole]
    constructor
    · rintro (h | h)
      · exact absurd (Option.some.inj h) (List.cons_ne_self _ _)
      · exact (List.cons.inj (Option.some.inj h)).1
    · rintro rfl
      exact Or.inr rfl
  | false =>
    simp only [Bool.or_eq_false_iff, Bool.not_eq_false'] at hp
    exact iff_of_true (Or.inl rfl) (Or.inr ⟨hp.2, hp.1⟩)

/-- **A path is built exactly when directory and name have room together**; a longer name is cut off, and that shows
unless the scan is not recursive and what is left of the path is no file.  At 4095 bytes the count wraps around. -/
theorem pathExact_iff (fs : FileSys) (recursive : Bool) (dir name : Str) (queue : List Str) :
    PathExact fs recursive dir name queue ↔
      isDot name = true ∨ (dir.length ≤ 4094 ∧ (dir.length + name.length ≤ 4094 ∨
        (recursive = false ∧ isDir fs (withSlash dir ++ name.take (4094 - dir.length)) = true))) := by
  cases hdot : isDot name with
  | true =>
    refine iff_of_true ⟨fun h => ?_, Or.inl ?_⟩ (Or.inl rfl)
    · rw [hdot] at h; cases h
    · rw [pushEntries, if_pos hdot]; rfl
  | false =>
    simp only [Bool.false_eq_true, false_or]
    by_cases hdir : dir.length ≤ 4094
    · have hcount : (sizeT (PATH_MAX - dir.length - 2) : Int) = PATH_MAX - dir.length - 2 := by
        unfold sizeT PATH_MAX
        omega
      have hpush := push_exact_iff fs recursive dir name queue hdot hdir
      exact ⟨fun h => ⟨hdir, hpush.1 h.push⟩, fun h => ⟨fun _ => hcount, hpush.2 h.2⟩⟩
    · refine iff_of_false (fun h => ?_) (fun h => hdir h.1)
      have hnone := pushEntries_wrapped fs recursive dir name queue hdot hdir
      rcases h.push with hp | hp <;>
      · rw [hnone] at hp
        cases hp

/-- `/a/a/..`, that many levels down. -/
def deepDir : Nat → Str
  | 0     => []
  | k + 1 => slash :: 97 :: deepDir k

theorem deepDir_length : ∀ k : Nat, (deepDir k).length = 2 * k
  | 0     => rfl
  | k + 1 => by
    rw [deepDir, List.length_cons, List.length_cons, deepDir_length k]
    omega

/-- In a directory of 4094 bytes nothing but the slash is pushed for an entry. -/
theorem deepDir_cut : ¬ ∀ (fs : FileSys) (recursive : Bool) (dir name : Str) (queue : List Str),
    1 ≤ dir.length → dir.length ≤ 4095 → 1 ≤ name.length → name.length ≤ 255 →
      PathExact fs recursive dir name queue := by
  intro h
  have hlen : (deepDir 2047).length = 4094 := deepDir_length 2047
  have hpush := (h ⟨fun _ => .error ENOENT, fun _ => none, fun _ => .openFails, fun _ => none⟩ true (deepDir 2047) (ascii "b")
    [] (by rw [hlen]; decide) (by rw [hlen]; decide) (by decide) (by decide)).push
  rw [pushEntries_one _ _ _ _ _ (by decide) (Nat.le_of_eq hlen) (withSlash (deepDir 2047)) (by rw [hlen]; simp)] at hpush
  simp [ascii] at hpush

/-! ## The scan and `watch()` -/

theorem append_slash_inj {d h n n' : Str} (hn : slash ∉ n) (hn' : slash ∉ n') (e : d ++ slash :: n = h ++ slash :: n') :
    d = h ∧ n = n' := by
  have hback : n.reverse ++ slash :: d.reverse = n'.reverse ++ slash :: h.reverse := by
    simpa using congrArg List.reverse e
  obtain ⟨hname, hdir⟩ := append_sep_inj (fun hc => hn (List.mem_reverse.1 hc)) (fun hc => hn' (List.mem_reverse.1 hc)) hback
  exact ⟨List.reverse_inj.1 hdir, List.reverse_inj.1 hname⟩

def scanPair (dir name : Str) : Option AnalysisNode := (joinName dir name).map scanNode

/-- **The two pairs agree exactly when the name holds no backslash, is not cut off, and the string stored for the
descriptor is the directory without its final slash.** -/
theorem scanPair_eq_iff (dir base name : Str) (hn : slash ∉ name) :
    scanPair dir name = some ⟨base, finalName base name⟩ ↔
      backslash ∉ name ∧ dir.length + name.length ≤ 4094 ∧ base = stripSlash dir := by
  have hsep : (∀ x ∈ name, isSep x = false) ↔ backslash ∉ name := by
    constructor
    · intro h hb
      exact absurd (h backslash hb) (by decide)
    · intro h x hx
      have h1 : x ≠ slash := fun e => hn (e ▸ hx)
      have h2 : x ≠ backslash := fun e => h (e ▸ hx)
      simp [isSep, h1, h2]
  unfold scanPair
  rw [joinName_eq]
  by_cases hd : dir.length ≤ 4094
  · rw [if_pos hd, Option.map_some, Option.some.injEq, scanNode, withSlash_eq, List.append_assoc, List.singleton_append,
      AnalysisNode.mk.injEq, finalName]
    constructor
    · rintro ⟨hb, hp⟩
      have hcut : slash ∉ name.take (4094 - dir.length) := fun h => hn (List.mem_of_mem_take h)
      obtain ⟨rfl, hname⟩ := append_slash_inj hcut hn hp
      rw [hname, getBasedir_append_iff _ _ _ (by decide), hsep] at hb
      have := congrArg List.length hname
      rw [List.length_take] at this
      exact ⟨hb, by omega, rfl⟩
    · rintro ⟨hb, hle, rfl⟩
      rw [List.take_of_length_le (by omega), getBasedir_append_iff _ _ _ (by decide), hsep]
      exact ⟨hb, rfl⟩
  · rw [if_neg hd]
    simp only [Option.map_none, reduceCtorEq, false_iff, not_and]
    intro _ hle
    omega

/-! ## What every scan keeps -/

section

variable {σ : Type} (E : ScanEnv) (C : Config) (D : DbOps σ) (clock : Nat → Int)

theorem addDirLoop_inv (I : Watcher σ → Prop) (hI : ∀ w entry, I w → I (onEntry E C D clock w entry)) (recursive : Bool) :
    ∀ (fuel : Nat) (queue : List Str) (w w' : Watcher σ), I w →
      addDirLoop E C D clock recursive fuel queue w = some w' → I w'
  | 0, _, _, _, _, h => by cases h
  | fuel + 1, queue, w, w', hw, h => by
    unfold addDirLoop at h
    split at h
    · cases h
    · rename_i entry queue' _
      split at h
      · cases h; exact hw
      · exact addDirLoop_inv I hI recursive fuel queue' _ w' (hI w entry hw) h

theorem loadWatcher_inv (I : Watcher σ → Prop) (hI : ∀ w entry, I w → I (onEntry E C D clock w entry)) (fuel : Nat) :
    ∀ (roots : List (Str × Bool)) (w w' : Watcher σ), I w → loadWatcher E C D clock fuel roots w = some w' → I w'
  | [], w, w', hw, h => by cases h; exact hw
  | (path, recursive) :: rest, w, w', hw, h => by
    unfold loadWatcher at h
    split at h
    · cases h
    · rename_i w₁ h₁
      exact loadWatcher_inv I hI fuel rest w₁ w' (addDirLoop_inv E C D clock I hI recursive fuel [path] w w₁ hw h₁) h

/-- The first directory put under watch on a descriptor. -/
def firstWatched (watches : List (Nat × Str)) (wd : Nat) : Option Str :=
  (watches.find? (fun x => x.1 = wd)).map Prod.snd

theorem onEntry_hash (w : Watcher σ) (entry : Entry) (h : ∀ wd, w.hash wd = firstWatched w.watches wd) :
    ∀ wd, (onEntry E C D clock w entry).hash wd = firstWatched (onEntry E C D clock w entry).watches wd := by
  intro wd
  unfold onEntry
  split
  · unfold addWatch
    split
    · exact h wd
    · split
      · exact h wd
      · rename_i wd' _
        simp only [firstWatched, List.find?_append, Option.map_or]
        have h' := h wd
        unfold firstWatched at h'
        by_cases hwd : wd = wd'
        · subst hwd
          cases hs : w.hash wd with
          | none => rw [← h', hs]; simp
          | some d => rw [← h', hs]; simp [hs]
        · have hne : ¬ wd' = wd := fun e => hwd e.symm
          have hfind : List.find? (fun x => decide (x.1 = wd)) [(wd', entry.name)] = none := by simp [hne]
          rw [hfind, ← h']
          simp only [Option.map_none, Option.or_none]
          split
          · exact Function.update_of_ne hwd _ _
          · rfl
  · split
    · exact h wd
    · exact h wd

/-- **`_hash` holds the first string of every descriptor.** -/
theorem hash_eq_firstWatched (fuel : Nat) (roots : List (Str × Bool)) (db : σ) (w : Watcher σ)
    (h : loadWatcher E C D clock fuel roots (newWatcher db) = some w) (wd : Nat) :
    w.hash wd = firstWatched w.watches wd :=
  loadWatcher_inv E C D clock (fun w => ∀ wd, w.hash wd = firstWatched w.watches wd)
    (onEntry_hash E C D clock) fuel roots _ w (fun _ => rfl) h wd

/-- **The scan and `watch()` agree on a name exactly when it holds no backslash, its path is not cut off, and the first
string put under watch on the directory's descriptor is the directory without its final slash.** -/
theorem scanPair_eq_watchEvent_iff (fuel : Nat) (roots : List (Str × Bool)) (db : σ) (w : Watcher σ)
    (h : loadWatcher E C D clock fuel roots (newWatcher db) = some w) (wd : Nat) (dir : Str)
    (hw : (wd, dir) ∈ w.watches) (name : Str) (hne : name ≠ []) (hn : slash ∉ name) :
    scanPair dir name = watchEvent w.hash ⟨wd, name⟩ ↔
      backslash ∉ name ∧ dir.length + name.length ≤ 4094 ∧ firstWatched w.watches wd = some (stripSlash dir) := by
  obtain ⟨base, hbase⟩ : ∃ base, firstWatched w.watches wd = some base := by
    unfold firstWatched
    cases hf : w.watches.find? (fun x => x.1 = wd) with
    | none => exact absurd (List.find?_eq_none.1 hf _ hw) (by simp)
    | some x => exact ⟨x.2, rfl⟩
  have hhash : w.hash wd = some base := by rw [hash_eq_firstWatched E C D clock fuel roots db w h wd, hbase]
  rw [watchEvent, if_neg hne, hhash, Option.map_some, scanPair_eq_iff dir base name hn, hbase, Option.some.injEq]

end

/-! ## A directory with one file -/

/-- `/w` is a directory with the one file `f`, also when it is written with a final slash. -/
def oneFile : FileSys where
  lstat p    :=
    if p = ascii "/w" ∨ p = ascii "/w/" then .ok ⟨0, 0o040755, 0, 0⟩
    else if p = ascii "/w/f" then .ok ⟨0, 0o100644, 0, 0⟩ else .error ENOENT
  opendir p  := if p = ascii "/w" ∨ p = ascii "/w/" then some [ascii ".", ascii "..", ascii "f"] else none
  reading _  := .digest .zero
  addWatch p := if p = ascii "/w" ∨ p = ascii "/w/" then some 1 else none

def scanOneFile (root : Str) : Option (Watcher DbMap) :=
  loadWatcher ⟨oneFile, [], false, 3⟩ plainConfig mapDb (fun _ => 5) 5 [(root, false)] (newWatcher fun _ => none)

/-- Configured with a final slash, the directory is `/w` to the scan and `/w/` to `watch()`, and its file has two keys. -/
theorem scanOneFile_slash_disagrees : ∃ w, scanOneFile (ascii "/w/") = some w ∧ (1, ascii "/w/") ∈ w.watches ∧
    w.judge.alerts = [⟨.created, ascii "/w", ascii "/w/f"⟩] ∧
    scanPair (ascii "/w/") (ascii "f") = some ⟨ascii "/w", ascii "/w/f"⟩ ∧
    watchEvent w.hash ⟨1, ascii "f"⟩ = some ⟨ascii "/w/", ascii "/w//f"⟩ :=
  ⟨(scanOneFile (ascii "/w/")).get (by decide +kernel), (Option.some_get _).symm, by decide +kernel, by decide +kernel,
    by decide +kernel, by decide +kernel⟩

theorem scanOneFile_agrees : ∃ w, scanOneFile (ascii "/w") = some w ∧
    scanPair (ascii "/w") (ascii "f") = watchEvent w.hash ⟨1, ascii "f"⟩ :=
  ⟨(scanOneFile (ascii "/w")).get (by decide +kernel), (Option.some_get _).symm,
    (scanPair_eq_watchEvent_iff _ _ _ _ _ _ _ _ (Option.some_get _).symm 1 (ascii "/w") (by decide +kernel) (ascii "f")
      (by decide) (by decide)).2 ⟨by decide, by decide, by decide +kernel⟩⟩

end CheckRealtime
