import CheckRealtime.Scan
import CheckRealtime.Walk
/-!
# ScanTree — the entries a scan goes through

Where the directories it goes through leave room for their entries, the loop of `add_dir` ends, and what it does is a fold
of `onEntry` over the entries of a depth-first walk (`loadWatcher_eq`).
-/
namespace CheckRealtime

open Relation (ReflTransGen)

/-- What Linux promises of paths and listings: an empty path names nothing, a path has at most 4095 bytes, and `readdir`
returns names of at most 255 bytes without a slash. -/
structure FileSys.Sound (fs : FileSys) : Prop where
  emptyLstat   : fs.lstat [] = .error ENOENT
  emptyOpendir : fs.opendir [] = none
  short        : ∀ path st, fs.lstat path = .ok st → path.length ≤ 4095
  names        : ∀ dir names n, fs.opendir dir = some names → n ∈ names → n ≠ [] ∧ slash ∉ n ∧ n.length ≤ 255

def childPath (dir name : Str) : Str := withSlash dir ++ name.take (4094 - dir.length)

def pushed (fs : FileSys) (recursive : Bool) (dir : Str) (names : List Str) : List Str :=
  ((names.filter (fun n => !isDot n)).map (childPath dir)).filter (fun p => !isDir fs p || recursive)

/-- What becomes of a path on the stack: the entry it gives, and what it puts on the stack, the top first. -/
def expand (fs : FileSys) (isInteresting : Str → Bool) (recursive : Bool) (path : Str) : List Entry × List Str :=
  if isDir fs path then
    if !isInteresting path then ([], [])
    else match fs.opendir path with
      | none       => ([], [])
      | some names => ([⟨1, path⟩], (pushed fs recursive path names).reverse)
  else ([⟨0, path⟩], [])

/-- Paths get longer on the way down and end at `PATH_MAX`. -/
def height (path : Str) : Nat := PATH_MAX - path.length

section

variable (fs : FileSys) (isInteresting : Str → Bool) (recursive : Bool)

theorem pushEntries_eq (dir : Str) : ∀ (rest queue : List Str), (∀ n ∈ rest, isDot n = false → dir.length ≤ 4094) →
    pushEntries fs recursive dir rest queue = some ((pushed fs recursive dir rest).reverse ++ queue)
  | [], _, _ => rfl
  | n :: rest, queue, h => by
    have hrest : ∀ m ∈ rest, isDot m = false → dir.length ≤ 4094 := fun m hm => h m (List.mem_cons_of_mem n hm)
    rw [pushEntries]
    by_cases hdot : isDot n = true
    · rw [if_pos hdot, pushEntries_eq dir rest queue hrest]
      simp [pushed, hdot]
    · have hdot : isDot n = false := by simpa using hdot
      have hjoin : joinName dir n = some (childPath dir n) := by
        rw [joinName_eq, if_pos (h n List.mem_cons_self hdot), childPath]
      rw [if_neg (by simp [hdot]), hjoin]
      simp only
      rw [pushEntries_eq dir rest _ hrest]
      cases hp : !isDir fs (childPath dir n) || recursive with
      | true => simp [pushed, hdot, hp]
      | false => simp [pushed, hdot, hp]

/-- One path of the stack: it is passed over or gives its entry, and leaves what it pushes on top. -/
theorem next_cons (path : Str) (queue : List Str)
    (hroom : isDir fs path = true → isInteresting path = true → ∀ names, fs.opendir path = some names → ∀ n ∈ names,
      isDot n = false → path.length ≤ 4094) :
    ((expand fs isInteresting recursive path = ([], []) ∧
      next fs isInteresting recursive (path :: queue) = next fs isInteresting recursive queue)) ∨
    ∃ t, (expand fs isInteresting recursive path).1 = [⟨t, path⟩] ∧ next fs isInteresting recursive (path :: queue) =
      some (⟨t, path⟩, (expand fs isInteresting recursive path).2 ++ queue) := by
  rw [next, expand]
  by_cases hdir : isDir fs path = true
  · simp only [if_pos hdir]
    by_cases hint : (!isInteresting path) = true
    · simp only [if_pos hint, true_and, true_or]
    · have hmon : isInteresting path = true := by simpa using hint
      simp only [if_neg hint]
      cases hopen : fs.opendir path with
      | none => simp only [true_and, true_or]
      | some names =>
        simp only [pushEntries_eq fs recursive path names queue (hroom hdir hmon names hopen)]
        exact Or.inr ⟨1, rfl, rfl⟩
  · simp only [if_neg hdir]
    exact Or.inr ⟨0, rfl, rfl⟩

theorem childPath_length (dir name : Str) (hdir : dir.length ≤ 4093) (hne : name ≠ []) :
    dir.length < (childPath dir name).length ∧ (childPath dir name).length ≤ 4095 := by
  have hlen := withSlash_length_le dir
  have hpos : 0 < name.length := List.length_pos_iff.2 hne
  rw [childPath, List.length_append, List.length_take]
  omega

theorem childPath_last (dir name : Str) (hdir : dir.length ≤ 4093) (hne : name ≠ []) (hsl : slash ∉ name) :
    (childPath dir name).getLast? ≠ some slash := by
  have hcut : name.take (4094 - dir.length) ≠ [] := by
    have hpos : 0 < name.length := List.length_pos_iff.2 hne
    rw [← List.length_pos_iff, List.length_take]
    omega
  rw [childPath, List.getLast?_append_of_ne_nil _ hcut]
  intro h
  exact hsl (List.mem_of_mem_take (List.mem_of_getLast? h))

theorem expand_nil (hfs : fs.Sound) : expand fs isInteresting recursive [] = ([], []) := by
  have hdir : isDir fs [] = true := by rw [isDir, hfs.emptyLstat]
  rw [expand, if_pos hdir, hfs.emptyOpendir]
  simp

def entriesFrom (path : Str) : List Entry := Walk.all (expand fs isInteresting recursive) height path

end

/-! ## Where the scan goes -/

section

variable {σ : Type} (E : ScanEnv) (C : Config) (D : DbOps σ) (clock : Nat → Int)

/-- The scan comes to the path from a root with that flag. -/
def Comes (roots : List (Str × Bool)) (recursive : Bool) (path : Str) : Prop :=
  ∃ root, (root, recursive) ∈ roots ∧ ReflTransGen (Walk.Step (expand E.fs E.needMon recursive)) root path

/-- A directory is scanned: it is reached from a root, not excluded, and opens. -/
def Scanned (roots : List (Str × Bool)) (dir : Str) : Prop :=
  ∃ r ∈ roots, ReflTransGen (Walk.Step (expand E.fs E.needMon r.2)) r.1 dir ∧ isDir E.fs dir = true ∧
    E.needMon dir = true ∧ (E.fs.opendir dir).isSome = true

/-- A scanned directory that holds entries has a path of at most 4093 bytes: past that there is no place in the buffer for
a slash and a name. -/
def HasRoom (roots : List (Str × Bool)) : Prop :=
  ∀ dir names n, Scanned E roots dir → E.fs.opendir dir = some names → n ∈ names → isDot n = false → dir.length ≤ 4093

def entriesOf (roots : List (Str × Bool)) : List Entry := roots.flatMap (fun r => entriesFrom E.fs E.needMon r.2 r.1)

/-- A root without a final slash, or `/`. -/
def Normal (dir : Str) : Prop := dir = [slash] ∨ dir.getLast? ≠ some slash

variable {roots : List (Str × Bool)}

theorem isDir_of_mem_file (path : Str) (h : (⟨0, path⟩ : Entry) ∈ entriesOf E roots) : isDir E.fs path = false := by
  obtain ⟨r, -, h⟩ := List.mem_flatMap.1 h
  obtain ⟨b, -, h⟩ := Walk.reach_of_mem_upTo _ _ _ r.1 h
  unfold expand at h
  split at h
  · split at h
    · cases h
    · split at h
      · cases h
      · simp at h
  · rename_i hb
    simp only [List.mem_singleton, Entry.mk.injEq, true_and] at h
    rw [h]
    simpa using hb

theorem type_of_mem (e : Entry) (h : e ∈ entriesOf E roots) : e = ⟨1, e.name⟩ ∨ e = ⟨0, e.name⟩ := by
  obtain ⟨r, -, h⟩ := List.mem_flatMap.1 h
  obtain ⟨b, -, h⟩ := Walk.reach_of_mem_upTo _ _ _ r.1 h
  unfold expand at h
  split at h
  · split at h
    · cases h
    · split at h
      · cases h
      · exact Or.inl (by rw [List.mem_singleton.1 h])
  · exact Or.inr (by rw [List.mem_singleton.1 h])

theorem childPath_of_lstat (hfs : E.fs.Sound) (dir n : Str) (names : List Str) (hopen : E.fs.opendir dir = some names)
    (hn : n ∈ names) (hnormal : Normal dir) (st : Stat) (hl : E.fs.lstat (withSlash dir ++ n) = .ok st) :
    childPath dir n = withSlash dir ++ n := by
  obtain ⟨-, -, hmax⟩ := hfs.names dir names n hopen hn
  have hfit : dir.length + n.length ≤ 4094 := by
    rcases hnormal with rfl | hlast
    · simp only [List.length_singleton]; omega
    · have hshort := hfs.short _ st hl
      rw [withSlash, if_neg hlast, List.length_append, List.length_append, List.length_singleton] at hshort
      omega
  rw [childPath, List.take_of_length_le (by omega)]

theorem Comes.scanned {recursive : Bool} {dir : Str} (h : Comes E roots recursive dir) (hdir : isDir E.fs dir = true)
    (hmon : E.needMon dir = true) {names : List Str} (hopen : E.fs.opendir dir = some names) : Scanned E roots dir := by
  obtain ⟨root, hr, hreach⟩ := h
  exact ⟨(root, recursive), hr, hreach, hdir, hmon, by rw [hopen]; rfl⟩

variable (hfs : E.fs.Sound) (hroom : HasRoom E roots)

include hfs hroom

theorem step_expand {recursive : Bool} {a b : Str} (ha : Comes E roots recursive a)
    (h : Walk.Step (expand E.fs E.needMon recursive) a b) :
    ∃ n, a.length ≤ 4093 ∧ n ≠ [] ∧ slash ∉ n ∧ b = childPath a n := by
  unfold Walk.Step expand at h
  split at h
  · rename_i hdir
    split at h
    · cases h
    · rename_i hmon
      cases hopen : E.fs.opendir a with
      | none => rw [hopen] at h; cases h
      | some names =>
        rw [hopen] at h
        simp only [pushed, List.mem_reverse, List.mem_filter, List.mem_map, Bool.not_eq_true'] at h
        obtain ⟨⟨n, ⟨hn, hdot⟩, rfl⟩, -⟩ := h
        obtain ⟨hne, hsl, -⟩ := hfs.names a names n hopen hn
        exact ⟨n, hroom a names n (ha.scanned E hdir (by simpa using hmon) hopen) hopen hn hdot, hne, hsl, rfl⟩
  · cases h

/-- A step of the walk stays where the scan comes, and goes down. -/
theorem step_comes (recursive : Bool) (a b : Str) (ha : Comes E roots recursive a)
    (h : Walk.Step (expand E.fs E.needMon recursive) a b) : Comes E roots recursive b ∧ height b < height a := by
  obtain ⟨n, hlen, hne, -, rfl⟩ := step_expand E hfs hroom ha h
  obtain ⟨root, hr, hreach⟩ := ha
  have hchild := childPath_length a n hlen hne
  refine ⟨⟨root, hr, hreach.tail h⟩, ?_⟩
  unfold height PATH_MAX
  omega

theorem entriesFrom_eq (recursive : Bool) (path : Str) (hp : Comes E roots recursive path) :
    entriesFrom E.fs E.needMon recursive path = (expand E.fs E.needMon recursive path).1 ++
      (expand E.fs E.needMon recursive path).2.flatMap (entriesFrom E.fs E.needMon recursive) :=
  Walk.all_eq_on _ height (Comes E roots recursive) (step_comes E hfs hroom recursive) path hp

theorem mem_entriesFrom (e : Entry) (r : Str × Bool) (hr : r ∈ roots) : e ∈ entriesFrom E.fs E.needMon r.2 r.1 ↔
    ∃ b, ReflTransGen (Walk.Step (expand E.fs E.needMon r.2)) r.1 b ∧ e ∈ (expand E.fs E.needMon r.2 b).1 :=
  Walk.mem_all_on _ height (Comes E roots r.2) (step_comes E hfs hroom r.2) e r.1 ⟨r.1, hr, .refl⟩

/-- **`next` takes the first entry of the walk from the stack.** -/
theorem next_eq (recursive : Bool) : ∀ queue : List Str, (∀ p ∈ queue, Comes E roots recursive p) →
    (queue.flatMap (entriesFrom E.fs E.needMon recursive) = [] ∧
      next E.fs E.needMon recursive queue = some (⟨1, []⟩, [])) ∨
    ∃ e queue', next E.fs E.needMon recursive queue = some (e, queue') ∧ e.name ≠ [] ∧
      (∀ p ∈ queue', Comes E roots recursive p) ∧
      queue.flatMap (entriesFrom E.fs E.needMon recursive) =
        e :: queue'.flatMap (entriesFrom E.fs E.needMon recursive)
  | [], _ => Or.inl ⟨rfl, rfl⟩
  | path :: queue, hq => by
    have hp := hq path List.mem_cons_self
    have hrest : ∀ p ∈ queue, Comes E roots recursive p := fun p hm => hq p (List.mem_cons_of_mem path hm)
    rw [List.flatMap_cons, entriesFrom_eq E hfs hroom recursive path hp]
    have hlen : isDir E.fs path = true → E.needMon path = true → ∀ names, E.fs.opendir path = some names → ∀ n ∈ names,
        isDot n = false → path.length ≤ 4094 := fun hdir hmon names hopen n hn hdot =>
      Nat.le_succ_of_le (hroom path names n (hp.scanned E hdir hmon hopen) hopen hn hdot)
    rcases next_cons E.fs E.needMon recursive path queue hlen with ⟨hexp, hnext⟩ | ⟨t, hexp, hnext⟩
    · rw [hnext, hexp]
      exact next_eq recursive queue hrest
    · have hne : path ≠ [] := by
        rintro rfl
        rw [expand_nil E.fs E.needMon recursive hfs] at hexp
        cases hexp
      have hcomes : ∀ p ∈ (expand E.fs E.needMon recursive path).2 ++ queue, Comes E roots recursive p := fun p hm =>
        (List.mem_append.1 hm).elim (fun hm => (step_comes E hfs hroom recursive path p hp hm).1) (hrest p)
      rw [hnext, hexp]
      exact Or.inr ⟨_, _, rfl, hne, hcomes, by simp⟩

/-- **The loop of `add_dir` is a fold over the entries of the walk.** -/
theorem addDirLoop_eq (recursive : Bool) : ∀ (fuel : Nat) (queue : List Str) (w : Watcher σ),
    (∀ p ∈ queue, Comes E roots recursive p) → (queue.flatMap (entriesFrom E.fs E.needMon recursive)).length < fuel →
      addDirLoop E C D clock recursive fuel queue w =
        some ((queue.flatMap (entriesFrom E.fs E.needMon recursive)).foldl (onEntry E C D clock) w)
  | 0, _, _, _, h => absurd h (Nat.not_lt_zero _)
  | fuel + 1, queue, w, hq, h => by
    rw [addDirLoop]
    rcases next_eq E hfs hroom recursive queue hq with ⟨hnil, hnext⟩ | ⟨e, queue', hnext, hne, hq', hcons⟩
    · rw [hnext, hnil]; rfl
    · have hlen : ¬ e.name.length = 0 := fun h0 => hne (List.length_eq_zero_iff.1 h0)
      rw [hcons, List.length_cons] at h
      rw [hnext, hcons, List.foldl_cons]
      simp only [if_neg hlen]
      exact addDirLoop_eq recursive fuel queue' _ hq' (by omega)

theorem loadWatcher_rest (fuel : Nat) : ∀ (rest : List (Str × Bool)) (w : Watcher σ), (∀ r ∈ rest, r ∈ roots) →
    (entriesOf E rest).length < fuel →
      loadWatcher E C D clock fuel rest w = some ((entriesOf E rest).foldl (onEntry E C D clock) w)
  | [], _, _, _ => rfl
  | (path, recursive) :: rest, w, hsub, h => by
    have hcons : entriesOf E ((path, recursive) :: rest) = entriesFrom E.fs E.needMon recursive path ++ entriesOf E rest := by
      rw [entriesOf, List.flatMap_cons]; rfl
    rw [hcons, List.length_append] at h
    have hone : [path].flatMap (entriesFrom E.fs E.needMon recursive) = entriesFrom E.fs E.needMon recursive path :=
      List.flatMap_singleton ..
    have hq : ∀ p ∈ [path], Comes E roots recursive p := fun p hp => by
      rw [List.mem_singleton.1 hp]
      exact ⟨path, hsub _ List.mem_cons_self, .refl⟩
    rw [loadWatcher, addDir, addDirLoop_eq E C D clock hfs hroom recursive fuel [path] w hq (by rw [hone]; omega), hone,
      hcons, List.foldl_append]
    exact loadWatcher_rest fuel rest _ (fun r hr => hsub r (List.mem_cons_of_mem _ hr)) (by omega)

/-- **`load_watcher` ends, and does what `onEntry` does to each entry in turn.** -/
theorem loadWatcher_eq (fuel : Nat) (w : Watcher σ) (h : (entriesOf E roots).length < fuel) :
    loadWatcher E C D clock fuel roots w = some ((entriesOf E roots).foldl (onEntry E C D clock) w) :=
  loadWatcher_rest E C D clock hfs hroom fuel roots w (fun _ hr => hr) h

/-! ## Which entries -/

theorem mem_dir_iff (dir : Str) : (⟨1, dir⟩ : Entry) ∈ entriesOf E roots ↔ Scanned E roots dir := by
  rw [entriesOf, List.mem_flatMap]
  constructor
  · rintro ⟨r, hr, h⟩
    obtain ⟨b, hb, h⟩ := (mem_entriesFrom E hfs hroom _ r hr).1 h
    unfold expand at h
    split at h
    · rename_i hdir
      split at h
      · cases h
      · rename_i hmon
        cases hopen : E.fs.opendir b with
        | none => rw [hopen] at h; cases h
        | some names =>
          rw [hopen] at h
          simp only [List.mem_singleton, Entry.mk.injEq, true_and] at h
          subst h
          exact ⟨r, hr, hb, hdir, by simpa using hmon, by rw [hopen]; rfl⟩
    · simp at h
  · rintro ⟨r, hr, hreach, hdir, hmon, hopen⟩
    obtain ⟨names, hopen⟩ := Option.isSome_iff_exists.1 hopen
    refine ⟨r, hr, (mem_entriesFrom E hfs hroom _ r hr).2 ⟨dir, hreach, ?_⟩⟩
    simp [expand, hdir, hmon, hopen]

theorem normal_of_reach (r : Str × Bool) (hr : r ∈ roots) (hroot : Normal r.1) (dir : Str)
    (h : ReflTransGen (Walk.Step (expand E.fs E.needMon r.2)) r.1 dir) : Normal dir := by
  induction h with
  | refl => exact hroot
  | tail hreach hstep _ =>
    obtain ⟨n, hlen, hne, hsl, rfl⟩ := step_expand E hfs hroom ⟨r.1, hr, hreach⟩ hstep
    exact Or.inr (childPath_last _ n hlen hne hsl)

/-- **Every non-directory that a scanned directory lists is an entry.** -/
theorem mem_file_of_scanned (hroots : ∀ r ∈ roots, Normal r.1) (dir n : Str) (hs : Scanned E roots dir) (names : List Str)
    (hopen : E.fs.opendir dir = some names) (hn : n ∈ names) (hdot : isDot n = false)
    (hfile : isDir E.fs (withSlash dir ++ n) = false) : (⟨0, withSlash dir ++ n⟩ : Entry) ∈ entriesOf E roots := by
  obtain ⟨r, hr, hreach, hdir, hmon, -⟩ := hs
  have hlstat : ∃ st, E.fs.lstat (withSlash dir ++ n) = .ok st := by
    cases hl : E.fs.lstat (withSlash dir ++ n) with
    | error e => rw [isDir, hl] at hfile; cases hfile
    | ok st => exact ⟨st, rfl⟩
  obtain ⟨st, hlstat⟩ := hlstat
  have hnormal := normal_of_reach E hfs hroom r hr (hroots r hr) dir hreach
  have hchild := childPath_of_lstat E hfs dir n names hopen hn hnormal st hlstat
  have hstep : Walk.Step (expand E.fs E.needMon r.2) dir (withSlash dir ++ n) := by
    simp only [Walk.Step, expand, hdir, hmon, hopen, if_true, Bool.not_true, Bool.false_eq_true, if_false, pushed,
      List.mem_reverse, List.mem_filter, List.mem_map]
    exact ⟨⟨n, ⟨hn, by simp [hdot]⟩, hchild⟩, by simp [hfile]⟩
  rw [entriesOf, List.mem_flatMap]
  refine ⟨r, hr, (mem_entriesFrom E hfs hroom _ r hr).2 ⟨_, hreach.tail hstep, ?_⟩⟩
  simp [expand, hfile]

end

end CheckRealtime
