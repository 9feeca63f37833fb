import CheckRealtime.Scan
/-!
# ScanRace — the scan while other processes create files

`next` and `add_dir` one system call at a time (`scanStep`), with files created and removed by others between any two of
them.  A directory is an inode (`Disk`): what a path leads to and which directories there are stays, the files in them
change.  `readdir` returns every name that is there from `opendir` to the end of the listing; one that comes meanwhile it
may return or not.

`created_found` says which files a scan cannot miss.
-/
namespace CheckRealtime

/-- The directories of a file system, by inode, and where paths lead. -/
structure Disk where
  dirAt       : Str → Option Nat
  fileAt      : Str → Option (Nat × Str)
  subdirs     : Nat → List Str
  opens       : Nat → Bool
  canWatch    : Nat → Bool
  fileAt_join : ∀ dir n i, dirAt dir = some i → n ≠ [] → slash ∉ n → fileAt (withSlash dir ++ n) = some (i, n)
  dirAt_join  : ∀ dir n i, dirAt dir = some i → n ≠ [] → slash ∉ n → n ∉ subdirs i → dirAt (withSlash dir ++ n) = none

/-- The disk as system calls show it when it holds these files. -/
def Disk.view (d : Disk) (files : Nat → List Str) : FileSys where
  lstat p    :=
    if (d.dirAt p).isSome then .ok ⟨0, 0o040755, 0, 0⟩
    else if (d.fileAt p).any (fun x => (files x.1).contains x.2) then .ok ⟨0, 0o100644, 0, 0⟩
    else .error ENOENT
  opendir p  := (d.dirAt p).bind (fun i => if d.opens i then some (d.subdirs i ++ files i) else none)
  reading _  := .digest .zero
  addWatch p := (d.dirAt p).bind (fun i => if d.canWatch i then some i else none)

theorem Disk.isDir_file (d : Disk) (files : Nat → List Str) (dir n : Str) (i : Nat) (hdir : d.dirAt dir = some i)
    (hne : n ≠ []) (hsl : slash ∉ n) (hsub : n ∉ d.subdirs i) (hn : n ∈ files i) :
    isDir (d.view files) (withSlash dir ++ n) = false := by
  have hnodir := d.dirAt_join dir n i hdir hne hsl hsub
  have hfile := d.fileAt_join dir n i hdir hne hsl
  have hlstat : (d.view files).lstat (withSlash dir ++ n) = .ok ⟨0, 0o100644, 0, 0⟩ := by
    simp [Disk.view, hnodir, hfile, hn]
  rw [isDir, hlstat]
  decide

/-- Where the scan stands: between two calls of `next` and at its head; about to open a directory; between two `readdir`,
with the names that are owed; with a name in hand; about to add the watch; with a file for `do_analysis`. -/
inductive ScanPc where
  | idle
  | opening (dir : Str)
  | listing (dir : Str) (owed : List Str)
  | entry (dir : Str) (owed : List Str) (name : Str)
  | watching (dir : Str)
  | analysing (path : Str)
  | done
deriving DecidableEq

structure ScanSt where
  files    : Nat → List Str
  queue    : List Str
  pc       : ScanPc
  opened   : List Nat
  watched  : List Nat
  events   : List InotifyEvent
  analysed : List Str

inductive ScanLabel where
  -- another process creates a file
  | create (dir : Nat) (name : Str)
  -- another process removes a file
  | remove (dir : Nat) (name : Str)
  -- `next` takes the top of the stack and calls `is_dir` on it
  | pop
  | opendir
  | readdir (name : Str)
  -- the path of the entry is built, looked at with `is_dir` and pushed
  | push
  | closedir
  -- `inotify_add_watch`
  | addWatch
  -- the file is handed to `do_analysis`
  | analyse
deriving DecidableEq

/-- A name that is removed is no longer owed. -/
def ScanPc.forget (d : Disk) (i : Nat) (n : Str) : ScanPc → ScanPc
  | .listing dir owed => if d.dirAt dir = some i then .listing dir (owed.filter (· ≠ n)) else .listing dir owed
  | .entry dir owed m => if d.dirAt dir = some i then .entry dir (owed.filter (· ≠ n)) m else .entry dir owed m
  | pc                => pc

def ScanSt.notify (s : ScanSt) (i : Nat) (n : Str) : List InotifyEvent :=
  if i ∈ s.watched then s.events ++ [⟨i, n⟩] else s.events

section

variable (d : Disk) (isInteresting : Str → Bool) (recursive : Bool)

def scanStep (s : ScanSt) : ScanLabel → Option ScanSt
  | .create i n =>
    if n ∉ s.files i ∧ n ∉ d.subdirs i ∧ n ≠ [] ∧ slash ∉ n ∧ isDot n = false then
      some { s with files := Function.update s.files i (n :: s.files i), events := s.notify i n }
    else none
  | .remove i n =>
    if n ∈ s.files i then
      some { s with files  := Function.update s.files i ((s.files i).filter (· ≠ n))
                    events := s.notify i n
                    pc     := s.pc.forget d i n }
    else none
  | .pop =>
    match s.pc, s.queue with
    | .idle, []        => some { s with pc := .done }
    | .idle, p :: rest =>
      if isDir (d.view s.files) p then
        if !isInteresting p then some { s with queue := rest } else some { s with queue := rest, pc := .opening p }
      else some { s with queue := rest, pc := .analysing p }
    | _, _             => none
  | .opendir =>
    match s.pc with
    | .opening dir =>
      match (d.view s.files).opendir dir with
      | none       => some { s with pc := .idle }
      | some names => some { s with pc := .listing dir names, opened := (d.dirAt dir).toList ++ s.opened }
    | _            => none
  | .readdir n =>
    match s.pc with
    | .listing dir owed =>
      if isDot n then some { s with pc := .listing dir (owed.filter (· ≠ n)) }
      else if n ∈ owed ∨ (d.dirAt dir).any (fun i => (s.files i).contains n) then
        some { s with pc := .entry dir (owed.filter (· ≠ n)) n }
      else none
    | _                 => none
  | .push =>
    match s.pc with
    | .entry dir owed n =>
      -- from 4095 bytes on the join is undefined
      match joinName dir n with
      | none       => none
      | some fName =>
        some { s with pc    := .listing dir owed
                      queue := if !isDir (d.view s.files) fName || recursive then fName :: s.queue else s.queue }
    | _                 => none
  | .closedir =>
    match s.pc with
    | .listing dir [] => some { s with pc := .watching dir }
    | _               => none
  | .addWatch =>
    match s.pc with
    | .watching dir =>
      match (d.view s.files).addWatch dir with
      | none    => some { s with pc := .idle }
      | some wd => some { s with pc := .idle, watched := wd :: s.watched }
    | _             => none
  | .analyse =>
    match s.pc with
    | .analysing path => some { s with pc := .idle, analysed := s.analysed ++ [path] }
    | _               => none

def scanStart (files : Nat → List Str) (root : Str) : ScanSt := ⟨files, [root], .idle, [], [], [], []⟩

/-! ## Left alone, the machine does what `next` does -/

def readLabels (names : List Str) : List ScanLabel :=
  names.flatMap (fun n => if isDot n then [.readdir n] else [.readdir n, .push])

theorem run_pushEntries (dir : Str) : ∀ (rest : List Str) (s : ScanSt) (queue' : List Str), rest.Nodup →
    s.pc = .listing dir rest → pushEntries (d.view s.files) recursive dir rest s.queue = some queue' →
      Machine.run (scanStep d isInteresting recursive) s (readLabels rest) =
        some { s with queue := queue', pc := .listing dir [] }
  | [], s, queue', _, hpc, h => by
    cases h
    rw [readLabels, List.flatMap_nil, Machine.run_nil, ← hpc]
  | n :: rest, s, queue', hnd, hpc, h => by
    obtain ⟨hn, hnd⟩ := List.nodup_cons.1 hnd
    have howed : (n :: rest).filter (fun x => decide (x ≠ n)) = rest := by
      rw [List.filter_cons_of_neg (by simp)]
      refine List.filter_eq_self.2 (fun m hm => ?_)
      have hne : m ≠ n := fun e => hn (e ▸ hm)
      simp [hne]
    rw [pushEntries] at h
    by_cases hdot : isDot n = true
    · rw [if_pos hdot] at h
      have hstep : scanStep d isInteresting recursive s (.readdir n) = some { s with pc := .listing dir rest } := by
        simp only [scanStep, hpc, if_pos hdot, howed]
      rw [readLabels, List.flatMap_cons, if_pos hdot, List.singleton_append, Machine.run_cons, hstep, Option.bind_some]
      exact run_pushEntries dir rest _ queue' hnd rfl h
    · rw [if_neg hdot] at h
      cases hjoin : joinName dir n with
      | none => rw [hjoin] at h; cases h
      | some fName =>
        rw [hjoin] at h
        have hread : scanStep d isInteresting recursive s (.readdir n) = some { s with pc := .entry dir rest n } := by
          simp only [scanStep, hpc, if_neg hdot, howed]
          exact if_pos (Or.inl List.mem_cons_self)
        have hpush : scanStep d isInteresting recursive { s with pc := .entry dir rest n } .push =
            some { s with pc    := .listing dir rest
                          queue := if !isDir (d.view s.files) fName || recursive then fName :: s.queue else s.queue } := by
          simp only [scanStep, hjoin]
        rw [readLabels, List.flatMap_cons, if_neg hdot, List.cons_append, List.cons_append, List.nil_append,
          Machine.run_cons, hread, Option.bind_some, Machine.run_cons, hpush, Option.bind_some]
        exact run_pushEntries dir rest _ queue' hnd rfl h

/-- Where the machine stands when `next` has returned an entry. -/
def pcAfter (entry : Entry) : ScanPc :=
  if entry.name = [] then .done else if entry.type = 1 then .watching entry.name else .analysing entry.name

/-- A directory that is taken from the stack, opened, read to the end and closed. -/
theorem run_directory (s : ScanSt) (p : Str) (rest names queue' : List Str) (hq : s.queue = p :: rest) (hpc : s.pc = .idle)
    (hp : p ≠ []) (hdir : isDir (d.view s.files) p = true) (hint : ¬ (!isInteresting p) = true)
    (hopen : (d.view s.files).opendir p = some names) (hnd : names.Nodup)
    (hpush : pushEntries (d.view s.files) recursive p names rest = some queue') :
    Machine.run (scanStep d isInteresting recursive) s (.pop :: .opendir :: (readLabels names ++ [.closedir])) =
      some { s with queue := queue', pc := pcAfter ⟨1, p⟩, opened := (d.dirAt p).toList ++ s.opened } := by
  have hpop : scanStep d isInteresting recursive s .pop = some { s with queue := rest, pc := .opening p } := by
    simp only [scanStep, hpc, hq, if_pos hdir, if_neg hint]
  have hstep : scanStep d isInteresting recursive { s with queue := rest, pc := .opening p } .opendir =
      some { s with queue := rest, pc := .listing p names, opened := (d.dirAt p).toList ++ s.opened } := by
    simp only [scanStep, hopen]
  have hread := run_pushEntries d isInteresting recursive p names
    { s with queue := rest, pc := .listing p names, opened := (d.dirAt p).toList ++ s.opened } queue' hnd rfl hpush
  rw [Machine.run_cons, hpop, Option.bind_some, Machine.run_cons, hstep, Option.bind_some, Machine.run_append, hread,
    Option.bind_some]
  simp [Machine.run, scanStep, pcAfter, hp]

/-- **One call of `next` is a run of the machine**, when no path is empty and no directory lists a name twice. -/
theorem run_next : ∀ (s : ScanSt) (entry : Entry) (queue' : List Str), s.pc = .idle → (∀ p ∈ s.queue, p ≠ []) →
    (∀ i, (d.subdirs i ++ s.files i).Nodup) →
      next (d.view s.files) isInteresting recursive s.queue = some (entry, queue') →
        ∃ ls opened, Machine.run (scanStep d isInteresting recursive) s ls =
          some { s with queue := queue', pc := pcAfter entry, opened := opened } := by
  intro s
  induction hq : s.queue generalizing s with
  | nil =>
    intro entry queue' hpc _ _ h
    cases h
    refine ⟨[.pop], s.opened, ?_⟩
    simp [Machine.run, scanStep, hpc, hq, pcAfter]
  | cons p rest ih =>
    intro entry queue' hpc hne hnd h
    have hp : p ≠ [] := hne p List.mem_cons_self
    rw [next] at h
    by_cases hdir : isDir (d.view s.files) p = true
    · rw [if_pos hdir] at h
      by_cases hint : (!isInteresting p) = true
      · -- excluded: passed over
        rw [if_pos hint] at h
        obtain ⟨ls, opened, hrun⟩ := ih { s with queue := rest } rfl entry queue' hpc
          (fun q hq => hne q (List.mem_cons_of_mem p hq)) hnd h
        refine ⟨.pop :: ls, opened, ?_⟩
        have hstep : scanStep d isInteresting recursive s .pop = some { s with queue := rest } := by
          simp only [scanStep, hpc, hq, if_pos hdir, if_pos hint]
        rw [Machine.run_cons, hstep, Option.bind_some, hrun]
      · rw [if_neg hint] at h
        have hpop : scanStep d isInteresting recursive s .pop = some { s with queue := rest, pc := .opening p } := by
          simp only [scanStep, hpc, hq, if_pos hdir, if_neg hint]
        cases hopen : (d.view s.files).opendir p with
        | none =>
          rw [hopen] at h
          obtain ⟨ls, opened, hrun⟩ := ih { s with queue := rest } rfl entry queue' hpc
            (fun q hq => hne q (List.mem_cons_of_mem p hq)) hnd h
          refine ⟨.pop :: .opendir :: ls, opened, ?_⟩
          have hstep : scanStep d isInteresting recursive { s with queue := rest, pc := .opening p } .opendir =
              some { s with queue := rest } := by
            simp only [scanStep, hopen, hpc]
          rw [Machine.run_cons, hpop, Option.bind_some, Machine.run_cons, hstep, Option.bind_some, hrun]
        | some names =>
          rw [hopen] at h
          simp only at h
          cases hpush : pushEntries (d.view s.files) recursive p names rest with
          | none => rw [hpush] at h; cases h
          | some queue₁ =>
            rw [hpush] at h
            cases h
            have hnames : names.Nodup := by
              obtain ⟨i, -, hi⟩ := Option.bind_eq_some_iff.1 hopen
              split at hi
              · rw [← Option.some.inj hi]; exact hnd i
              · cases hi
            exact ⟨_, _, run_directory d isInteresting recursive s p rest names queue' hq hpc hp hdir hint hopen hnames hpush⟩
    · rw [if_neg hdir] at h
      cases h
      refine ⟨[.pop], s.opened, ?_⟩
      have hstep : scanStep d isInteresting recursive s .pop = some { s with queue := rest, pc := .analysing p } := by
        simp only [scanStep, hpc, hq, if_neg hdir]
      rw [Machine.run_cons, hstep, Option.bind_some, Machine.run_nil]
      simp [pcAfter, hp]

/-! ## What a scan cannot miss -/

/-- A path the scan has in hand, or has dealt with. -/
def ScanSt.Seen (s : ScanSt) (path : Str) : Prop := path ∈ s.queue ∨ s.pc = .analysing path ∨ path ∈ s.analysed

/-- The listing under way still has to return the name. -/
def ScanPc.Owes (i : Nat) (n : Str) : ScanPc → Prop
  | .listing dir owed => d.dirAt dir = some i ∧ n ∈ owed
  | .entry dir owed m => d.dirAt dir = some i ∧ (n = m ∨ n ∈ owed)
  | _                 => False

def ScanPc.lists : ScanPc → Option Nat
  | .listing dir _ => d.dirAt dir
  | .entry dir _ _ => d.dirAt dir
  | _              => none

theorem lists_of_owes (pc : ScanPc) (i : Nat) (n : Str) (h : pc.Owes d i n) : pc.lists d = some i := by
  cases pc with
  | listing dir owed => exact h.1
  | entry dir owed m => exact h.1
  | _ => exact h.elim

/-- A file created by another process that is still there, and the state it was created in. -/
def CreatedAt (s₀ : ScanSt) (ls : List ScanLabel) (i : Nat) (n : Str) (t : ScanSt) : Prop :=
  ∃ pre post, ls = pre ++ .create i n :: post ∧ .remove i n ∉ post ∧
    Machine.run (scanStep d isInteresting recursive) s₀ pre = some t

/-- **No file is created in a directory between its `opendir` and its watch, and no name is cut off.** -/
def noGap (s : ScanSt) : ScanLabel → Bool
  | .create i _ => decide (i ∈ s.opened → i ∈ s.watched)
  | .push       =>
    match s.pc with
    | .entry dir _ n => decide (dir.length + n.length ≤ 4094)
    | _              => true
  | _           => true

/-- A file is there, and once its directory has been opened it is owed or seen. -/
structure Coming (s : ScanSt) (i : Nat) (n : Str) : Prop where
  there : n ∈ s.files i
  ne    : n ≠ []
  noSl  : slash ∉ n
  noDot : isDot n = false
  noSub : n ∉ d.subdirs i
  found : i ∈ s.opened → s.pc.Owes d i n ∨ ∃ dir, d.dirAt dir = some i ∧ s.Seen (withSlash dir ++ n)

theorem createdAt_snoc (s₀ s t : ScanSt) (ls : List ScanLabel) (l : ScanLabel) (i : Nat) (n : Str)
    (hs : Machine.run (scanStep d isInteresting recursive) s₀ ls = some s)
    (h : CreatedAt d isInteresting recursive s₀ (ls ++ [l]) i n t) :
    (CreatedAt d isInteresting recursive s₀ ls i n t ∧ l ≠ .remove i n) ∨ (l = .create i n ∧ t = s) := by
  obtain ⟨pre, post, heq, hno, hrun⟩ := h
  rcases List.eq_nil_or_concat post with rfl | ⟨post, l', rfl⟩
  · obtain ⟨rfl, hl⟩ := List.append_inj' heq rfl
    cases hl
    exact Or.inr ⟨rfl, Option.some.inj (hrun.symm.trans hs)⟩
  · rw [List.concat_eq_append] at heq hno
    have heq' : ls ++ [l] = (pre ++ .create i n :: post) ++ [l'] := by rw [heq]; simp
    obtain ⟨rfl, hl⟩ := List.append_inj' heq' rfl
    cases hl
    refine Or.inl ⟨⟨pre, post, rfl, fun h => hno (by simp [h]), hrun⟩, ?_⟩
    rintro rfl
    exact hno (by simp)

theorem mem_notify (s : ScanSt) (e : InotifyEvent) (i : Nat) (n : Str) (h : e ∈ s.events) : e ∈ s.notify i n := by
  unfold ScanSt.notify
  split
  · simp [h]
  · exact h

theorem events_step (s s' : ScanSt) (l : ScanLabel) (e : InotifyEvent) (he : e ∈ s.events)
    (h : scanStep d isInteresting recursive s l = some s') : e ∈ s'.events := by
  cases l <;> simp only [scanStep] at h
  case create i n =>
    split at h
    · cases h; exact mem_notify s e i n he
    · cases h
  case remove i n =>
    split at h
    · cases h; exact mem_notify s e i n he
    · cases h
  all_goals (repeat' split at h) <;> first | (cases h; exact he) | cases h

theorem Coming.of_found {s s' : ScanSt} {i : Nat} {n : Str} (h : Coming d s i n) (hfiles : s'.files = s.files)
    (hfound : i ∈ s'.opened → s'.pc.Owes d i n ∨ ∃ dir, d.dirAt dir = some i ∧ s'.Seen (withSlash dir ++ n)) :
    Coming d s' i n :=
  ⟨by rw [hfiles]; exact h.there, h.ne, h.noSl, h.noDot, h.noSub, hfound⟩

theorem coming_create (s : ScanSt) (i j : Nat) (n m : Str) (h : Coming d s i n) (files : Nat → List Str)
    (hfiles : files = Function.update s.files j (m :: s.files j)) (events : List InotifyEvent) :
    Coming d { s with files := files, events := events } i n := by
  refine ⟨?_, h.ne, h.noSl, h.noDot, h.noSub, h.found⟩
  simp only [hfiles]
  by_cases hij : i = j
  · subst hij; simp [h.there]
  · rw [Function.update_of_ne hij]; exact h.there

theorem owes_forget (pc : ScanPc) (i j : Nat) (n m : Str) (hne : ¬ (j = i ∧ m = n)) (h : pc.Owes d i n) :
    (pc.forget d j m).Owes d i n := by
  have hkeep : ∀ dir owed, d.dirAt dir = some i → n ∈ owed → d.dirAt dir = some j →
      n ∈ List.filter (fun x => decide (x ≠ m)) owed := fun dir owed hdir hn hj => by
    have hji : j = i := Option.some.inj (hj.symm.trans hdir)
    have hnm : n ≠ m := fun e => hne ⟨hji, e.symm⟩
    simp [hn, hnm]
  cases pc with
  | listing dir owed =>
    obtain ⟨hdir, hn⟩ := h
    by_cases hj : d.dirAt dir = some j
    · rw [ScanPc.forget, if_pos hj]
      exact ⟨hdir, hkeep dir owed hdir hn hj⟩
    · rw [ScanPc.forget, if_neg hj]
      exact ⟨hdir, hn⟩
  | entry dir owed k =>
    obtain ⟨hdir, hn⟩ := h
    by_cases hj : d.dirAt dir = some j
    · rw [ScanPc.forget, if_pos hj]
      exact ⟨hdir, hn.imp id (fun hn => hkeep dir owed hdir hn hj)⟩
    · rw [ScanPc.forget, if_neg hj]
      exact ⟨hdir, hn⟩
  | _ => exact h.elim

theorem seen_forget (s : ScanSt) (j : Nat) (m path : Str) (files : Nat → List Str) (events : List InotifyEvent)
    (h : s.Seen path) : ScanSt.Seen { s with files := files, events := events, pc := s.pc.forget d j m } path := by
  rcases h with h | h | h
  · exact Or.inl h
  · exact Or.inr (Or.inl (by simp only [h, ScanPc.forget]))
  · exact Or.inr (Or.inr h)

theorem coming_remove (s : ScanSt) (i j : Nat) (n m : Str) (h : Coming d s i n) (hne : ¬ (j = i ∧ m = n))
    (events : List InotifyEvent) :
    Coming d { s with files := Function.update s.files j ((s.files j).filter (· ≠ m))
                      events := events, pc := s.pc.forget d j m } i n := by
  refine ⟨?_, h.ne, h.noSl, h.noDot, h.noSub, fun ho => ?_⟩
  · by_cases hij : i = j
    · subst hij
      have hnm : n ≠ m := fun e => hne ⟨rfl, e.symm⟩
      simp [h.there, hnm]
    · simp only [Function.update_of_ne hij]; exact h.there
  · rcases h.found ho with hown | ⟨dir, hdir, hseen⟩
    · exact Or.inl (owes_forget d s.pc i j n m hne hown)
    · exact Or.inr ⟨dir, hdir, seen_forget d s j m _ _ _ hseen⟩

theorem coming_pop (s s' : ScanSt) (i : Nat) (n : Str) (h : Coming d s i n)
    (hs : scanStep d isInteresting recursive s .pop = some s') : Coming d s' i n := by
  simp only [scanStep] at hs
  split at hs
  · rename_i hpc hq
    cases hs
    refine h.of_found d rfl (fun ho => ?_)
    rcases h.found ho with hown | ⟨dir, hdir, hseen⟩
    · rw [hpc] at hown; exact hown.elim
    · rcases hseen with hseen | hseen | hseen
      · rw [hq] at hseen; cases hseen
      · rw [hpc] at hseen; cases hseen
      · exact Or.inr ⟨dir, hdir, Or.inr (Or.inr hseen)⟩
  · rename_i p rest hpc hq
    have hsplit : i ∈ s.opened → ∃ dir, d.dirAt dir = some i ∧
        (withSlash dir ++ n = p ∨ withSlash dir ++ n ∈ rest ∨ withSlash dir ++ n ∈ s.analysed) := fun ho => by
      rcases h.found ho with hown | ⟨dir, hdir, hseen⟩
      · rw [hpc] at hown; exact hown.elim
      · refine ⟨dir, hdir, ?_⟩
        rcases hseen with hseen | hseen | hseen
        · rw [hq] at hseen
          exact (List.mem_cons.1 hseen).imp id Or.inl
        · rw [hpc] at hseen; cases hseen
        · exact Or.inr (Or.inr hseen)
    by_cases hp : isDir (d.view s.files) p = true
    · -- a directory is not the path of the file
      have hother : ∀ dir, d.dirAt dir = some i → withSlash dir ++ n ≠ p := fun dir hdir e => by
        rw [← e, d.isDir_file s.files dir n i hdir h.ne h.noSl h.noSub h.there] at hp
        cases hp
      rw [if_pos hp] at hs
      split at hs
      · cases hs
        refine h.of_found d rfl (fun ho => ?_)
        obtain ⟨dir, hdir, hwhere⟩ := hsplit ho
        rcases hwhere.resolve_left (hother dir hdir) with hw | hw
        · exact Or.inr ⟨dir, hdir, Or.inl hw⟩
        · exact Or.inr ⟨dir, hdir, Or.inr (Or.inr hw)⟩
      · cases hs
        refine h.of_found d rfl (fun ho => ?_)
        obtain ⟨dir, hdir, hwhere⟩ := hsplit ho
        rcases hwhere.resolve_left (hother dir hdir) with hw | hw
        · exact Or.inr ⟨dir, hdir, Or.inl hw⟩
        · exact Or.inr ⟨dir, hdir, Or.inr (Or.inr hw)⟩
    · rw [if_neg hp] at hs
      cases hs
      refine h.of_found d rfl (fun ho => ?_)
      obtain ⟨dir, hdir, rfl | hw | hw⟩ := hsplit ho
      · exact Or.inr ⟨dir, hdir, Or.inr (Or.inl rfl)⟩
      · exact Or.inr ⟨dir, hdir, Or.inl hw⟩
      · exact Or.inr ⟨dir, hdir, Or.inr (Or.inr hw)⟩
  · cases hs

theorem coming_opendir (s s' : ScanSt) (i : Nat) (n : Str) (h : Coming d s i n)
    (hs : scanStep d isInteresting recursive s .opendir = some s') : Coming d s' i n := by
  simp only [scanStep] at hs
  split at hs
  · rename_i dir hpc
    have hseen : i ∈ s.opened → ∃ dir, d.dirAt dir = some i ∧
        (withSlash dir ++ n ∈ s.queue ∨ withSlash dir ++ n ∈ s.analysed) := fun ho => by
      rcases h.found ho with hown | ⟨dir, hdir, hw | hw | hw⟩
      · rw [hpc] at hown; exact hown.elim
      · exact ⟨dir, hdir, Or.inl hw⟩
      · rw [hpc] at hw; cases hw
      · exact ⟨dir, hdir, Or.inr hw⟩
    split at hs
    · cases hs
      refine h.of_found d rfl (fun ho => ?_)
      obtain ⟨dir', hdir, hw⟩ := hseen ho
      exact Or.inr ⟨dir', hdir, hw.imp id Or.inr⟩
    · rename_i names hopen
      cases hs
      refine h.of_found d rfl (fun ho => ?_)
      simp only [List.mem_append, Option.mem_toList] at ho
      rcases ho with ho | ho
      · refine Or.inl ⟨ho, ?_⟩
        simp only [Disk.view, ho, Option.bind_some] at hopen
        split at hopen
        · rw [← Option.some.inj hopen]
          exact List.mem_append_right _ h.there
        · cases hopen
      · obtain ⟨dir', hdir, hw⟩ := hseen ho
        exact Or.inr ⟨dir', hdir, hw.imp id Or.inr⟩
  · cases hs

theorem coming_readdir (s s' : ScanSt) (i : Nat) (n m : Str) (h : Coming d s i n)
    (hs : scanStep d isInteresting recursive s (.readdir m) = some s') : Coming d s' i n := by
  simp only [scanStep] at hs
  split at hs
  · rename_i dir owed hpc
    split at hs
    · rename_i hdot
      cases hs
      refine h.of_found d rfl (fun ho => ?_)
      rcases h.found ho with hown | ⟨dir', hdir, hw | hw | hw⟩
      · rw [hpc] at hown
        have hnm : n ≠ m := fun e => by rw [← e, h.noDot] at hdot; cases hdot
        exact Or.inl ⟨hown.1, by simp [hown.2, hnm]⟩
      · exact Or.inr ⟨dir', hdir, Or.inl hw⟩
      · rw [hpc] at hw; cases hw
      · exact Or.inr ⟨dir', hdir, Or.inr (Or.inr hw)⟩
    · split at hs
      · cases hs
        refine h.of_found d rfl (fun ho => ?_)
        rcases h.found ho with hown | ⟨dir', hdir, hw | hw | hw⟩
        · rw [hpc] at hown
          refine Or.inl ⟨hown.1, ?_⟩
          by_cases hnm : n = m
          · exact Or.inl hnm
          · exact Or.inr (by simp [hown.2, hnm])
        · exact Or.inr ⟨dir', hdir, Or.inl hw⟩
        · rw [hpc] at hw; cases hw
        · exact Or.inr ⟨dir', hdir, Or.inr (Or.inr hw)⟩
      · cases hs
  · cases hs

theorem coming_push (s s' : ScanSt) (i : Nat) (n : Str) (h : Coming d s i n) (hc : noGap s .push = true)
    (hs : scanStep d isInteresting recursive s .push = some s') : Coming d s' i n := by
  simp only [scanStep] at hs
  split at hs
  · rename_i dir owed m hpc
    simp only [noGap, hpc, decide_eq_true_eq] at hc
    rw [joinName_of_fits dir m hc] at hs
    cases hs
    refine h.of_found d rfl (fun ho => ?_)
    have hqueue : ∀ p, p ∈ s.queue → p ∈ (if !isDir (d.view s.files) (withSlash dir ++ m) || recursive then
        (withSlash dir ++ m) :: s.queue else s.queue) := fun p hp => by
      split
      · exact List.mem_cons_of_mem _ hp
      · exact hp
    rcases h.found ho with hown | ⟨dir', hdir, hw | hw | hw⟩
    · rw [hpc] at hown
      obtain ⟨hdir, rfl | hown⟩ := hown
      · refine Or.inr ⟨dir, hdir, Or.inl ?_⟩
        rw [d.isDir_file s.files dir n i hdir h.ne h.noSl h.noSub h.there]
        exact List.mem_cons_self
      · exact Or.inl ⟨hdir, hown⟩
    · exact Or.inr ⟨dir', hdir, Or.inl (hqueue _ hw)⟩
    · rw [hpc] at hw; cases hw
    · exact Or.inr ⟨dir', hdir, Or.inr (Or.inr hw)⟩
  · cases hs

theorem coming_closedir (s s' : ScanSt) (i : Nat) (n : Str) (h : Coming d s i n)
    (hs : scanStep d isInteresting recursive s .closedir = some s') : Coming d s' i n := by
  simp only [scanStep] at hs
  split at hs
  · rename_i dir hpc
    cases hs
    refine h.of_found d rfl (fun ho => ?_)
    rcases h.found ho with hown | ⟨dir', hdir, hw | hw | hw⟩
    · rw [hpc] at hown; cases hown.2
    · exact Or.inr ⟨dir', hdir, Or.inl hw⟩
    · rw [hpc] at hw; cases hw
    · exact Or.inr ⟨dir', hdir, Or.inr (Or.inr hw)⟩
  · cases hs

theorem coming_addWatch (s s' : ScanSt) (i : Nat) (n : Str) (h : Coming d s i n)
    (hs : scanStep d isInteresting recursive s .addWatch = some s') : Coming d s' i n := by
  simp only [scanStep] at hs
  split at hs
  · rename_i dir hpc
    have hseen : i ∈ s.opened → ∃ dir, d.dirAt dir = some i ∧
        (withSlash dir ++ n ∈ s.queue ∨ withSlash dir ++ n ∈ s.analysed) := fun ho => by
      rcases h.found ho with hown | ⟨dir, hdir, hw | hw | hw⟩
      · rw [hpc] at hown; exact hown.elim
      · exact ⟨dir, hdir, Or.inl hw⟩
      · rw [hpc] at hw; cases hw
      · exact ⟨dir, hdir, Or.inr hw⟩
    split at hs
    all_goals
      cases hs
      refine h.of_found d rfl (fun ho => ?_)
      obtain ⟨dir', hdir, hw⟩ := hseen ho
      exact Or.inr ⟨dir', hdir, hw.imp id Or.inr⟩
  · cases hs

theorem coming_analyse (s s' : ScanSt) (i : Nat) (n : Str) (h : Coming d s i n)
    (hs : scanStep d isInteresting recursive s .analyse = some s') : Coming d s' i n := by
  simp only [scanStep] at hs
  split at hs
  · rename_i path hpc
    cases hs
    refine h.of_found d rfl (fun ho => ?_)
    rcases h.found ho with hown | ⟨dir', hdir, hw | hw | hw⟩
    · rw [hpc] at hown; exact hown.elim
    · exact Or.inr ⟨dir', hdir, Or.inl hw⟩
    · rw [hpc] at hw
      cases hw
      exact Or.inr ⟨dir', hdir, Or.inr (Or.inr (by simp))⟩
    · exact Or.inr ⟨dir', hdir, Or.inr (Or.inr (by simp [hw]))⟩
  · cases hs

/-- **Every step keeps what is coming**, unless it removes the file. -/
theorem coming_step (s s' : ScanSt) (l : ScanLabel) (i : Nat) (n : Str) (h : Coming d s i n)
    (hc : noGap s l = true) (hl : l ≠ .remove i n) (hs : scanStep d isInteresting recursive s l = some s') :
    Coming d s' i n := by
  cases l with
  | create j m =>
    simp only [scanStep] at hs
    split at hs
    · cases hs; exact coming_create d s i j n m h _ rfl _
    · cases hs
  | remove j m =>
    simp only [scanStep] at hs
    split at hs
    · cases hs
      exact coming_remove d s i j n m h (fun ⟨e₁, e₂⟩ => hl (by rw [e₁, e₂])) _
    · cases hs
  | pop => exact coming_pop d isInteresting recursive s s' i n h hs
  | opendir => exact coming_opendir d isInteresting recursive s s' i n h hs
  | readdir m => exact coming_readdir d isInteresting recursive s s' i n m h hs
  | push => exact coming_push d isInteresting recursive s s' i n h hc hs
  | closedir => exact coming_closedir d isInteresting recursive s s' i n h hs
  | addWatch => exact coming_addWatch d isInteresting recursive s s' i n h hs
  | analyse => exact coming_analyse d isInteresting recursive s s' i n h hs

/-- A file created in a directory that is not under watch is coming, or announced when it is. -/
theorem coming_created (s s' : ScanSt) (i : Nat) (n : Str) (hc : noGap s (.create i n) = true)
    (hs : scanStep d isInteresting recursive s (.create i n) = some s') :
    (i ∈ s.watched ∧ ⟨i, n⟩ ∈ s'.events) ∨ Coming d s' i n := by
  simp only [noGap, decide_eq_true_eq] at hc
  simp only [scanStep] at hs
  split at hs
  · rename_i hguard
    obtain ⟨-, hsub, hne, hsl, hdot⟩ := hguard
    cases hs
    by_cases hw : i ∈ s.watched
    · exact Or.inl ⟨hw, by simp [ScanSt.notify, hw]⟩
    · exact Or.inr ⟨by simp, hne, hsl, hdot, hsub, fun ho => absurd (hc ho) hw⟩
  · cases hs

/-- **No gap**: in a run in which no file is created in a directory between its `opendir` and its watch, every file that
is created and stays is, once its directory has been listed, announced by an event that the watch gives, or in the hands
of the scan. -/
theorem created_found (s₀ : ScanSt) (ls : List ScanLabel) (s : ScanSt)
    (hm : Machine.Meets (scanStep d isInteresting recursive) (fun s l => noGap s l = true) s₀ ls)
    (hrun : Machine.run (scanStep d isInteresting recursive) s₀ ls = some s) (i : Nat) (n : Str) (t : ScanSt)
    (hcr : CreatedAt d isInteresting recursive s₀ ls i n t) (ho : i ∈ s.opened) (hl : s.pc.lists d ≠ some i) :
    (i ∈ t.watched ∧ ⟨i, n⟩ ∈ s.events) ∨ ∃ dir, d.dirAt dir = some i ∧ s.Seen (withSlash dir ++ n) := by
  have hinv := Machine.run_inv_hist (scanStep d isInteresting recursive)
    (fun ls s => Machine.Meets (scanStep d isInteresting recursive) (fun s l => noGap s l = true) s₀ ls →
      ∀ i n t, CreatedAt d isInteresting recursive s₀ ls i n t →
        (i ∈ t.watched ∧ ⟨i, n⟩ ∈ s.events) ∨ Coming d s i n) s₀
    (fun _ i n t h => by obtain ⟨pre, post, h, -⟩ := h; simp at h)
    (fun ls s l s' hs ih hstep hm i n t hcr => by
      obtain ⟨hpre, hc⟩ := hm.of_snoc hs
      rcases createdAt_snoc d isInteresting recursive s₀ s t ls l i n hs hcr with ⟨hcr, hne⟩ | ⟨rfl, rfl⟩
      · rcases ih hpre i n t hcr with ⟨hw, he⟩ | hcome
        · exact Or.inl ⟨hw, events_step d isInteresting recursive s s' l _ he hstep⟩
        · exact Or.inr (coming_step d isInteresting recursive s s' l i n hcome hc hne hstep)
      · exact coming_created d isInteresting recursive t s' i n hc hstep)
  rcases hinv ls s hrun hm i n t hcr with h | hcome
  · exact Or.inl h
  · refine Or.inr ((hcome.found ho).resolve_left (fun hown => hl (lists_of_owes d s.pc i n hown)))

/-- **When `add_dir` returns, what the scan had in hand has been handed to `do_analysis`.** -/
theorem analysed_of_done (files : Nat → List Str) (root : Str) (ls : List ScanLabel) (s : ScanSt)
    (hrun : Machine.run (scanStep d isInteresting recursive) (scanStart files root) ls = some s) (hdone : s.pc = .done)
    (path : Str) (h : s.Seen path) : path ∈ s.analysed := by
  have hempty : s.pc = .done → s.queue = [] := by
    refine Machine.run_inv (scanStep d isInteresting recursive) (fun s => s.pc = .done → s.queue = []) ?_
      (fun h => by cases h) hrun
    intro s l s' hi hs hd
    cases l <;> simp only [scanStep] at hs
    case create i n => split at hs <;> cases hs; exact hi hd
    case remove i n =>
      split at hs <;> cases hs
      refine hi ?_
      cases hpc : s.pc <;> simp only [hpc, ScanPc.forget] at hd <;> first | rfl | (split at hd <;> cases hd) | cases hd
    case pop =>
      split at hs
      · rename_i hq; cases hs; exact hq
      · split at hs
        · split at hs
          · rename_i hpc _ _ _
            cases hs
            rw [hpc] at hd; cases hd
          · cases hs; cases hd
        · cases hs; cases hd
      · cases hs
    all_goals (repeat' split at hs) <;> cases hs <;> cases hd
  rcases h with h | h | h
  · rw [hempty hdone] at h; cases h
  · rw [hdone] at h; cases h
  · exact h

end

/-! ## One directory -/

/-- The directory `/w`, with nothing below it but files. -/
def oneDir : Disk where
  dirAt p     := if p = ascii "/w" ∨ p = ascii "/w/" then some 0 else none
  fileAt p    := if (ascii "/w/").isPrefixOf p then some (0, p.drop 3) else none
  subdirs _   := []
  opens _     := true
  canWatch _  := true
  fileAt_join dir n i h _ _ := by
    split at h
    · rename_i hdir
      have hw : withSlash dir = ascii "/w/" := by rcases hdir with rfl | rfl <;> decide
      cases h
      rw [hw, if_pos (by simp)]
      rfl
    · cases h
  dirAt_join dir n i h hne _ _ := by
    split at h
    · rename_i hdir
      have hw : withSlash dir = ascii "/w/" := by rcases hdir with rfl | rfl <;> decide
      rw [hw, if_neg]
      rintro (h | h)
      · have := congrArg List.length h
        simp [ascii] at this
      · exact hne (by simpa using h)
    · cases h

def scanOneDir (ls : List ScanLabel) : Option ScanSt :=
  Machine.run (scanStep oneDir (fun _ => true) true) (scanStart (fun _ => []) (ascii "/w")) ls

/-- The file appears when the directory has been listed and is not yet under watch. -/
def gapLabels : List ScanLabel := [.pop, .opendir, .closedir, .create 0 (ascii "f"), .addWatch, .pop]

/-- The scan is over, and the file is neither analysed nor announced. -/
theorem gapLabels_misses : ∃ s t, scanOneDir gapLabels = some s ∧
    CreatedAt oneDir (fun _ => true) true (scanStart (fun _ => []) (ascii "/w")) gapLabels 0 (ascii "f") t ∧
    s.pc = .done ∧ 0 ∈ s.opened ∧ 0 ∈ s.watched ∧ ascii "f" ∈ s.files 0 ∧
    0 ∉ t.watched ∧ s.events = [] ∧ s.queue = [] ∧ s.analysed = [] :=
  ⟨(scanOneDir gapLabels).get (by decide), (scanOneDir (gapLabels.take 3)).get (by decide), (Option.some_get _).symm,
    ⟨gapLabels.take 3, gapLabels.drop 4, by decide, by decide, (Option.some_get _).symm⟩,
    by decide, by decide, by decide, by decide, by decide, by decide, by decide, by decide⟩

/-- One file appears before the directory is opened and another when it is under watch. -/
def noGapLabels : List ScanLabel :=
  [.create 0 (ascii "f"), .pop, .opendir, .readdir (ascii "f"), .push, .closedir, .addWatch, .create 0 (ascii "g")]

theorem noGapLabels_found : ∃ s t : ScanSt, scanOneDir noGapLabels = some s ∧
    ((0 ∈ t.watched ∧ ⟨0, ascii "f"⟩ ∈ s.events) ∨
      ∃ dir, oneDir.dirAt dir = some 0 ∧ s.Seen (withSlash dir ++ ascii "f")) := by
  obtain ⟨s, hs, ho, hl⟩ : ∃ s, scanOneDir noGapLabels = some s ∧ 0 ∈ s.opened ∧ s.pc.lists oneDir ≠ some 0 :=
    ⟨(scanOneDir noGapLabels).get (by decide), (Option.some_get _).symm, by decide, by decide⟩
  exact ⟨s, scanStart (fun _ => []) (ascii "/w"), hs,
    created_found oneDir (fun _ => true) true (scanStart (fun _ => []) (ascii "/w")) noGapLabels s
      (Machine.Meets.of_meets _ noGap _ _ (by decide)) hs 0 (ascii "f") _
      ⟨[], noGapLabels.drop 1, by decide, by decide, rfl⟩ ho hl⟩

end CheckRealtime
