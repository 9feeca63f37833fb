import CheckRealtime.ScanRestart
/-!
# Checks — `load_judge`, `load_excluded_dir` and what one check does to another

The checks of the configuration end up in three global places: the filter and the grep map, keyed by path, and one list
of excluded directories, to which every filter string is added as it stands.  `decide_same_iff` says when a change of the
lists of one check changes nothing for a file.
-/
namespace CheckRealtime

open Relation (ReflTransGen)

/-- An element of `checks`; a check without `path` is passed over. -/
structure Check where
  path      : Option (List Str)
  recursive : Bool
  filter    : List Str
  grep      : List Str

/-! ## Loading -/

def pushRegex : RegMap → Str → Str → RegMap
  | [], dir, str             => [(dir, [str])]
  | (key, vec) :: rest, dir, str =>
    if key = dir then (key, vec ++ [str]) :: rest else (key, vec) :: pushRegex rest dir str

/-- `add_regex`: the expression is trimmed, and dropped when nothing is left. -/
def addRegex (regs : RegMap) (dir reg : Str) : RegMap :=
  let str := stringtrim reg
  if str.length = 0 then regs else pushRegex regs dir str

def addRegexes (regs : RegMap) (dir : Str) (regvec : List Str) : RegMap :=
  regvec.foldl (fun regs reg => addRegex regs dir reg) regs

/-- The loops of `load_judge`, for the filters or for the greps. -/
def loadRegexes (lists : Check → List Str) : List Check → RegMap → RegMap
  | [], regs            => regs
  | check :: rest, regs =>
    match check.path with
    | none       => loadRegexes lists rest regs
    | some paths => loadRegexes lists rest (paths.foldl (fun regs path => addRegexes regs path (lists check)) regs)

/-- `load_judge`.  `iterate` is the order in which an unordered map gives out what was put into it. -/
def loadJudge (iterate : RegMap → RegMap) (matchRegex : Str → Str → Bool) (alertInterval : Int) (checks : List Check) :
    Config where
  ignore     := iterate (loadRegexes Check.filter checks [])
  grep       := iterate (loadRegexes Check.grep checks [])
  matchRegex := matchRegex
  interval   := toInt (alertInterval * 60)

/-- `load_excluded_dir`: the strings are neither trimmed nor tied to the paths of their check. -/
def loadExcludedDir : List Check → List Str → List Str
  | [], filter            => filter
  | check :: rest, filter =>
    match check.path with
    | none   => loadExcludedDir rest filter
    | some _ => loadExcludedDir rest (excludeDir filter check.filter)

def rootsOf (checks : List Check) : List (Str × Bool) :=
  checks.flatMap (fun check => (check.path.getD []).map (fun path => (path, check.recursive)))

def scanEnvOf (fs : FileSys) (checks : List Check) : ScanEnv := ⟨fs, loadExcludedDir checks [], false, 0⟩

/-- The check keeps a directory of that path from being scanned. -/
def Check.Excludes (check : Check) (path : Str) : Prop := check.path.isSome = true ∧ path ∈ check.filter ∧ path ≠ []

theorem mem_loadExcludedDir (path : Str) : ∀ (checks : List Check) (filter : List Str),
    path ∈ loadExcludedDir checks filter ↔ path ∈ filter ∨ ∃ check ∈ checks, check.Excludes path
  | [], filter => by simp [loadExcludedDir]
  | check :: rest, filter => by
    rw [loadExcludedDir]
    cases hp : check.path with
    | none => simp [mem_loadExcludedDir path rest filter, Check.Excludes, hp]
    | some paths =>
      simp only [mem_loadExcludedDir path rest, excludeDir, List.mem_append, List.mem_filter, List.mem_cons,
        exists_eq_or_imp, Check.Excludes, hp, Option.isSome_some, true_and, or_assoc]
      simp

/-! ## Ways down

What a scan visits, as strings: the paths on the way from a root to a directory, whether excluded or not. -/

inductive Way (fs : FileSys) (recursive : Bool) (root : Str) : Str → List Str → Prop
  | root : Way fs recursive root root [root]
  | down {dir child : Str} {way : List Str} (h : Way fs recursive root dir way)
      (hstep : Walk.Step (expand fs (fun _ => true) recursive) dir child) : Way fs recursive root child (way ++ [child])

theorem Way.mem {fs : FileSys} {recursive : Bool} {root dir : Str} {way : List Str} (h : Way fs recursive root dir way) :
    dir ∈ way := by
  cases h <;> simp

/-- The directory opens, and the way leads to it from a root. -/
def IsWay (fs : FileSys) (roots : List (Str × Bool)) (dir : Str) (way : List Str) : Prop :=
  (∃ r ∈ roots, Way fs r.2 r.1 dir way) ∧ isDir fs dir = true ∧ (fs.opendir dir).isSome = true

theorem step_iff (fs : FileSys) (isInteresting : Str → Bool) (recursive : Bool) (a b : Str) :
    Walk.Step (expand fs isInteresting recursive) a b ↔
      isInteresting a = true ∧ Walk.Step (expand fs (fun _ => true) recursive) a b := by
  unfold Walk.Step expand
  cases isDir fs a <;> cases isInteresting a <;> simp

/-- **A directory is scanned exactly when a way leads to it on which nothing is excluded.** -/
theorem scanned_iff_way (E : ScanEnv) (roots : List (Str × Bool)) (dir : Str) :
    Scanned E roots dir ↔ ∃ way, IsWay E.fs roots dir way ∧ ∀ p ∈ way, p ∉ E.filter := by
  have hmon : ∀ p, E.needMon p = true ↔ p ∉ E.filter := fun p => by simp [ScanEnv.needMon]
  constructor
  · rintro ⟨r, hr, hreach, hdir, hneed, hopen⟩
    have hway : ∀ d, ReflTransGen (Walk.Step (expand E.fs E.needMon r.2)) r.1 d → E.needMon d = true →
        ∃ way, Way E.fs r.2 r.1 d way ∧ ∀ p ∈ way, p ∉ E.filter := by
      intro d hreach
      induction hreach with
      | refl => exact fun hd => ⟨_, .root, fun p hp => by rw [List.mem_singleton.1 hp]; exact (hmon _).1 hd⟩
      | tail _ hstep ih =>
        intro hd
        obtain ⟨hb, hstep⟩ := (step_iff E.fs E.needMon r.2 _ _).1 hstep
        obtain ⟨way, hway, hfree⟩ := ih hb
        refine ⟨_, .down hway hstep, fun p hp => ?_⟩
        rcases List.mem_append.1 hp with hp | hp
        · exact hfree p hp
        · rw [List.mem_singleton.1 hp]; exact (hmon _).1 hd
    obtain ⟨way, hway, hfree⟩ := hway dir hreach hneed
    exact ⟨way, ⟨⟨r, hr, hway⟩, hdir, hopen⟩, hfree⟩
  · rintro ⟨way, ⟨⟨r, hr, hway⟩, hdir, hopen⟩, hfree⟩
    have hreach : (∀ p ∈ way, p ∉ E.filter) → ReflTransGen (Walk.Step (expand E.fs E.needMon r.2)) r.1 dir ∧ dir ∈ way := by
      clear hfree hdir hopen
      induction hway with
      | root => exact fun _ => ⟨.refl, by simp⟩
      | down _ hstep ih =>
        intro hfree
        obtain ⟨hreach, hlast⟩ := ih (fun p hp => hfree p (by simp [hp]))
        refine ⟨hreach.tail ((step_iff E.fs E.needMon r.2 _ _).2 ⟨(hmon _).2 (hfree _ (by simp [hlast])), hstep⟩), by simp⟩
    obtain ⟨hreach, hlast⟩ := hreach hfree
    exact ⟨r, hr, hreach, hdir, (hmon _).2 (hfree dir hlast), hopen⟩

/-! ## What the two tests consult -/

/-- The expressions of the entry `match` comes upon first. -/
def consulted (regs : RegMap) (filename : Str) : List Str :=
  match regs.find? (fun it => isPrefix_ filename it.1) with
  | none    => []
  | some it => it.2

theorem matchFilter_iff (matchRegex : Str → Str → Bool) (regs : RegMap) (dir filename : Str) :
    matchFilter matchRegex regs dir filename = true ↔ ∃ reg ∈ consulted regs filename, matchRegex filename reg = true := by
  unfold matchFilter consulted
  cases regs.find? (fun it => isPrefix_ filename it.1) with
  | none => simp
  | some it => simp [List.countP_eq_zero]

/-- **What `passes` comes to**, for a matcher that holds of the expressions in a set. -/
theorem passes_iff_consulted (C : Config) (dir filename : Str) : C.passes dir filename = true ↔
    (∀ reg ∈ consulted C.ignore filename, C.matchRegex filename reg = false) ∧
      (C.grep = [] ∨ ∃ reg ∈ consulted C.grep filename, C.matchRegex filename reg = true) := by
  have hgrep : ¬ (0 < C.grep.length) ↔ C.grep = [] := by
    rw [Nat.not_lt, Nat.le_zero, List.length_eq_zero_iff]
  rw [passes_iff, matchFilter_iff, Bool.and_eq_true, decide_eq_true_eq, Bool.not_eq_true', not_and_or, hgrep,
    Bool.not_eq_false, matchFilter_iff]
  simp

def SameRegexes (a b : List Str) : Prop := ∀ reg, reg ∈ a ↔ reg ∈ b

/-- The two configurations consult the same for a file: greps are asked for in both or in neither, and then the entries
met first list the same expressions, those greps apart that a filter of the same entry rules out; where greps are asked
for and filters rule out all of them, nothing passes in either. -/
structure ConsultSame (C C' : Config) (filename : Str) : Prop where
  switch  : C.grep = [] ↔ C'.grep = []
  ignores : (C.grep ≠ [] ∧ consulted C.grep filename ⊆ consulted C.ignore filename ∧
      consulted C'.grep filename ⊆ consulted C'.ignore filename) ∨
    (SameRegexes (consulted C.ignore filename) (consulted C'.ignore filename) ∧
      (C.grep = [] ∨ ∀ reg, reg ∉ consulted C.ignore filename →
        (reg ∈ consulted C.grep filename ↔ reg ∈ consulted C'.grep filename)))

def PassesOn (C : Config) (filename : Str) (matched : Str → Prop) : Prop :=
  (∀ reg ∈ consulted C.ignore filename, ¬ matched reg) ∧ (C.grep = [] ∨ ∃ reg ∈ consulted C.grep filename, matched reg)

theorem passesOn_of_consultSame (C C' : Config) (filename : Str) (h : ConsultSame C C' filename) (matched : Str → Prop) :
    PassesOn C filename matched → PassesOn C' filename matched := by
  rintro ⟨hno, hyes⟩
  rcases h.ignores with ⟨hon, hsub, -⟩ | ⟨hsame, hgrep⟩
  · obtain ⟨reg, hreg, hm⟩ := hyes.resolve_left hon
    exact absurd hm (hno reg (hsub hreg))
  · refine ⟨fun reg hreg => hno reg ((hsame reg).2 hreg), ?_⟩
    by_cases hon : C.grep = []
    · exact Or.inl (h.switch.1 hon)
    · obtain ⟨reg, hreg, hm⟩ := hyes.resolve_left hon
      have hout : reg ∉ consulted C.ignore filename := fun hi => hno reg hi hm
      exact Or.inr ⟨reg, (hgrep.resolve_left hon reg hout).1 hreg, hm⟩

theorem ConsultSame.symm {C C' : Config} {filename : Str} (h : ConsultSame C C' filename) : ConsultSame C' C filename := by
  refine ⟨h.switch.symm, ?_⟩
  rcases h.ignores with ⟨hon, hsub, hsub'⟩ | ⟨hsame, hgrep⟩
  · exact Or.inl ⟨fun h' => hon (h.switch.2 h'), hsub', hsub⟩
  · refine Or.inr ⟨fun reg => (hsame reg).symm, ?_⟩
    rcases hgrep with hon | hgrep
    · exact Or.inl (h.switch.1 hon)
    · exact Or.inr (fun reg hreg => (hgrep reg (fun hi => hreg ((hsame reg).1 hi))).symm)

theorem passesOn_singleton (C : Config) (filename reg : Str) (hon : C.grep ≠ []) :
    PassesOn C filename (· = reg) ↔ reg ∉ consulted C.ignore filename ∧ reg ∈ consulted C.grep filename := by
  constructor
  · rintro ⟨hno, hyes⟩
    obtain ⟨reg', hreg', rfl⟩ := hyes.resolve_left hon
    exact ⟨fun hi => hno reg' hi rfl, hreg'⟩
  · rintro ⟨hi, hg⟩
    exact ⟨fun reg' hreg' e => hi (e ▸ hreg'), Or.inr ⟨reg, hg, rfl⟩⟩

/-- An expression that is ignored in one configuration is ignored in the other, when another one passes in both. -/
theorem ignored_of_same (C C' : Config) (filename : Str)
    (h : ∀ matched, PassesOn C filename matched ↔ PassesOn C' filename matched) (b : Str)
    (hb : b ∉ consulted C'.ignore filename) (hg : b ∈ consulted C'.grep filename) (reg : Str)
    (hreg : reg ∈ consulted C.ignore filename) : reg ∈ consulted C'.ignore filename := by
  by_contra hout
  have hpass : PassesOn C' filename (fun x => x = reg ∨ x = b) :=
    ⟨fun x hx e => e.elim (fun e => hout (e ▸ hx)) (fun e => hb (e ▸ hx)), Or.inr ⟨b, hg, Or.inr rfl⟩⟩
  exact ((h _).2 hpass).1 reg hreg (Or.inl rfl)

theorem consultSame_of_passesOn (C C' : Config) (filename : Str)
    (h : ∀ matched, PassesOn C filename matched ↔ PassesOn C' filename matched) : ConsultSame C C' filename := by
  have hnone : ∀ C : Config, PassesOn C filename (fun _ => False) ↔ C.grep = [] := fun C =>
    ⟨fun hp => hp.2.resolve_right (fun ⟨_, _, hf⟩ => hf), fun hg => ⟨fun _ _ hf => hf, Or.inl hg⟩⟩
  have hswitch : C.grep = [] ↔ C'.grep = [] := by rw [← hnone C, ← hnone C', h]
  refine ⟨hswitch, ?_⟩
  by_cases hon : C.grep = []
  · -- no greps: one ignored expression is enough to tell
    have hout : ∀ C : Config, C.grep = [] → ∀ reg, (PassesOn C filename (· = reg) ↔ reg ∉ consulted C.ignore filename) :=
      fun C hg reg => ⟨fun hp hi => hp.1 reg hi rfl, fun hi => ⟨fun reg' hreg' e => hi (e ▸ hreg'), Or.inl hg⟩⟩
    refine Or.inr ⟨fun reg => ?_, Or.inl hon⟩
    rw [← not_iff_not, ← hout C hon, ← hout C' (hswitch.1 hon), h]
  · have hon' : C'.grep ≠ [] := fun h' => hon (hswitch.2 h')
    have hone : ∀ reg, (reg ∉ consulted C.ignore filename ∧ reg ∈ consulted C.grep filename) ↔
        (reg ∉ consulted C'.ignore filename ∧ reg ∈ consulted C'.grep filename) := fun reg => by
      rw [← passesOn_singleton C filename reg hon, ← passesOn_singleton C' filename reg hon', h]
    by_cases hsub : consulted C.grep filename ⊆ consulted C.ignore filename
    · refine Or.inl ⟨hon, hsub, fun reg hreg => ?_⟩
      by_contra hi
      obtain ⟨hi', hreg'⟩ := (hone reg).2 ⟨hi, hreg⟩
      exact hi' (hsub hreg')
    · obtain ⟨b, hb, hbi⟩ : ∃ b, b ∈ consulted C.grep filename ∧ b ∉ consulted C.ignore filename := by
        by_contra hno
        refine hsub (fun reg hreg => ?_)
        by_contra hi
        exact hno ⟨reg, hreg, hi⟩
      obtain ⟨hbi', hb'⟩ := (hone b).1 ⟨hbi, hb⟩
      have hsame : SameRegexes (consulted C.ignore filename) (consulted C'.ignore filename) := fun reg =>
        ⟨ignored_of_same C C' filename h b hbi' hb' reg,
          ignored_of_same C' C filename (fun m => (h m).symm) b hbi hb reg⟩
      refine Or.inr ⟨hsame, Or.inr (fun reg hreg => ?_)⟩
      have hreg' : reg ∉ consulted C'.ignore filename := fun hi => hreg ((hsame reg).2 hi)
      exact ⟨fun hg => ((hone reg).1 ⟨hreg, hg⟩).2, fun hg => ((hone reg).2 ⟨hreg', hg⟩).2⟩

/-- **The tests decide the same for every matcher exactly when the same is consulted.** -/
theorem passes_same_iff (C C' : Config) (dir filename : Str) :
    (∀ matchRegex, Config.passes { C with matchRegex := matchRegex } dir filename =
      Config.passes { C' with matchRegex := matchRegex } dir filename) ↔ ConsultSame C C' filename := by
  have hon : ∀ (C : Config) (M : Str → Str → Bool), Config.passes { C with matchRegex := M } dir filename = true ↔
      PassesOn C filename (fun reg => M filename reg = true) := fun C M => by
    rw [passes_iff_consulted]
    simp only [PassesOn, Bool.not_eq_true]
  constructor
  · intro h
    refine consultSame_of_passesOn C C' filename (fun matched => ?_)
    classical
    have hM : (fun reg => decide (matched reg) = true) = matched := funext (fun reg => by simp)
    have h1 := hon C (fun _ reg => decide (matched reg))
    have h2 := hon C' (fun _ reg => decide (matched reg))
    simp only [hM] at h1 h2
    rw [← h1, ← h2, h]
  · intro h M
    rw [Bool.eq_iff_iff, hon, hon]
    exact ⟨passesOn_of_consultSame C C' filename h _, passesOn_of_consultSame C' C filename h.symm _⟩

/-! ## The directories that contain a file -/

/-- The directory is the file's own or one above it, by whole components of the path. -/
def Contains (dir filename : Str) : Prop := withSlash dir <+: filename

/-- **`match` answers for the directories that contain the file exactly when the entry it comes upon first, in the order
of the map, lists the same expressions as those directories together.** -/
theorem matchFilter_contains_iff (regs : RegMap) (dir filename : Str) :
    (∀ matchRegex : Str → Str → Bool, matchFilter matchRegex regs dir filename = true ↔
      ∃ it ∈ regs, Contains it.1 filename ∧ ∃ reg ∈ it.2, matchRegex filename reg = true) ↔
    ∀ reg, reg ∈ consulted regs filename ↔ ∃ it ∈ regs, Contains it.1 filename ∧ reg ∈ it.2 := by
  constructor
  · intro h reg
    -- the matcher that holds of this expression alone
    have hreg := h (fun _ reg' => decide (reg' = reg))
    simp only [matchFilter_iff, decide_eq_true_eq, exists_eq_right] at hreg
    exact hreg
  · intro h matchRegex
    rw [matchFilter_iff]
    constructor
    · rintro ⟨reg, hreg, hm⟩
      obtain ⟨it, hit, hdir, hmem⟩ := (h reg).1 hreg
      exact ⟨it, hit, hdir, reg, hmem, hm⟩
    · rintro ⟨it, hit, hdir, reg, hmem, hm⟩
      exact ⟨reg, (h reg).2 ⟨it, hit, hdir, hmem⟩, hm⟩

/-- The entry of the outer directory comes first and hides the inner one; a directory below a file's namesake answers for
the file. -/
theorem matchFilter_not_contains :
    (matchFilter (fun _ reg => decide (reg = ascii "y")) [(ascii "/w", [ascii "x"]), (ascii "/w/sub", [ascii "y"])]
        (ascii "/w/sub") (ascii "/w/sub/f") = false ∧
      Contains (ascii "/w/sub") (ascii "/w/sub/f")) ∧
    matchFilter (fun _ _ => true) [(ascii "/w/fold", [ascii "x"])] (ascii "/w") (ascii "/w/f") = true ∧
      ¬ Contains (ascii "/w/fold") (ascii "/w/f") := by
  refine ⟨⟨by decide, by unfold Contains; decide⟩, by decide, by unfold Contains; decide⟩

/-! ## Two configurations -/

def Check.withLists (check : Check) (filter grep : List Str) : Check := { check with filter := filter, grep := grep }

/-- A way down to a directory that neither the other checks nor this one shut. -/
def OpenWay (fs : FileSys) (roots : List (Str × Bool)) (others : List Check) (check : Check) (dir : Str) : Prop :=
  ∃ way, IsWay fs roots dir way ∧ (∀ p ∈ way, ∀ other ∈ others, ¬ other.Excludes p) ∧ ∀ p ∈ way, ¬ check.Excludes p

theorem rootsOf_withLists (pre post : List Check) (check : Check) (filter grep : List Str) :
    rootsOf (pre ++ check.withLists filter grep :: post) = rootsOf (pre ++ check :: post) := by
  simp [rootsOf, Check.withLists]

theorem scanned_iff_openWay (fs : FileSys) (pre post : List Check) (check : Check) (dir : Str) :
    Scanned (scanEnvOf fs (pre ++ check :: post)) (rootsOf (pre ++ check :: post)) dir ↔
      OpenWay fs (rootsOf (pre ++ check :: post)) (pre ++ post) check dir := by
  rw [scanned_iff_way, OpenWay]
  refine exists_congr (fun way => and_congr_right (fun _ => ?_))
  rw [← forall₂_and]
  refine forall₂_congr (fun p _ => ?_)
  simp only [scanEnvOf, mem_loadExcludedDir, List.not_mem_nil, false_or, not_exists, not_and, List.mem_append,
    List.mem_cons]
  constructor
  · exact fun h => ⟨fun c hc => h c (hc.imp id Or.inr), h check (Or.inr (Or.inl rfl))⟩
  · rintro ⟨hothers, hcheck⟩ c (hc | rfl | hc)
    · exact hothers c (Or.inl hc)
    · exact hcheck
    · exact hothers c (Or.inr hc)

/-- **When a change of one check's lists changes nothing for a file**: exactly when it leaves a way down to the file's
directory in both configurations or in neither, and the tests consult the same for the file.  Both scans are to have room
for what they read. -/
theorem decide_same_iff (iterate : RegMap → RegMap) (alertInterval : Int) (fs : FileSys) (hfs : fs.Sound)
    (pre post : List Check) (check : Check) (filter grep : List Str)
    (hroom : HasRoom (scanEnvOf fs (pre ++ check :: post)) (rootsOf (pre ++ check :: post)))
    (hroom' : HasRoom (scanEnvOf fs (pre ++ check.withLists filter grep :: post))
      (rootsOf (pre ++ check.withLists filter grep :: post))) (dir filename : Str) :
    (((⟨1, dir⟩ : Entry) ∈ entriesOf (scanEnvOf fs (pre ++ check :: post)) (rootsOf (pre ++ check :: post)) ↔
        (⟨1, dir⟩ : Entry) ∈ entriesOf (scanEnvOf fs (pre ++ check.withLists filter grep :: post))
          (rootsOf (pre ++ check.withLists filter grep :: post))) ∧
      ∀ matchRegex, (loadJudge iterate matchRegex alertInterval (pre ++ check :: post)).passes dir filename =
        (loadJudge iterate matchRegex alertInterval (pre ++ check.withLists filter grep :: post)).passes dir filename) ↔
    (OpenWay fs (rootsOf (pre ++ check :: post)) (pre ++ post) check dir ↔
        OpenWay fs (rootsOf (pre ++ check :: post)) (pre ++ post) (check.withLists filter grep) dir) ∧
      ConsultSame (loadJudge iterate (fun _ _ => false) alertInterval (pre ++ check :: post))
        (loadJudge iterate (fun _ _ => false) alertInterval (pre ++ check.withLists filter grep :: post)) filename := by
  rw [mem_dir_iff _ hfs hroom, mem_dir_iff _ hfs hroom', scanned_iff_openWay, scanned_iff_openWay, rootsOf_withLists,
    ← passes_same_iff _ _ dir]
  rfl

/-! ## Two checks -/

def plainCheck (path : Str) : Check := ⟨some [path], false, [], []⟩

/-- A grep in the check of `/b` switches the greps on for the files of `/a`, which has none: nothing there passes. -/
theorem grep_elsewhere_blocks :
    ¬ withSlash (ascii "/b") <+: ascii "/a/f" ∧
      (∀ matchRegex, (loadJudge id matchRegex 0 [plainCheck (ascii "/a"), plainCheck (ascii "/b")]).passes
        (ascii "/a") (ascii "/a/f") = true) ∧
      ∀ matchRegex, (loadJudge id matchRegex 0 [plainCheck (ascii "/a"),
        (plainCheck (ascii "/b")).withLists [] [ascii "x"]]).passes (ascii "/a") (ascii "/a/f") = false :=
  ⟨by decide, fun _ => rfl, fun _ => rfl⟩

/-- A filter in the check of `/b` changes nothing for the files of `/w`. -/
theorem filter_elsewhere_same :
    ((⟨1, ascii "/w"⟩ : Entry) ∈ entriesOf (scanEnvOf oneFile [plainCheck (ascii "/w"), plainCheck (ascii "/b")])
        (rootsOf [plainCheck (ascii "/w"), plainCheck (ascii "/b")]) ↔
      (⟨1, ascii "/w"⟩ : Entry) ∈ entriesOf
        (scanEnvOf oneFile [plainCheck (ascii "/w"), (plainCheck (ascii "/b")).withLists [ascii "z"] []])
        (rootsOf [plainCheck (ascii "/w"), (plainCheck (ascii "/b")).withLists [ascii "z"] []])) ∧
    ∀ matchRegex, (loadJudge id matchRegex 0 [plainCheck (ascii "/w"), plainCheck (ascii "/b")]).passes
        (ascii "/w") (ascii "/w/f") =
      (loadJudge id matchRegex 0 [plainCheck (ascii "/w"), (plainCheck (ascii "/b")).withLists [ascii "z"] []]).passes
        (ascii "/w") (ascii "/w/f") := by
  have hopen : ∀ check : Check, ascii "/w" ∉ check.filter →
      OpenWay oneFile (rootsOf [plainCheck (ascii "/w"), plainCheck (ascii "/b")]) [plainCheck (ascii "/w")] check
        (ascii "/w") := fun check hout => by
    refine ⟨[ascii "/w"], ⟨⟨(ascii "/w", false), by decide, .root⟩, by decide, by decide⟩, ?_, ?_⟩
    · intro p _ other ho
      rw [List.mem_singleton.1 ho]
      simp [Check.Excludes, plainCheck]
    · intro p hp h
      rw [List.mem_singleton.1 hp] at h
      exact hout h.2.1
  refine (decide_same_iff id 0 oneFile oneFile_sound [plainCheck (ascii "/w")] [] (plainCheck (ascii "/b")) [ascii "z"] []
    (oneFile_room rfl _) (oneFile_room rfl _) (ascii "/w") (ascii "/w/f")).2 ⟨⟨fun _ => hopen _ (by decide), fun _ => hopen _ (by decide)⟩, ⟨by decide, Or.inr ?_⟩⟩
  exact ⟨fun _ => Iff.rfl, Or.inl rfl⟩

end CheckRealtime
