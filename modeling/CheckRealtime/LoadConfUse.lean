import CheckRealtime.Coverage
import CheckRealtime.LoadConf
/-!
# LoadConfUse — what the settings come to mean

Which actions an alert calls (`loadConf_alert`) and which directories a start puts under watch (`loadConf_scanned`), read off
the settings.
-/
namespace CheckRealtime.LoadConf

/-! ## Which actions apply -/

/-- The last check that lists the path. -/
def lastCheck (root : Setting) (path : Str) : Option Setting :=
  ((settingChecks root).filter pathed).reverse.find? (fun check => (pathsOf check).contains path)

/-- The actions the configuration gives a level and a path: those of the last check that lists it, or the ones of the whole
configuration where that check names none.  A blank path has none. -/
def configured (root : Setting) (level : Level) (path : Str) : Option (List Str) :=
  if (stringtrim path).length = 0 then none else (lastCheck root path).map (fun check => alertsFor root check level)

theorem code_inj {a b : Level} (h : a.code = b.code) : a = b := by
  cases a <;> cases b <;> first | rfl | cases h

theorem findRule_addRule (a : Alerter) (level level' : Level) (dir dir' : Str) (type : List Str) :
    (a.addRule level.code dir type).findRule level'.code dir' =
      if dir = dir' ∧ level = level' ∧ (stringtrim dir).length ≠ 0 then some type else a.findRule level'.code dir' := by
  unfold Alerter.addRule Alerter.findRule
  by_cases hblank : (stringtrim dir).length = 0
  · rw [if_pos hblank, if_neg (fun h => h.2.2 hblank)]
  · rw [if_neg hblank]
    by_cases hsame : dir = dir' ∧ level = level'
    · obtain ⟨rfl, rfl⟩ := hsame
      rw [if_pos ⟨rfl, rfl, hblank⟩]
      exact Function.update_self _ _ _
    · rw [if_neg (fun h => hsame ⟨h.1, h.2.1⟩)]
      refine Function.update_of_ne (fun h => hsame ?_) _ _
      obtain ⟨hdir, hlevel⟩ := Prod.mk.inj h
      exact ⟨hdir.symm, code_inj hlevel.symm⟩

theorem findRule_addRulesOf (root check : Setting) (a : Alerter) (path dir : Str) (level : Level) :
    (addRulesOf root check a path).findRule level.code dir =
      if path = dir ∧ (stringtrim dir).length ≠ 0 then some (alertsFor root check level) else a.findRule level.code dir := by
  unfold addRulesOf
  rw [findRule_addRule, findRule_addRule, findRule_addRule]
  by_cases hpath : path = dir
  · subst hpath
    by_cases hblank : (stringtrim path).length = 0
    · simp [hblank]
    · cases level <;> simp [hblank]
  · simp [hpath]

theorem findRule_paths (root check : Setting) (level : Level) (dir : Str) : ∀ (paths : List Str) (a : Alerter),
    (paths.foldl (addRulesOf root check) a).findRule level.code dir =
      if dir ∈ paths ∧ (stringtrim dir).length ≠ 0 then some (alertsFor root check level) else a.findRule level.code dir
  | [], a => by simp
  | path :: paths, a => by
    rw [List.foldl_cons, findRule_paths root check level dir paths, findRule_addRulesOf]
    simp only [List.mem_cons]
    by_cases hblank : (stringtrim dir).length = 0
    · simp [hblank]
    · by_cases hpath : path = dir
      · simp [hblank, hpath]
      · have hne : ¬ dir = path := fun h => hpath h.symm
        simp [hblank, hpath, hne]

theorem findRule_checks (root : Setting) (level : Level) (dir : Str) : ∀ (checks : List Setting) (a : Alerter),
    (checks.foldl (fun a check => (pathsOf check).foldl (addRulesOf root check) a) a).findRule level.code dir =
      (if (stringtrim dir).length = 0 then none
        else (checks.reverse.find? (fun check => (pathsOf check).contains dir)).map
          (fun check => alertsFor root check level)).or (a.findRule level.code dir)
  | [], a => by simp
  | check :: checks, a => by
    rw [List.foldl_cons, findRule_checks root level dir checks, findRule_paths, List.reverse_cons, List.find?_append]
    by_cases hblank : (stringtrim dir).length = 0
    · simp [hblank]
    · cases checks.reverse.find? (fun check => (pathsOf check).contains dir) with
      | some c => simp [hblank]
      | none => by_cases hc : dir ∈ pathsOf check <;> simp [hblank, hc]

theorem findRule_rulesOf (root : Setting) (a : Alerter) (level : Level) (dir : Str) :
    (rulesOf root a).findRule level.code dir = (configured root level dir).or (a.findRule level.code dir) :=
  findRule_checks root level dir _ a

theorem actions_rulesOf (root : Setting) (a : Alerter) : (rulesOf root a).actions = a.actions := by
  have hrule : ∀ (a : Alerter) (level : Level) (dir : Str) (type : List Str),
      (a.addRule level.code dir type).actions = a.actions := fun a level dir type => by
    unfold Alerter.addRule
    split <;> rfl
  have hpaths : ∀ (check : Setting) (paths : List Str) (a : Alerter),
      (paths.foldl (addRulesOf root check) a).actions = a.actions := fun check paths => by
    induction paths with
    | nil => exact fun _ => rfl
    | cons path paths ih =>
      intro a
      rw [List.foldl_cons, ih, addRulesOf, hrule, hrule, hrule]
  have hchecks : ∀ (checks : List Setting) (a : Alerter),
      (checks.foldl (fun a check => (pathsOf check).foldl (addRulesOf root check) a) a).actions = a.actions := fun checks => by
    induction checks with
    | nil => exact fun _ => rfl
    | cons check checks ih =>
      intro a
      rw [List.foldl_cons, ih, hpaths]
  exact hchecks _ a

/-- **Which actions an alert calls, read off the configuration**: the first string of the walk up from the directory that the
configuration gives a list for, and of that list the actions that are registered. -/
theorem loadConf_alert (file : Except FileError Setting) (l l' : Loaded) (h : loadConf file l = (.returns 0, l'))
    (hfresh : ∀ key, l.alerter.conf key = none) : ∃ root, file = .ok root ∧ ∀ (level : Level) (dir name : Str),
      l'.alerter.alert level.code dir name =
        ((((visited dir).findSome? (configured root level)).getD []).filter l.alerter.actions.contains).map
          (fun it => ⟨it, level.code, dir, name⟩) := by
  obtain ⟨root, hfile, rfl⟩ := conf_of_returns h
  refine ⟨root, hfile, fun level dir name => ?_⟩
  have hfind : (confOf root l).alerter.findRule level.code = configured root level := by
    funext dir
    rw [confOf, findRule_rulesOf, Alerter.findRule, hfresh, Option.or_none]
  have hactions : (confOf root l).alerter.actions = l.alerter.actions := actions_rulesOf root l.alerter
  rw [Alerter.alert, lookUp_eq, hfind, hactions]
  cases (visited dir).findSome? (configured root level) <;> rfl

def texts (ts : List String) : Setting := .array (ts.map (fun t => .string (ascii t)))

/-- Changes are mailed and logged, those of the second check only logged. -/
def twoChecks : Setting := .group
  [(ascii "file_changed_alert", texts ["mail", "log"]), (ascii "alert_interval", .int 30 .decimal),
    (ascii "mail", .group [(ascii "server", .string (ascii "1.1.1.1")), (ascii "from", .string (ascii "abc@xyz.com")),
      (ascii "username", .string (ascii "eXV4")), (ascii "password", .string (ascii "eXV4"))]),
    (ascii "checks", .list [.group [(ascii "path", texts ["/home/dir", "/home/code"])],
      .group [(ascii "path", texts ["/home/code"]), (ascii "file_changed_alert", texts ["log"])]])]

def noneLoaded : Loaded := ⟨⟨[], [], [], [], []⟩, initAction newAlerter, 0, [], [], [], []⟩

theorem twoChecks_alert : ∃ l', loadConf (.ok twoChecks) noneLoaded = (.returns 0, l') ∧
    ∃ root, (Except.ok twoChecks : Except FileError Setting) = .ok root ∧ ∀ (level : Level) (dir name : Str),
      l'.alerter.alert level.code dir name =
        ((((visited dir).findSome? (configured root level)).getD []).filter noneLoaded.alerter.actions.contains).map
          (fun it => ⟨it, level.code, dir, name⟩) :=
  ⟨_, rfl, loadConf_alert (.ok twoChecks) noneLoaded _ rfl (fun _ => rfl)⟩

example : (visited (ascii "/home/code")).findSome? (configured twoChecks .changed) = some [ascii "log"] := by decide

/-! ## What a start scans -/

def Loaded.config (l : Loaded) (iterate : RegMap → RegMap) (matchRegex : Str → Str → Bool) : Config :=
  ⟨iterate l.ignore, iterate l.grep, matchRegex, l.interval⟩

def Loaded.scanEnv (l : Loaded) (fs : FileSys) : ScanEnv := ⟨fs, l.filter, false, 0⟩

def Loaded.roots (l : Loaded) : List (Str × Bool) := l.added.map (fun d => (d.dir, decide (d.recursive ≠ 0)))

/-- The calls of `add_dir` are the roots of the typed checks. -/
theorem roots_addDirsOf (root : Setting) :
    (addDirsOf root).map (fun d => (d.dir, decide (d.recursive ≠ 0))) = rootsOf (checksOf root) := by
  have hall : ∀ checks : List Setting, ((checks.filter pathed).flatMap (fun check => (pathsOf check).map (fun path =>
      (path, decide (check.lookupInt (ascii "recursive") 0 ≠ 0))))) = rootsOf (checks.map checkOf) := fun checks => by
    induction checks with
    | nil => rfl
    | cons check checks ih =>
      cases hp : pathed check with
      | true =>
        have hpath : (checkOf check).path = some (pathsOf check) := if_pos hp
        rw [List.filter_cons_of_pos hp, List.flatMap_cons, ih, List.map_cons, rootsOf, rootsOf, List.flatMap_cons, hpath]
        rfl
      | false =>
        have hpath : (checkOf check).path = none := if_neg (by rw [hp]; decide)
        rw [List.filter_cons_of_neg (by rw [hp]; decide), ih, List.map_cons, rootsOf, rootsOf, List.flatMap_cons, hpath]
        rfl
  rw [addDirsOf, List.map_flatMap, checksOf, ← hall]
  simp only [List.map_map, Function.comp_def]

theorem isSome_path (check : Setting) : (checkOf check).path.isSome = pathed check := by
  unfold checkOf
  cases pathed check <;> rfl

theorem mem_checksOf (root : Setting) (check : Check) :
    check ∈ checksOf root ↔ ∃ setting ∈ settingChecks root, checkOf setting = check := List.mem_map

/-- **The loaders over the settings are the loaders over the typed checks.** -/
theorem conf_typed (root : Setting) (l : Loaded) (hignore : l.ignore = []) (hgrep : l.grep = []) (hfilter : l.filter = [])
    (hadded : l.added = []) (iterate : RegMap → RegMap) (matchRegex : Str → Str → Bool) (fs : FileSys) :
    (confOf root l).config iterate matchRegex =
        CheckRealtime.loadJudge iterate matchRegex (intOf root (ascii "alert_interval")) (checksOf root) ∧
      (confOf root l).scanEnv fs = scanEnvOf fs (checksOf root) ∧ (confOf root l).roots = rootsOf (checksOf root) := by
  refine ⟨?_, ?_, ?_⟩
  · unfold Loaded.config confOf CheckRealtime.loadJudge
    rw [hignore, hgrep]
  · unfold Loaded.scanEnv confOf scanEnvOf
    rw [hfilter]
  · rw [← roots_addDirsOf, Loaded.roots, confOf, hadded, List.nil_append]

/-- From a path of a check a way leads to the directory, down through subdirectories where `recursive` is a number other
than 0, on which no filter of any check with a `path` stands; and the directory opens. -/
def Configured (root : Setting) (fs : FileSys) (dir : Str) : Prop :=
  ∃ way, (∃ check ∈ settingChecks root, pathed check = true ∧ ∃ path ∈ pathsOf check,
      Way fs (decide (check.lookupInt (ascii "recursive") 0 ≠ 0)) path dir way) ∧
    isDir fs dir = true ∧ (fs.opendir dir).isSome = true ∧
    ∀ p ∈ way, ∀ check ∈ settingChecks root, pathed check = true → p = [] ∨ p ∉ strings (check.get (ascii "filter"))

theorem scanned_conf_iff (root : Setting) (l : Loaded)
    (hfresh : l.ignore = [] ∧ l.grep = [] ∧ l.filter = [] ∧ l.added = []) (fs : FileSys) (dir : Str) :
    Scanned ((confOf root l).scanEnv fs) (confOf root l).roots dir ↔ Configured root fs dir := by
  obtain ⟨hignore, hgrep, hfilter, hadded⟩ := hfresh
  obtain ⟨-, henv, hroots⟩ := conf_typed root l hignore hgrep hfilter hadded id (fun _ _ => false) fs
  have hfree : ∀ p : Str, p ∉ (scanEnvOf fs (checksOf root)).filter ↔ ∀ check ∈ settingChecks root, pathed check = true →
      p = [] ∨ p ∉ strings (check.get (ascii "filter")) := by
    intro p
    rw [scanEnvOf, mem_loadExcludedDir]
    simp only [List.not_mem_nil, false_or, mem_checksOf, Check.Excludes, not_exists, not_and]
    constructor
    · intro h check hc hp
      by_cases hmem : p ∈ strings (check.get (ascii "filter"))
      · exact Or.inl (not_not.1 (h _ ⟨check, hc, rfl⟩ (by rw [isSome_path, hp]) hmem))
      · exact Or.inr hmem
    · rintro h _ ⟨check, hc, rfl⟩ hp hmem
      rw [isSome_path] at hp
      exact not_not.2 ((h check hc hp).resolve_right (not_not.2 hmem))
  have hway : ∀ way, (∃ r ∈ rootsOf (checksOf root), Way fs r.2 r.1 dir way) ↔
      ∃ check ∈ settingChecks root, pathed check = true ∧ ∃ path ∈ pathsOf check,
        Way fs (decide (check.lookupInt (ascii "recursive") 0 ≠ 0)) path dir way := by
    intro way
    rw [← roots_addDirsOf, addDirsOf]
    simp only [List.mem_map, List.mem_flatMap, List.mem_filter]
    constructor
    · rintro ⟨r, ⟨d, ⟨check, ⟨hc, hp⟩, path, hpath, rfl⟩, rfl⟩, hway⟩
      exact ⟨check, hc, hp, path, hpath, hway⟩
    · rintro ⟨check, hc, hp, path, hpath, hway⟩
      exact ⟨_, ⟨_, ⟨check, ⟨hc, hp⟩, path, hpath, rfl⟩, rfl⟩, hway⟩
  rw [henv, hroots, scanned_iff_way]
  refine exists_congr (fun way => ?_)
  rw [← and_assoc, ← and_assoc, and_assoc (c := _ = true)]
  exact and_congr (and_congr_left' (hway way)) (forall₂_congr (fun p _ => hfree p))

/-- **Which directories a start puts under watch, read off the settings**: the scan of the configured roots ends, and the
watches are those the kernel gave for the configured directories. -/
theorem loadConf_scanned {σ : Type} (file : Except FileError Setting) (l l' : Loaded)
    (h : loadConf file l = (.returns 0, l')) (hfresh : l.ignore = [] ∧ l.grep = [] ∧ l.filter = [] ∧ l.added = [])
    (fs : FileSys) (hfs : fs.Sound) (hroom : HasRoom (l'.scanEnv fs) l'.roots) (C : Config) (D : DbOps σ)
    (clock : Nat → Int) (db : σ) :
    ∃ root w, file = .ok root ∧ (∃ k, ∀ fuel, k ≤ fuel →
        CheckRealtime.loadWatcher (l'.scanEnv fs) C D clock fuel l'.roots (newWatcher db) = some w) ∧
      ∀ wd dir, (wd, dir) ∈ w.watches ↔ Configured root fs dir ∧ fs.addWatch dir = some wd := by
  obtain ⟨root, hfile, rfl⟩ := conf_of_returns h
  refine ⟨root, _, hfile, ⟨(entriesOf ((confOf root l).scanEnv fs) (confOf root l).roots).length + 1, fun fuel hfuel =>
    loadWatcher_eq _ C D clock hfs hroom fuel _ (by omega)⟩, fun wd dir => ?_⟩
  rw [mem_watches_iff _ C D clock hfs (Int.le_refl 0) _ hroom db wd dir, scanned_conf_iff root l hfresh]
  rfl

/-- `/home/dir` holds the file `f`, the directory `d` with a file, and the directory `tmp`. -/
def homeFs : FileSys where
  lstat p    :=
    if p = ascii "/home/dir" ∨ p = ascii "/home/dir/d" ∨ p = ascii "/home/dir/tmp" then .ok ⟨0, 0o040755, 0, 0⟩
    else if p = ascii "/home/dir/f" ∨ p = ascii "/home/dir/d/g" then .ok ⟨0, 0o100644, 0, 0⟩ else .error ENOENT
  opendir p  :=
    if p = ascii "/home/dir" then some [ascii ".", ascii "f", ascii "d", ascii "..", ascii "tmp"]
    else if p = ascii "/home/dir/d" then some [ascii "g", ascii ".", ascii ".."]
    else if p = ascii "/home/dir/tmp" then some [ascii ".", ascii ".."] else none
  reading _  := .digest .zero
  addWatch p :=
    if p = ascii "/home/dir" then some 1 else if p = ascii "/home/dir/d" then some 2
    else if p = ascii "/home/dir/tmp" then some 3 else none

theorem homeFs_opendir {dir : Str} {names : List Str} (h : homeFs.opendir dir = some names) : dir.length ≤ 13 ∧
    ∀ n ∈ names, n ≠ [] ∧ slash ∉ n ∧ n.length ≤ 255 := by
  simp only [homeFs] at h
  split at h
  · rename_i hdir
    rw [hdir, ← Option.some.inj h]
    decide
  · split at h
    · rename_i hdir
      rw [hdir, ← Option.some.inj h]
      decide
    · split at h
      · rename_i hdir
        rw [hdir, ← Option.some.inj h]
        decide
      · cases h

theorem homeFs_sound : homeFs.Sound where
  emptyLstat := by decide
  emptyOpendir := by decide
  short path st h := by
    simp only [homeFs] at h
    split at h
    · rename_i hp
      rcases hp with rfl | rfl | rfl <;> decide
    · split at h
      · rename_i hp
        rcases hp with rfl | rfl <;> decide
      · cases h
  names dir names n h hn := (homeFs_opendir h).2 n hn

/-- One check of `/home/dir`, with its subdirectories but `tmp`, and one of a directory that is not there. -/
def homeChecks : Setting := .group
  [(ascii "mail", .group [(ascii "server", .string (ascii "1.1.1.1")), (ascii "from", .string (ascii "abc@xyz.com")),
      (ascii "username", .string (ascii "eXV4")), (ascii "password", .string (ascii "eXV4"))]),
    (ascii "checks", .list
      [.group [(ascii "path", texts ["/home/dir"]), (ascii "recursive", .int 1 .decimal),
        (ascii "filter", texts ["/home/dir/tmp"])], .group [(ascii "path", texts ["/home/code"])]])]

theorem homeChecks_scanned : ∃ l' w, loadConf (.ok homeChecks) noneLoaded = (.returns 0, l') ∧
    (∃ k, ∀ fuel, k ≤ fuel →
      CheckRealtime.loadWatcher (l'.scanEnv homeFs) plainConfig mapDb (fun _ => 5) fuel l'.roots (newWatcher fun _ => none) =
        some w) ∧
    (1, ascii "/home/dir") ∈ w.watches ∧ (2, ascii "/home/dir/d") ∈ w.watches ∧
    ∀ wd, (wd, ascii "/home/dir/tmp") ∉ w.watches := by
  obtain ⟨root, w, hroot, hends, hw⟩ := loadConf_scanned (.ok homeChecks) noneLoaded _ rfl ⟨rfl, rfl, rfl, rfl⟩ homeFs
    homeFs_sound (fun dir names n _ hopen _ _ => Nat.le_trans (homeFs_opendir hopen).1 (by decide)) plainConfig mapDb
    (fun _ => 5) (fun _ => none)
  cases hroot
  refine ⟨_, w, rfl, hends, (hw _ _).2 ⟨⟨[ascii "/home/dir"], ?_, by decide, by decide, by decide⟩, by decide⟩,
    (hw _ _).2 ⟨⟨[ascii "/home/dir", ascii "/home/dir/d"], ?_, by decide, by decide, by decide⟩, by decide⟩, fun wd hmem => ?_⟩
  · exact ⟨_, List.mem_cons_self, by decide, _, by decide, .root⟩
  · exact ⟨_, List.mem_cons_self, by decide, ascii "/home/dir", by decide, .down .root (by unfold Walk.Step; decide)⟩
  · obtain ⟨⟨way, ⟨check, -, -, path, -, hway⟩, -, -, hfree⟩, -⟩ := (hw wd _).1 hmem
    exact absurd (hfree _ hway.mem _ List.mem_cons_self (by decide)) (by decide)

end CheckRealtime.LoadConf
