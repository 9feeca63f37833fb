import CheckRealtime.Alerter
import CheckRealtime.Checks
import CheckRealtime.Mailman
import CheckRealtime.Setting
/-!
# LoadConf — `load_conf` of `monitor.cpp`

`load_conf` walks over the settings four times, and scans as it goes over them the last time.  `does_attempt` says exactly
which trees it accepts and what it has set by then, in terms of the typed checks the rest of the development works with; a
tree it does not accept is found out before the first `add_dir` (`loadConf_spec`).
-/
namespace CheckRealtime.LoadConf

open Throwing

/-- A call of `add_dir`. -/
structure AddDir where
  dir           : Str
  recursive     : Int
  sleepCount    : Int
  sleepInterval : Int
deriving DecidableEq

/-- What `load_conf` sets: the global `mailman`, the alerter and the judge, `_filter` and the calls of `add_dir`. -/
structure Loaded where
  mailman  : Mailman
  alerter  : Alerter
  interval : Int
  ignore   : RegMap
  grep     : RegMap
  filter   : List Str
  added    : List AddDir

inductive FileError where
  | fileIO | parse
deriving DecidableEq

abbrev Loader := Prog ConfigException Loaded Unit

/-! ## The source -/

def setting2strvec (setting : Setting) (name : Str) : Except ConfigException (List Str) :=
  if !setting.exists_ name then pure []
  else do
    let set ← setting.key name
    (List.range set.getLength).mapM (fun n => set.index n >>= Setting.toStr)

def lowerFirst (low high : List Str) : List Str := if low.length ≠ 0 then low else high

def getIntValue (root : Setting) (name : Str) (val : Int) : Except ConfigException Int :=
  if root.exists_ name then root.key name >>= Setting.toInt else pure val

def loadMailman (root : Setting) : Loader := do
  let mail ← lift (root.key (ascii "mail"))
  let server ← lift (mail.key (ascii "server") >>= Setting.toStr)
  set (fun l => { l with mailman := { l.mailman with smtpserver := server } })
  let sender ← lift (mail.key (ascii "from") >>= Setting.toStr)
  set (fun l => { l with mailman := { l.mailman with from_ := sender } })
  let to_ ← lift (setting2strvec mail (ascii "to"))
  set (fun l => { l with mailman := { l.mailman with to_ := to_ } })
  let username ← lift (mail.key (ascii "username") >>= Setting.toStr)
  set (fun l => { l with mailman := { l.mailman with username := username } })
  let password ← lift (mail.key (ascii "password") >>= Setting.toStr)
  set (fun l => { l with mailman := { l.mailman with password := password } })

/-- The loop over the checks; one without `path` is passed over. -/
def forChecks (root : Setting) (body : Setting → Loader) : Loader := do
  let checks ← lift (root.key (ascii "checks"))
  (List.range checks.getLength).forM fun i => do
    let check ← lift (checks.index i)
    if !check.exists_ (ascii "path") then pure () else body check

/-- The loop over the paths of a check. -/
def forPaths (check : Setting) (body : Str → Loader) : Loader := do
  let paths ← lift (check.key (ascii "path"))
  (List.range paths.getLength).forM fun n => do
    let path ← lift (paths.index n >>= Setting.toStr)
    body path

def addRule (level : Level) (dir : Str) (type : List Str) : Loader :=
  set (fun l => { l with alerter := l.alerter.addRule level.code dir type })

/-- The body of the loop in `load_alerter`. -/
def checkAlerts (fileCreatedAlert fileChangedAlert fileDeletedAlert : List Str) (check : Setting) : Loader := do
  let checkCreatedAlert ← lift (setting2strvec check (ascii "file_created_alert"))
  let checkChangedAlert ← lift (setting2strvec check (ascii "file_changed_alert"))
  let checkDeletedAlert ← lift (setting2strvec check (ascii "file_deleted_alert"))
  forPaths check fun path => do
    addRule .created path (lowerFirst checkCreatedAlert fileCreatedAlert)
    addRule .changed path (lowerFirst checkChangedAlert fileChangedAlert)
    addRule .deleted path (lowerFirst checkDeletedAlert fileDeletedAlert)

def loadAlerter (root : Setting) : Loader := do
  let fileCreatedAlert ← lift (setting2strvec root (ascii "file_created_alert"))
  let fileChangedAlert ← lift (setting2strvec root (ascii "file_changed_alert"))
  let fileDeletedAlert ← lift (setting2strvec root (ascii "file_deleted_alert"))
  forChecks root (checkAlerts fileCreatedAlert fileChangedAlert fileDeletedAlert)

/-- The body of the loop in `load_judge`. -/
def checkRegexes (check : Setting) : Loader := do
  let filter ← lift (setting2strvec check (ascii "filter"))
  let grep ← lift (setting2strvec check (ascii "grep"))
  forPaths check fun path => do
    set (fun l => { l with ignore := addRegexes l.ignore path filter })
    set (fun l => { l with grep := addRegexes l.grep path grep })

def loadJudge (root : Setting) : Loader := do
  let interval ← lift (getIntValue root (ascii "alert_interval") 0)
  set (fun l => { l with interval := toInt (interval * 60) })
  forChecks root checkRegexes

/-- The body of the loop in `load_excluded_dir`. -/
def checkExcluded (check : Setting) : Loader := do
  let filter ← lift (setting2strvec check (ascii "filter"))
  set (fun l => { l with filter := excludeDir l.filter filter })

def loadExcludedDir (root : Setting) : Loader := forChecks root checkExcluded

/-- The body of the loop in `load_watcher`. -/
def addDirs (sleepCount sleepInterval : Int) (check : Setting) : Loader :=
  let recursive := check.lookupInt (ascii "recursive") 0
  forPaths check fun path =>
    set (fun l => { l with added := l.added ++ [⟨path, recursive, sleepCount, sleepInterval⟩] })

def loadWatcher (root : Setting) : Loader := do
  loadExcludedDir root
  let sleepInterval ← lift (getIntValue root (ascii "sleep_interval") 0)
  let sleepCount ← lift (getIntValue root (ascii "sleep_count") 0)
  forChecks root (addDirs sleepCount sleepInterval)

/-- What stands in the `try` after `readFile`. -/
def attempt (root : Setting) : Loader := do
  loadMailman root
  loadAlerter root
  loadJudge root
  loadWatcher root

inductive Exit where
  | returns (rc : Int)
  /-- `std::terminate`: no handler takes a `SettingTypeException`. -/
  | terminates
deriving DecidableEq

def caught : ConfigException → Exit
  | .settingNotFound => .returns (-1)
  | .settingType     => .terminates

def initAction (a : Alerter) : Alerter := (a.addAction (ascii "mail")).addAction (ascii "log")

def loadConf (file : Except FileError Setting) (l : Loaded) : Exit × Loaded :=
  match file with
  | .error _ => (.returns (-1), l)
  | .ok root =>
    match Throwing.exec (attempt root) l with
    | (.ok _, l')    => (.returns 0, l')
    | (.error e, l') => (caught e, l')

/-! ## The typed configuration -/

/-- The elements of a setting, as strings. -/
def strings (s : Setting) : List Str := s.elements.map Setting.stringD

def AllStrings (s : Setting) : Prop := ∀ e ∈ s.elements, e.isString = true

def pathed (check : Setting) : Bool := check.exists_ (ascii "path")

def pathsOf (check : Setting) : List Str := strings (check.get (ascii "path"))

def checkOf (check : Setting) : Check where
  path      := if pathed check then some (pathsOf check) else none
  recursive := decide (check.lookupInt (ascii "recursive") 0 ≠ 0)
  filter    := strings (check.get (ascii "filter"))
  grep      := strings (check.get (ascii "grep"))

def settingChecks (root : Setting) : List Setting := (root.get (ascii "checks")).elements

def checksOf (root : Setting) : List Check := (settingChecks root).map checkOf

def mailOf (root : Setting) : Mailman :=
  let mail := root.get (ascii "mail")
  { smtpserver := (mail.get (ascii "server")).stringD
    from_      := (mail.get (ascii "from")).stringD
    to_        := strings (mail.get (ascii "to"))
    username   := (mail.get (ascii "username")).stringD
    password   := (mail.get (ascii "password")).stringD }

def alertName : Level → Str
  | .created => ascii "file_created_alert"
  | .changed => ascii "file_changed_alert"
  | .deleted => ascii "file_deleted_alert"

/-- The actions of a level, of the check or else of the whole configuration. -/
def alertsFor (root check : Setting) (level : Level) : List Str :=
  lowerFirst (strings (check.get (alertName level))) (strings (root.get (alertName level)))

def addRulesOf (root check : Setting) (a : Alerter) (path : Str) : Alerter :=
  ((a.addRule Level.created.code path (alertsFor root check .created)).addRule Level.changed.code path
    (alertsFor root check .changed)).addRule Level.deleted.code path (alertsFor root check .deleted)

def rulesOf (root : Setting) (a : Alerter) : Alerter :=
  ((settingChecks root).filter pathed).foldl (fun a check => (pathsOf check).foldl (addRulesOf root check) a) a

def intOf (root : Setting) (name : Str) : Int := (root.get name).intD

def addDirsOf (root : Setting) : List AddDir :=
  ((settingChecks root).filter pathed).flatMap (fun check => (pathsOf check).map (fun path =>
    ⟨path, check.lookupInt (ascii "recursive") 0, intOf root (ascii "sleep_count"), intOf root (ascii "sleep_interval")⟩))

/-- What `load_conf` leaves. -/
def confOf (root : Setting) (l : Loaded) : Loaded where
  mailman  := mailOf root
  alerter  := rulesOf root l.alerter
  interval := toInt (intOf root (ascii "alert_interval") * 60)
  ignore   := loadRegexes Check.filter (checksOf root) l.ignore
  grep     := loadRegexes Check.grep (checksOf root) l.grep
  filter   := CheckRealtime.loadExcludedDir (checksOf root) l.filter
  added    := l.added ++ addDirsOf root

/-! ## What is accepted -/

def HasString (s : Setting) (name : Str) : Prop := s.exists_ name = true ∧ (s.get name).isString = true

structure MailFits (root : Setting) : Prop where
  mail     : root.exists_ (ascii "mail") = true
  server   : HasString (root.get (ascii "mail")) (ascii "server")
  sender   : HasString (root.get (ascii "mail")) (ascii "from")
  to_      : AllStrings ((root.get (ascii "mail")).get (ascii "to"))
  username : HasString (root.get (ascii "mail")) (ascii "username")
  password : HasString (root.get (ascii "mail")) (ascii "password")

/-- The three lists of actions. -/
def AlertsFit (s : Setting) : Prop := ∀ level : Level, AllStrings (s.get (alertName level))

structure CheckFits (check : Setting) : Prop where
  path   : AllStrings (check.get (ascii "path"))
  alerts : AlertsFit check
  filter : AllStrings (check.get (ascii "filter"))
  grep   : AllStrings (check.get (ascii "grep"))

def IntFits (root : Setting) (name : Str) : Prop := root.exists_ name = true → (root.get name).isInt = true

structure Accepted (root : Setting) : Prop where
  mail          : MailFits root
  alerts        : AlertsFit root
  checks        : root.exists_ (ascii "checks") = true
  each          : ∀ check ∈ settingChecks root, pathed check = true → CheckFits check
  interval      : IntFits root (ascii "alert_interval")
  sleepInterval : IntFits root (ascii "sleep_interval")
  sleepCount    : IntFits root (ascii "sleep_count")

/-! ## What the readers read -/

theorem exists_of_elements {s : Setting} {name : Str} (h : s.exists_ name = false) : (s.get name).elements = [] := by
  unfold Setting.exists_ at h
  rw [Setting.get, Option.isSome_eq_false_iff.1 h |> Option.isNone_iff_eq_none.1]
  rfl

/-- A name that is there is found. -/
theorem key_ok {s : Setting} {name : Str} (h : s.exists_ name = true) : s.key name = .ok (s.get name) :=
  (Setting.reads_key s name).ok h

/-- Whether the name is there or not, the strings of what it names. -/
theorem setting2strvec_eq (s : Setting) (name : Str) : setting2strvec s name = (s.get name).elements.mapM Setting.toStr := by
  unfold setting2strvec
  cases h : s.exists_ name with
  | false =>
    rw [exists_of_elements h]
    rfl
  | true =>
    rw [key_ok h]
    exact mapM_range Setting.toStr _ _ (fun i e he => by rw [Setting.index_eq _ i e he]; rfl)

theorem reads_setting2strvec (s : Setting) (name : Str) :
    Reads (setting2strvec s name) (AllStrings (s.get name)) (strings (s.get name)) := by
  rw [setting2strvec_eq]
  exact Reads.mapM Setting.reads_toStr _

theorem reads_string (s : Setting) (name : Str) :
    Reads (s.key name >>= Setting.toStr) (HasString s name) (s.get name).stringD :=
  (Setting.reads_key s name).bind (fun _ => Setting.reads_toStr _)

theorem reads_getIntValue (root : Setting) (name : Str) :
    Reads (getIntValue root name 0) (IntFits root name) (intOf root name) := by
  unfold getIntValue
  cases h : root.exists_ name with
  | false =>
    have hnone : intOf root name = 0 := by
      unfold Setting.exists_ at h
      rw [intOf, Setting.get, Option.isSome_eq_false_iff.1 h |> Option.isNone_iff_eq_none.1]
      rfl
    rw [hnone]
    exact (Reads.pure 0).congr ⟨fun _ ht => (by rw [h] at ht; cases ht), fun _ => trivial⟩
  | true =>
    refine ((Setting.reads_key root name).bind (fun _ => Setting.reads_toInt _)).congr ⟨fun hc _ => hc.2, fun hi => ⟨h, hi h⟩⟩

/-! ## What the loaders do -/

theorem does_loadMailman (root : Setting) :
    Does (loadMailman root) (MailFits root) (fun l => { l with mailman := mailOf root }) := by
  have h : Does (loadMailman root) _ _ := Does.read (Setting.reads_key root _) (fun _ =>
    Does.read (reads_string _ _) (fun _ => (Does.set _).then (fun _ =>
    Does.read (reads_string _ _) (fun _ => (Does.set _).then (fun _ =>
    Does.read (reads_setting2strvec _ _) (fun _ => (Does.set _).then (fun _ =>
    Does.read (reads_string _ _) (fun _ => (Does.set _).then (fun _ =>
    Does.read (reads_string _ _) (fun _ => Does.set _))))))))))
  refine h.congr ⟨?_, ?_⟩ (fun _ => rfl)
  · rintro ⟨h, hserver, -, hsender, -, hto, -, husername, -, hpassword, -⟩
    exact ⟨h, hserver, hsender, hto, husername, hpassword⟩
  · rintro ⟨h, hserver, hsender, hto, husername, hpassword⟩
    exact ⟨h, hserver, trivial, hsender, trivial, hto, trivial, husername, trivial, hpassword, trivial⟩

theorem does_forPaths (check : Setting) (hp : pathed check = true) {body : Str → Loader} {f : Str → Loaded → Loaded}
    (h : ∀ path, Does (body path) True (f path)) :
    Does (forPaths check body) (AllStrings (check.get (ascii "path")))
      (fun l => (pathsOf check).foldl (fun l path => f path l) l) := by
  have hbody : ∀ e : Setting, Does (lift e.toStr >>= body) (e.isString = true) (f e.stringD) := fun e =>
    (Does.read (Setting.reads_toStr e) (fun _ => h _)).congr (and_iff_left trivial) (fun _ => rfl)
  have hread : Does (forPaths check body) _ _ := Does.read (Setting.reads_key check _) (fun _ =>
    Does.forIndices (check.get (ascii "path")).elements _ (fun i e he => by rw [Setting.index_eq _ i e he]; rfl) hbody)
  refine hread.congr ⟨fun hc => hc.2, fun hs => ⟨hp, hs⟩⟩ (fun l => ?_)
  rw [pathsOf, strings, List.foldl_map]

theorem does_forChecks (root : Setting) {body : Setting → Loader} {c : Setting → Prop} {f : Setting → Loaded → Loaded}
    (h : ∀ check, pathed check = true → Does (body check) (c check) (f check)) :
    Does (forChecks root body)
      (root.exists_ (ascii "checks") = true ∧ ∀ check ∈ settingChecks root, pathed check = true → c check)
      (fun l => ((settingChecks root).filter pathed).foldl (fun l check => f check l) l) := by
  have hbody : ∀ check : Setting, Does (if !check.exists_ (ascii "path") then pure () else body check : Loader)
      (pathed check = true → c check) (fun l => if pathed check then f check l else l) := by
    intro check
    cases hp : pathed check with
    | false =>
      rw [← pathed, hp]
      exact Does.pure.congr ⟨fun _ ht => (by cases ht), fun _ => trivial⟩ (fun _ => rfl)
    | true =>
      rw [← pathed, hp]
      exact (h check hp).congr ⟨fun hc _ => hc, fun hc => hc rfl⟩ (fun _ => rfl)
  have hread : Does (forChecks root body) _ _ := Does.read (Setting.reads_key root _) (fun _ =>
    Does.forIndices (root.get (ascii "checks")).elements _ (fun i e he => by rw [Setting.index_eq _ i e he]; rfl) hbody)
  refine hread.congr Iff.rfl (fun l => ?_)
  rw [settingChecks, List.foldl_filter]

theorem alertsFit_iff (s : Setting) : AlertsFit s ↔ AllStrings (s.get (ascii "file_created_alert")) ∧
    AllStrings (s.get (ascii "file_changed_alert")) ∧ AllStrings (s.get (ascii "file_deleted_alert")) := by
  constructor
  · intro h
    exact ⟨h .created, h .changed, h .deleted⟩
  · rintro ⟨hcreated, hchanged, hdeleted⟩ level
    cases level with
    | created => exact hcreated
    | changed => exact hchanged
    | deleted => exact hdeleted

theorem does_checkAlerts (root check : Setting) (hp : pathed check = true) :
    Does (checkAlerts (strings (root.get (ascii "file_created_alert"))) (strings (root.get (ascii "file_changed_alert")))
        (strings (root.get (ascii "file_deleted_alert"))) check)
      (AlertsFit check ∧ AllStrings (check.get (ascii "path")))
      (fun l => { l with alerter := (pathsOf check).foldl (addRulesOf root check) l.alerter }) := by
  have hrules : ∀ path : Str, Does (do
      addRule .created path (alertsFor root check .created)
      addRule .changed path (alertsFor root check .changed)
      addRule .deleted path (alertsFor root check .deleted) : Loader) True
      (fun l => { l with alerter := addRulesOf root check l.alerter path }) := fun path =>
    ((Does.set _).then (fun _ => (Does.set _).then (fun _ => Does.set _))).congr (by simp) (fun _ => rfl)
  have h : Does (checkAlerts _ _ _ check) _ _ := Does.read (reads_setting2strvec check _) (fun _ =>
    Does.read (reads_setting2strvec check _) (fun _ => Does.read (reads_setting2strvec check _) (fun _ =>
    does_forPaths check hp hrules)))
  refine h.congr ?_ (fun l => ?_)
  · rw [alertsFit_iff, and_assoc, and_assoc]
  · exact foldl_field Loaded.alerter (fun a l => { l with alerter := a }) (fun path a => addRulesOf root check a path)
      (fun _ _ => rfl) (fun _ _ _ => rfl) (fun _ => rfl) _ l

theorem does_loadAlerter (root : Setting) : Does (loadAlerter root)
    (AlertsFit root ∧ root.exists_ (ascii "checks") = true ∧
      ∀ check ∈ settingChecks root, pathed check = true → AlertsFit check ∧ AllStrings (check.get (ascii "path")))
    (fun l => { l with alerter := rulesOf root l.alerter }) := by
  have h : Does (loadAlerter root) _ _ := Does.read (reads_setting2strvec root _) (fun _ =>
    Does.read (reads_setting2strvec root _) (fun _ => Does.read (reads_setting2strvec root _) (fun _ =>
    does_forChecks root (does_checkAlerts root))))
  refine h.congr ?_ (fun l => ?_)
  · rw [alertsFit_iff, and_assoc, and_assoc]
  · exact foldl_field Loaded.alerter (fun a l => { l with alerter := a })
      (fun check a => (pathsOf check).foldl (addRulesOf root check) a) (fun _ _ => rfl) (fun _ _ _ => rfl) (fun _ => rfl) _ l

/-- `load_judge` over the settings is `load_judge` over the typed checks. -/
theorem loadRegexes_eq (lists : Check → List Str) : ∀ (checks : List Setting) (regs : RegMap),
    loadRegexes lists (checks.map checkOf) regs = (checks.filter pathed).foldl (fun regs check =>
      (pathsOf check).foldl (fun regs path => addRegexes regs path (lists (checkOf check))) regs) regs
  | [], _ => rfl
  | check :: checks, regs => by
    cases hp : pathed check with
    | true =>
      have hpath : (checkOf check).path = some (pathsOf check) := if_pos hp
      rw [List.map_cons, loadRegexes, hpath, List.filter_cons_of_pos hp, List.foldl_cons]
      exact loadRegexes_eq lists checks _
    | false =>
      have hpath : (checkOf check).path = none := if_neg (by rw [hp]; decide)
      rw [List.map_cons, loadRegexes, hpath, List.filter_cons_of_neg (by rw [hp]; decide)]
      exact loadRegexes_eq lists checks regs

theorem loadExcludedDir_eq : ∀ (checks : List Setting) (filter : List Str),
    CheckRealtime.loadExcludedDir (checks.map checkOf) filter =
      (checks.filter pathed).foldl (fun filter check => excludeDir filter (checkOf check).filter) filter
  | [], _ => rfl
  | check :: checks, filter => by
    cases hp : pathed check with
    | true =>
      have hpath : (checkOf check).path = some (pathsOf check) := if_pos hp
      rw [List.map_cons, CheckRealtime.loadExcludedDir, hpath, List.filter_cons_of_pos hp, List.foldl_cons]
      exact loadExcludedDir_eq checks _
    | false =>
      have hpath : (checkOf check).path = none := if_neg (by rw [hp]; decide)
      rw [List.map_cons, CheckRealtime.loadExcludedDir, hpath, List.filter_cons_of_neg (by rw [hp]; decide)]
      exact loadExcludedDir_eq checks filter

def Loaded.regexes (l : Loaded) : RegMap × RegMap := (l.ignore, l.grep)

def Loaded.withRegexes (regexes : RegMap × RegMap) (l : Loaded) : Loaded :=
  { l with ignore := regexes.1, grep := regexes.2 }

theorem does_checkRegexes (check : Setting) (hp : pathed check = true) : Does (checkRegexes check)
    (AllStrings (check.get (ascii "filter")) ∧ AllStrings (check.get (ascii "grep")) ∧
      AllStrings (check.get (ascii "path")))
    (fun l => l.withRegexes ((pathsOf check).foldl (fun regs path => addRegexes regs path (checkOf check).filter) l.ignore,
      (pathsOf check).foldl (fun regs path => addRegexes regs path (checkOf check).grep) l.grep)) := by
  have hadd : ∀ path : Str, Does (do
      set (fun l : Loaded => { l with ignore := addRegexes l.ignore path (checkOf check).filter })
      set (fun l : Loaded => { l with grep := addRegexes l.grep path (checkOf check).grep }) : Loader) True
      (fun l => l.withRegexes (addRegexes l.regexes.1 path (checkOf check).filter,
        addRegexes l.regexes.2 path (checkOf check).grep)) := fun path =>
    ((Does.set _).then (fun _ => Does.set _)).congr (by simp) (fun _ => rfl)
  have h : Does (checkRegexes check) _ _ := Does.read (reads_setting2strvec check _) (fun _ =>
    Does.read (reads_setting2strvec check _) (fun _ => does_forPaths check hp hadd))
  refine h.congr Iff.rfl (fun l => ?_)
  rw [foldl_field Loaded.regexes Loaded.withRegexes (fun path regs => (addRegexes regs.1 path (checkOf check).filter,
    addRegexes regs.2 path (checkOf check).grep)) (fun _ _ => rfl) (fun _ _ _ => rfl) (fun _ => rfl)]
  exact congrArg l.withRegexes (foldl_pair (fun regs path => addRegexes regs path (checkOf check).filter)
    (fun regs path => addRegexes regs path (checkOf check).grep) (pathsOf check) l.ignore l.grep)

theorem does_loadJudge (root : Setting) : Does (loadJudge root)
    (IntFits root (ascii "alert_interval") ∧ root.exists_ (ascii "checks") = true ∧
      ∀ check ∈ settingChecks root, pathed check = true → AllStrings (check.get (ascii "filter")) ∧
        AllStrings (check.get (ascii "grep")) ∧ AllStrings (check.get (ascii "path")))
    (fun l => { l with
      interval := toInt (intOf root (ascii "alert_interval") * 60)
      ignore   := loadRegexes Check.filter (checksOf root) l.ignore
      grep     := loadRegexes Check.grep (checksOf root) l.grep }) := by
  have h : Does (loadJudge root) _ _ := Does.read (reads_getIntValue root _) (fun _ => (Does.set _).then (fun _ =>
    does_forChecks root does_checkRegexes))
  refine h.congr (by rw [true_and]) (fun l => ?_)
  have hfold := foldl_field Loaded.regexes Loaded.withRegexes (fun check regs =>
    ((pathsOf check).foldl (fun regs path => addRegexes regs path (checkOf check).filter) regs.1,
      (pathsOf check).foldl (fun regs path => addRegexes regs path (checkOf check).grep) regs.2)) (fun _ _ => rfl)
    (fun _ _ _ => rfl) (fun _ => rfl) ((settingChecks root).filter pathed)
    { l with interval := toInt (intOf root (ascii "alert_interval") * 60) }
  refine hfold.trans ?_
  rw [checksOf, loadRegexes_eq, loadRegexes_eq]
  exact congrArg (fun regexes => Loaded.withRegexes regexes _)
    (foldl_pair (fun regs check => (pathsOf check).foldl (fun regs path => addRegexes regs path (checkOf check).filter) regs)
      (fun regs check => (pathsOf check).foldl (fun regs path => addRegexes regs path (checkOf check).grep) regs) _ _ _)

theorem does_loadExcludedDir (root : Setting) : Does (loadExcludedDir root)
    (root.exists_ (ascii "checks") = true ∧
      ∀ check ∈ settingChecks root, pathed check = true → AllStrings (check.get (ascii "filter")))
    (fun l => { l with filter := CheckRealtime.loadExcludedDir (checksOf root) l.filter }) := by
  have hcheck : ∀ check : Setting, pathed check = true → Does (checkExcluded check) (AllStrings (check.get (ascii "filter")))
      (fun l => { l with filter := excludeDir l.filter (checkOf check).filter }) := fun check _ =>
    (Does.read (reads_setting2strvec check _) (fun _ => Does.set _)).congr (and_iff_left trivial) (fun _ => rfl)
  refine (does_forChecks root hcheck).congr Iff.rfl (fun l => ?_)
  rw [checksOf, loadExcludedDir_eq]
  exact foldl_field Loaded.filter (fun filter l => { l with filter := filter })
    (fun check filter => excludeDir filter (checkOf check).filter) (fun _ _ => rfl) (fun _ _ _ => rfl) (fun _ => rfl) _ l

theorem does_addDirs (sleepCount sleepInterval : Int) (check : Setting) (hp : pathed check = true) :
    Does (addDirs sleepCount sleepInterval check) (AllStrings (check.get (ascii "path")))
      (fun l => { l with added := l.added ++ (pathsOf check).map (fun path =>
        ⟨path, check.lookupInt (ascii "recursive") 0, sleepCount, sleepInterval⟩) }) := by
  refine (does_forPaths check hp (fun path => Does.set _)).congr Iff.rfl (fun l => ?_)
  refine (foldl_field Loaded.added (fun added l => { l with added := added }) (fun path added => added ++
    [⟨path, check.lookupInt (ascii "recursive") 0, sleepCount, sleepInterval⟩]) (fun _ _ => rfl) (fun _ _ _ => rfl)
    (fun _ => rfl) (pathsOf check) l).trans ?_
  rw [List.foldl_append_eq_append, ← List.flatMap_def, ← List.map_eq_flatMap]

theorem does_scan (root : Setting) : Does (forChecks root (addDirs (intOf root (ascii "sleep_count"))
      (intOf root (ascii "sleep_interval"))))
    (root.exists_ (ascii "checks") = true ∧
      ∀ check ∈ settingChecks root, pathed check = true → AllStrings (check.get (ascii "path")))
    (fun l => { l with added := l.added ++ addDirsOf root }) := by
  refine (does_forChecks root (does_addDirs _ _)).congr Iff.rfl (fun l => ?_)
  refine (foldl_field Loaded.added (fun added l => { l with added := added }) (fun check added => added ++
    (pathsOf check).map (fun path => ⟨path, check.lookupInt (ascii "recursive") 0, intOf root (ascii "sleep_count"),
      intOf root (ascii "sleep_interval")⟩)) (fun _ _ => rfl) (fun _ _ _ => rfl) (fun _ => rfl) _ l).trans ?_
  rw [List.foldl_append_eq_append, ← List.flatMap_def, addDirsOf]

theorem does_loadWatcher (root : Setting) : Does (loadWatcher root)
    ((root.exists_ (ascii "checks") = true ∧
        ∀ check ∈ settingChecks root, pathed check = true → AllStrings (check.get (ascii "filter"))) ∧
      IntFits root (ascii "sleep_interval") ∧ IntFits root (ascii "sleep_count") ∧ root.exists_ (ascii "checks") = true ∧
        ∀ check ∈ settingChecks root, pathed check = true → AllStrings (check.get (ascii "path")))
    (fun l => { l with
      filter := CheckRealtime.loadExcludedDir (checksOf root) l.filter
      added  := l.added ++ addDirsOf root }) :=
  ((does_loadExcludedDir root).then (fun _ => Does.read (reads_getIntValue root _) (fun _ =>
    Does.read (reads_getIntValue root _) (fun _ => does_scan root)))).congr Iff.rfl (fun _ => rfl)

/-- **What `load_conf` accepts, and what it has set by then.** -/
theorem does_attempt (root : Setting) : Does (attempt root) (Accepted root) (confOf root) := by
  have h : Does (attempt root) _ _ := (does_loadMailman root).then (fun _ => (does_loadAlerter root).then (fun _ =>
    (does_loadJudge root).then (fun _ => does_loadWatcher root)))
  refine h.congr ⟨?_, ?_⟩ (fun _ => rfl)
  · rintro ⟨hmail, ⟨halerts, hchecks, heach⟩, ⟨hinterval, -, hregexes⟩, -, hsleepInterval, hsleepCount, -⟩
    refine ⟨hmail, halerts, hchecks, fun check hc hp => ?_, hinterval, hsleepInterval, hsleepCount⟩
    obtain ⟨ha, hpath⟩ := heach check hc hp
    obtain ⟨hfilter, hgrep, -⟩ := hregexes check hc hp
    exact ⟨hpath, ha, hfilter, hgrep⟩
  · intro h
    exact ⟨h.mail, ⟨h.alerts, h.checks, fun check hc hp => ⟨(h.each check hc hp).alerts, (h.each check hc hp).path⟩⟩,
      ⟨h.interval, h.checks, fun check hc hp =>
        ⟨(h.each check hc hp).filter, (h.each check hc hp).grep, (h.each check hc hp).path⟩⟩,
      ⟨h.checks, fun check hc hp => (h.each check hc hp).filter⟩, h.sleepInterval, h.sleepCount, h.checks,
      fun check hc hp => (h.each check hc hp).path⟩

/-! ## Before the first scan -/

def NoMore (added : List AddDir) (l : Loaded) : Prop := l.added = added

section

variable (added : List AddDir)

theorem keeps_forPaths (check : Setting) {body : Str → Loader} (h : ∀ path, Keeps (NoMore added) (body path)) :
    Keeps (NoMore added) (forPaths check body) :=
  (Keeps.lift _).bind (fun _ => Keeps.forM (fun _ => (Keeps.lift _).bind h) _)

theorem keeps_forChecks (root : Setting) {body : Setting → Loader} (h : ∀ check, Keeps (NoMore added) (body check)) :
    Keeps (NoMore added) (forChecks root body) := by
  refine (Keeps.lift _).bind (fun _ => Keeps.forM (fun _ => (Keeps.lift _).bind (fun check => ?_)) _)
  split
  · exact Keeps.pure ()
  · exact h check

theorem keeps_set {f : Loaded → Loaded} (h : ∀ l, (f l).added = l.added) : Keeps (NoMore added) (set f : Loader) :=
  Keeps.set (fun l hl => (h l).trans hl)

theorem keeps_read {α : Type} (x : Except ConfigException α) {k : α → Loader} (hk : ∀ a, Keeps (NoMore added) (k a)) :
    Keeps (NoMore added) (lift x >>= k) :=
  (Keeps.lift x).bind hk

theorem keeps_then {f : Loaded → Loaded} {q : Loader} (hq : Keeps (NoMore added) q) (h : ∀ l, (f l).added = l.added) :
    Keeps (NoMore added) (set f >>= fun _ => q) :=
  (keeps_set added h).bind (fun _ => hq)

theorem keeps_loadMailman (root : Setting) : Keeps (NoMore added) (loadMailman root) := by
  unfold loadMailman
  apply keeps_read; intro mail
  apply keeps_read; intro server
  refine keeps_then added ?_ (fun _ => rfl)
  apply keeps_read; intro sender
  refine keeps_then added ?_ (fun _ => rfl)
  apply keeps_read; intro to_
  refine keeps_then added ?_ (fun _ => rfl)
  apply keeps_read; intro username
  refine keeps_then added ?_ (fun _ => rfl)
  apply keeps_read; intro password
  exact keeps_set added (fun _ => rfl)

theorem keeps_loadAlerter (root : Setting) : Keeps (NoMore added) (loadAlerter root) := by
  unfold loadAlerter
  apply keeps_read; intro created
  apply keeps_read; intro changed
  apply keeps_read; intro deleted
  apply keeps_forChecks; intro check
  unfold checkAlerts
  apply keeps_read; intro checkCreated
  apply keeps_read; intro checkChanged
  apply keeps_read; intro checkDeleted
  apply keeps_forPaths; intro path
  unfold addRule
  refine keeps_then added ?_ (fun _ => rfl)
  refine keeps_then added ?_ (fun _ => rfl)
  exact keeps_set added (fun _ => rfl)

theorem keeps_loadJudge (root : Setting) : Keeps (NoMore added) (loadJudge root) := by
  unfold loadJudge
  apply keeps_read; intro interval
  refine keeps_then added ?_ (fun _ => rfl)
  apply keeps_forChecks; intro check
  unfold checkRegexes
  apply keeps_read; intro filter
  apply keeps_read; intro grep
  apply keeps_forPaths; intro path
  refine keeps_then added ?_ (fun _ => rfl)
  exact keeps_set added (fun _ => rfl)

theorem keeps_loadExcludedDir (root : Setting) : Keeps (NoMore added) (loadExcludedDir root) := by
  apply keeps_forChecks; intro check
  apply keeps_read; intro filter
  exact keeps_set added (fun _ => rfl)

/-- Whatever is wrong with the settings, the loaders before the scan have met with it. -/
theorem spares_attempt (root : Setting) : Spares (NoMore added) (attempt root) := by
  unfold attempt
  apply Spares.then (does_loadMailman root) (keeps_loadMailman added root); intro _
  apply Spares.then (does_loadAlerter root) (keeps_loadAlerter added root); rintro ⟨-, hchecks, heach⟩
  apply Spares.then (does_loadJudge root) (keeps_loadJudge added root); intro _
  unfold loadWatcher
  apply Spares.then (does_loadExcludedDir root) (keeps_loadExcludedDir added root); intro _
  apply Spares.read; intro sleepInterval
  apply Spares.read; intro sleepCount
  exact Spares.of_does (does_forChecks root (does_addDirs sleepCount sleepInterval))
    ⟨hchecks, fun check hc hp => (heach check hc hp).2⟩

end

theorem caught_ne (e : ConfigException) : caught e ≠ .returns 0 := by
  cases e <;> decide

/-- **A configuration is accepted whole or found out before the first file is scanned.**  `load_conf` returns 0 exactly when
the file can be read and every setting it will use is there and of its kind, and has then set what the typed loaders set
and added every path; otherwise it has added none. -/
theorem loadConf_spec (file : Except FileError Setting) (l : Loaded) :
    (∃ root, file = .ok root ∧ Accepted root ∧ loadConf file l = (.returns 0, confOf root l)) ∨
      ((∀ root, file = .ok root → ¬ Accepted root) ∧ (loadConf file l).1 ≠ .returns 0 ∧
        (loadConf file l).2.added = l.added) := by
  cases file with
  | error e => exact Or.inr ⟨fun root h => (by cases h), fun h => (by cases h), rfl⟩
  | ok root =>
    by_cases hroot : Accepted root
    · refine Or.inl ⟨root, rfl, hroot, ?_⟩
      rw [loadConf, (does_attempt root).ok hroot]
    · obtain ⟨e, l', he⟩ := (does_attempt root).fails hroot l
      have hadded := spares_attempt l.added root l e l' rfl he
      have hconf : loadConf (.ok root) l = (caught e, l') := by rw [loadConf, he]
      rw [hconf]
      exact Or.inr ⟨fun r hr => Except.ok.inj hr ▸ hroot, caught_ne e, hadded⟩

theorem conf_of_returns {file : Except FileError Setting} {l l' : Loaded} (h : loadConf file l = (.returns 0, l')) :
    ∃ root, file = .ok root ∧ l' = confOf root l := by
  cases file with
  | error e => cases h
  | ok root =>
    refine ⟨root, rfl, ?_⟩
    by_cases hroot : Accepted root
    · rw [loadConf, (does_attempt root).ok hroot] at h
      exact (congrArg Prod.snd h).symm
    · obtain ⟨e, s, he⟩ := (does_attempt root).fails hroot l
      rw [loadConf, he] at h
      exact absurd (congrArg Prod.fst h) (caught_ne e)

end CheckRealtime.LoadConf
