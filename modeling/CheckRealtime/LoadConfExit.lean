import CheckRealtime.LoadConf
/-!
# LoadConfExit — how `load_conf` ends on settings it does not accept

A setting that is missing is an exception with a handler, one of the wrong kind is not: `loadConf_exit`.
-/
namespace CheckRealtime.LoadConf

open Throwing

/-! ## What is wrong -/

def mailNames : List Str := [ascii "server", ascii "from", ascii "username", ascii "password"]

def intNames : List Str := [ascii "alert_interval", ascii "sleep_interval", ascii "sleep_count"]

/-- One of the settings that have to be there is not. -/
def Missing (root : Setting) : Prop :=
  root.exists_ (ascii "mail") = false ∨ root.exists_ (ascii "checks") = false ∨
    ∃ name ∈ mailNames, (root.get (ascii "mail")).isGroup = true ∧ (root.get (ascii "mail")).exists_ name = false

/-- One of the settings that are read is there and of the wrong kind. -/
def Mistyped (root : Setting) : Prop :=
  root.isGroup = false ∨ (root.exists_ (ascii "mail") = true ∧ (root.get (ascii "mail")).isGroup = false) ∨
    (∃ name ∈ mailNames, (root.get (ascii "mail")).exists_ name = true ∧ ((root.get (ascii "mail")).get name).isString = false) ∨
    ¬ AllStrings ((root.get (ascii "mail")).get (ascii "to")) ∨ ¬ AlertsFit root ∨
    (∃ name ∈ intNames, ¬ IntFits root name) ∨ ∃ check ∈ settingChecks root, pathed check = true ∧ ¬ CheckFits check

def Faulty (root : Setting) : ConfigException → Prop
  | .settingNotFound => Missing root
  | .settingType     => Mistyped root

theorem errs_key (s : Setting) (name : Str) : Errs (fun e => (e = .settingType ∧ s.isGroup = false) ∨
    (e = .settingNotFound ∧ s.isGroup = true ∧ s.exists_ name = false)) (s.key name) := by
  intro e h
  unfold Setting.key at h
  cases hg : s.isGroup with
  | false =>
    rw [hg] at h
    cases h
    exact Or.inl ⟨rfl, rfl⟩
  | true =>
    rw [hg] at h
    cases hm : s.member name with
    | none =>
      rw [hm] at h
      cases h
      exact Or.inr ⟨rfl, rfl, by rw [Setting.exists_, hm]; rfl⟩
    | some m =>
      rw [hm] at h
      cases h

theorem of_key_ok {s m : Setting} {name : Str} (h : s.key name = .ok m) : s.exists_ name = true ∧ m = s.get name := by
  have hs : s.exists_ name = true := by
    by_contra hn
    obtain ⟨e, he⟩ := (Setting.reads_key s name).fails hn
    rw [he] at h
    cases h
  rw [key_ok hs] at h
  exact ⟨hs, (Except.ok.inj h).symm⟩

theorem errs_toStr (s : Setting) : Errs (fun e => e = .settingType ∧ s.isString = false) s.toStr := by
  intro e h
  cases s <;> first | exact ⟨(Except.error.inj h).symm, rfl⟩ | cases h

theorem errs_setting2strvec (s : Setting) (name : Str) :
    Errs (fun e => e = .settingType ∧ ¬ AllStrings (s.get name)) (setting2strvec s name) := by
  rw [setting2strvec_eq]
  apply Errs.mapM; intro element hmem e h
  obtain ⟨he, hs⟩ := errs_toStr element e h
  exact ⟨he, fun hall => by rw [hall element hmem] at hs; cases hs⟩

theorem errs_getIntValue (root : Setting) (name : Str) :
    Errs (fun e => e = .settingType ∧ ¬ IntFits root name) (getIntValue root name 0) := by
  intro e h
  refine ⟨?_, fun hi => by rw [(reads_getIntValue root name).ok hi] at h; cases h⟩
  unfold getIntValue at h
  cases hs : root.exists_ name with
  | false =>
    rw [hs] at h
    cases h
  | true =>
    rw [hs, key_ok hs] at h
    cases hm : root.get name with
    | int ival format =>
      rw [hm] at h
      cases h
    | _ =>
      rw [hm] at h
      exact (Except.error.inj h).symm

/-! ### The loaders -/

theorem errs_string {E : ConfigException → Prop} (s : Setting) (name : Str) (hg : s.isGroup = false → E .settingType)
    (hm : s.isGroup = true → s.exists_ name = false → E .settingNotFound)
    (ht : s.exists_ name = true → (s.get name).isString = false → E .settingType) :
    Errs E (s.key name >>= Setting.toStr) := by
  apply Errs.bind
  · intro e h
    obtain ⟨rfl, hs⟩ | ⟨rfl, hs, hn⟩ := errs_key s name e h
    · exact hg hs
    · exact hm hs hn
  · intro m hk e h
    obtain ⟨hs, rfl⟩ := of_key_ok hk
    obtain ⟨rfl, hstr⟩ := errs_toStr _ e h
    exact ht hs hstr

theorem errs_root (root : Setting) (name : Str) (h : root.exists_ name = false → Missing root) :
    Errs (Faulty root) (root.key name) := by
  intro e he
  obtain ⟨rfl, hs⟩ | ⟨rfl, -, hn⟩ := errs_key root name e he
  · exact Or.inl hs
  · exact h hn

theorem errs_mail (root : Setting) (hmail : root.exists_ (ascii "mail") = true) (name : Str) (hname : name ∈ mailNames) :
    Errs (Faulty root) ((root.get (ascii "mail")).key name >>= Setting.toStr) :=
  errs_string _ name (fun hg => Or.inr (Or.inl ⟨hmail, hg⟩)) (fun hg hn => Or.inr (Or.inr ⟨name, hname, hg, hn⟩))
    (fun hs ht => Or.inr (Or.inr (Or.inl ⟨name, hname, hs, ht⟩)))

theorem raises_then {E : ConfigException → Prop} {f : Loaded → Loaded} {q : Loader} (hq : Raises E q) :
    Raises E (set f >>= fun _ => q) :=
  (Raises.set f).bind (fun _ => hq)

theorem raises_loadMailman (root : Setting) : Raises (Faulty root) (loadMailman root) := by
  have hto : Errs (Faulty root) (setting2strvec (root.get (ascii "mail")) (ascii "to")) := fun e h => by
    obtain ⟨rfl, hs⟩ := errs_setting2strvec _ _ e h
    exact Or.inr (Or.inr (Or.inr (Or.inl hs)))
  apply Raises.read (errs_root root _ Or.inl); intro mail hkey
  obtain ⟨hmail, rfl⟩ := of_key_ok hkey
  apply Raises.read (errs_mail root hmail _ (by decide)); intro server _
  apply raises_then
  apply Raises.read (errs_mail root hmail _ (by decide)); intro sender _
  apply raises_then
  apply Raises.read hto; intro to_ _
  apply raises_then
  apply Raises.read (errs_mail root hmail _ (by decide)); intro username _
  apply raises_then
  apply Raises.read (errs_mail root hmail _ (by decide)); intro password _
  exact Raises.set _

/-- A check that does not fit. -/
theorem mistyped_of_check {root check : Setting} (hc : check ∈ settingChecks root) (hp : pathed check = true)
    (h : ¬ CheckFits check) : Mistyped root :=
  Or.inr (Or.inr (Or.inr (Or.inr (Or.inr (Or.inr ⟨check, hc, hp, h⟩)))))

theorem raises_forPaths {root check : Setting} (hc : check ∈ settingChecks root) (hp : pathed check = true)
    {body : Str → Loader} (hbody : ∀ path, Raises (Faulty root) (body path)) : Raises (Faulty root) (forPaths check body) := by
  have hno : Errs (Faulty root) (check.key (ascii "path")) := fun e he => by
    rw [key_ok hp] at he
    cases he
  apply Raises.read hno; intro paths hkey
  obtain ⟨-, rfl⟩ := of_key_ok hkey
  rw [Setting.getLength, forM_range (fun e => lift e.toStr >>= body) _ _ (fun i e he => by rw [Setting.index_eq _ i e he]; rfl)]
  apply Raises.forM; intro element hmem
  refine Raises.read (fun e he => ?_) (fun path _ => hbody path)
  obtain ⟨rfl, hs⟩ := errs_toStr element e he
  exact mistyped_of_check hc hp (fun hf => by rw [hf.path element hmem] at hs; cases hs)

theorem raises_forChecks (root : Setting) {body : Setting → Loader}
    (hbody : ∀ check ∈ settingChecks root, pathed check = true → Raises (Faulty root) (body check)) :
    Raises (Faulty root) (forChecks root body) := by
  apply Raises.read (errs_root root _ (fun hn => Or.inr (Or.inl hn))); intro checks hkey
  obtain ⟨-, rfl⟩ := of_key_ok hkey
  rw [Setting.getLength, forM_range (fun check => if !check.exists_ (ascii "path") then pure () else body check) _ _
    (fun i e he => by rw [Setting.index_eq _ i e he]; rfl)]
  apply Raises.forM; intro check hmem
  split
  · exact Raises.pure ()
  · rename_i hp
    exact hbody check hmem (by simpa [pathed] using hp)

theorem errs_check {root check : Setting} (hc : check ∈ settingChecks root) (hp : pathed check = true) (name : Str)
    (h : CheckFits check → AllStrings (check.get name)) : Errs (Faulty root) (setting2strvec check name) := by
  intro e he
  obtain ⟨rfl, hs⟩ := errs_setting2strvec check name e he
  exact mistyped_of_check hc hp (fun hf => hs (h hf))

theorem errs_alerts (root : Setting) (level : Level) : Errs (Faulty root) (setting2strvec root (alertName level)) := by
  intro e he
  obtain ⟨rfl, hs⟩ := errs_setting2strvec root _ e he
  exact Or.inr (Or.inr (Or.inr (Or.inr (Or.inl (fun hf => hs (hf level))))))

theorem errs_int (root : Setting) (name : Str) (hname : name ∈ intNames) : Errs (Faulty root) (getIntValue root name 0) := by
  intro e he
  obtain ⟨rfl, hs⟩ := errs_getIntValue root name e he
  exact Or.inr (Or.inr (Or.inr (Or.inr (Or.inr (Or.inl ⟨name, hname, hs⟩)))))

theorem raises_loadAlerter (root : Setting) : Raises (Faulty root) (loadAlerter root) := by
  apply Raises.read (errs_alerts root .created); intro created _
  apply Raises.read (errs_alerts root .changed); intro changed _
  apply Raises.read (errs_alerts root .deleted); intro deleted _
  apply raises_forChecks; intro check hc hp
  apply Raises.read (errs_check hc hp _ (fun hf => hf.alerts .created)); intro checkCreated _
  apply Raises.read (errs_check hc hp _ (fun hf => hf.alerts .changed)); intro checkChanged _
  apply Raises.read (errs_check hc hp _ (fun hf => hf.alerts .deleted)); intro checkDeleted _
  apply raises_forPaths hc hp; intro path
  unfold addRule
  apply raises_then
  apply raises_then
  exact Raises.set _

theorem raises_loadJudge (root : Setting) : Raises (Faulty root) (loadJudge root) := by
  apply Raises.read (errs_int root _ (by decide)); intro interval _
  apply raises_then
  apply raises_forChecks; intro check hc hp
  apply Raises.read (errs_check hc hp _ CheckFits.filter); intro filter _
  apply Raises.read (errs_check hc hp _ CheckFits.grep); intro grep _
  apply raises_forPaths hc hp; intro path
  apply raises_then
  exact Raises.set _

theorem raises_loadWatcher (root : Setting) : Raises (Faulty root) (loadWatcher root) := by
  apply Raises.bind
  · apply raises_forChecks; intro check hc hp
    apply Raises.read (errs_check hc hp _ CheckFits.filter); intro filter _
    exact Raises.set _
  intro _
  apply Raises.read (errs_int root _ (by decide)); intro sleepInterval _
  apply Raises.read (errs_int root _ (by decide)); intro sleepCount _
  apply raises_forChecks; intro check hc hp
  exact raises_forPaths hc hp (fun path => Raises.set _)

theorem raises_attempt (root : Setting) : Raises (Faulty root) (attempt root) :=
  (raises_loadMailman root).bind (fun _ => (raises_loadAlerter root).bind (fun _ =>
    (raises_loadJudge root).bind (fun _ => raises_loadWatcher root)))

/-- **How `load_conf` ends tells what is wrong**: it returns -1 only when the file cannot be read or a setting that has to be
there is missing, and the program is terminated only when a setting is there and of the wrong kind. -/
theorem loadConf_exit (file : Except FileError Setting) (l : Loaded) : match (loadConf file l).1 with
    | .returns rc => (rc = 0 ∧ ∃ root, file = .ok root ∧ Accepted root) ∨
        (rc = -1 ∧ ((∃ e, file = .error e) ∨ ∃ root, file = .ok root ∧ Missing root))
    | .terminates => ∃ root, file = .ok root ∧ Mistyped root := by
  cases file with
  | error e => exact Or.inr ⟨rfl, Or.inl ⟨e, rfl⟩⟩
  | ok root =>
    rw [loadConf]
    rcases h : Throwing.exec (attempt root) l with ⟨_ | _, l'⟩
    · rename_i e
      have hf := raises_attempt root l e l' h
      cases e with
      | settingNotFound => exact Or.inr ⟨rfl, Or.inr ⟨root, rfl, hf⟩⟩
      | settingType => exact ⟨root, rfl, hf⟩
    · refine Or.inl ⟨rfl, root, rfl, ?_⟩
      by_contra hroot
      obtain ⟨e, l'', he⟩ := (does_attempt root).fails hroot l
      rw [he] at h
      cases h

end CheckRealtime.LoadConf
