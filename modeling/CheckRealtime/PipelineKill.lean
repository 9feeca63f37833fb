import CheckRealtime.PipelineSteps
/-!
# PipelineKill — the process is killed and started again

A kill takes everything but the database; the process that is started next scans again (`killStep`).  `Ledger` is a record
of the run that outlives the kills: which transition of a row no alert has been issued for, and the checksum a file was
last reported with.  A deletion is alerted before the row goes; a creation and a change are written before they are
alerted, so a kill between the two loses the alert (`kill_alerted_iff`).
-/
namespace CheckRealtime

inductive KillLabel where
  | step (l : Label)
  | kill

def killStep (C : Config) (s : St DbMap) : KillLabel → Option (St DbMap)
  | .step l => step C mapDb s l
  | .kill   => some (initial s.now s.judge.db)

/-- For each file: the last transition of its row, as long as no alert has been issued for it; whether DELETED has been
issued for the row that is there; and the checksum it was last reported with. -/
structure Ledger where
  owed     : Str → Option Level
  told     : Str → Bool
  reported : Str → Option Str

/-- What earlier runs have left in the database has been reported. -/
def Ledger.start (db : DbMap) : Ledger := ⟨fun _ => none, fun _ => false, fun f => (db f).map Prod.fst⟩

/-- The row of a file is written. -/
def Ledger.record (L : Ledger) (f : Str) (level : Level) : Ledger :=
  { L with owed := Function.update L.owed f (some level), told := Function.update L.told f false }

/-- CREATED or CHANGED is issued for a file. -/
def Ledger.report (L : Ledger) (f : Str) (row : Option Row) : Ledger :=
  { L with owed := Function.update L.owed f none, reported := Function.update L.reported f (row.map Prod.fst) }

/-- The row of a file is removed. -/
def Ledger.remove (L : Ledger) (f : Str) : Ledger :=
  { L with owed := Function.update L.owed f (if L.told f then none else some .deleted)
           told := Function.update L.told f false }

def Ledger.note (s : St DbMap) (l : KillLabel) (_ : St DbMap) (L : Ledger) : Ledger :=
  match l with
  | .step .work => match s.pc with
    | .insertRow n _  => L.record n.name .created
    | .updateRow n _  => L.record n.name .changed
    | .delRow n       => L.remove n.name
    | .alertCreated n => L.report n.name (s.judge.db n.name)
    | .alertChanged n => L.report n.name (s.judge.db n.name)
    | .alertDeleted n => { L with told := Function.update L.told n.name true }
    | _               => L
  | _           => L

def ledger (C : Config) (now : Int) (db : DbMap) (ls : List KillLabel) : Ledger :=
  Machine.history (killStep C) Ledger.note (initial now db) (.start db) ls

theorem Ledger.note_outside (s s' : St DbMap) (l : Label) (L : Ledger) (hl : l.outside = true) :
    Ledger.note s (.step l) s' L = L := by
  cases l with
  | addWatch | change | unnamed | startThreads => rfl
  | _ => cases hl

/-- No row records a creation or a new checksum, and none is gone, without the alert for it. -/
def Ledger.Alerted (L : Ledger) : Prop := ∀ f, L.owed f = none

/-- Between a write and the alert for it: the file. -/
def Pc.unalerted : Pc → Option Str
  | .alertCreated n => some n.name
  | .alertChanged n => some n.name
  | _               => none

/-- What holds in every run: the file in the window is owed its alert, DELETED comes before the row goes, and a row whose
transition has been alerted holds what was reported. -/
structure Accounted (s : St DbMap) (L : Ledger) : Prop where
  window : ∀ f, s.pc.unalerted = some f → L.owed f ≠ none
  told   : ∀ n, s.pc = .delRow n → L.told n.name = true
  row    : ∀ f sum ts, s.judge.db f = some (sum, ts) → L.owed f = none → L.reported f = some sum

/-- Only the file in the window is owed an alert. -/
def OnlyWindow (s : St DbMap) (L : Ledger) : Prop := ∀ f, L.owed f ≠ none → s.pc.unalerted = some f

theorem accounted_quiet {s s' : St DbMap} {L : Ledger} (h : Accounted s L) (hdb : s'.judge.db = s.judge.db)
    (hpc : s'.pc.unalerted = none ∨ s'.pc = s.pc) (hdel : ∀ n, s'.pc = .delRow n → s.pc = .delRow n) : Accounted s' L where
  window f hf := by
    rcases hpc with hpc | hpc
    · rw [hpc] at hf; cases hf
    · exact h.window f (hpc ▸ hf)
  told n hn := h.told n (hdel n hn)
  row f sum ts hr ho := h.row f sum ts (hdb ▸ hr) ho

theorem accounted_record {s : St DbMap} {L : Ledger} (h : Accounted s L) (f : Str) (level : Level) (w : Option Row)
    {pc : Pc} (hpc : pc.unalerted = some f) (hdel : ∀ n, pc ≠ .delRow n) :
    Accounted { s with pc := pc, judge := { s.judge with db := Function.update s.judge.db f w } } (L.record f level) where
  window g hg := by
    cases hpc.symm.trans hg
    show Function.update L.owed f (some level) f ≠ none
    rw [Function.update_self]
    exact Option.some_ne_none _
  told n hn := absurd hn (hdel n)
  row g sum ts hr ho := by
    have ho : Function.update L.owed f (some level) g = none := ho
    have hr : Function.update s.judge.db f w g = some (sum, ts) := hr
    by_cases hg : g = f
    · rw [hg, Function.update_self] at ho; cases ho
    · rw [Function.update_of_ne hg] at ho hr
      exact h.row g sum ts hr ho

theorem accounted_report {s : St DbMap} {L : Ledger} (h : Accounted s L) (n : AnalysisNode) (level : Level) {pc : Pc}
    (hpc : pc.unalerted = none) (hdel : ∀ m, pc ≠ .delRow m) :
    Accounted { s with pc := pc, judge := s.judge.alert level n.dir n.name } (L.report n.name (s.judge.db n.name)) where
  window f hf := by rw [hpc] at hf; cases hf
  told m hm := absurd hm (hdel m)
  row f sum ts hr ho := by
    have hr : s.judge.db f = some (sum, ts) := hr
    show Function.update L.reported n.name ((s.judge.db n.name).map Prod.fst) f = some sum
    have ho : Function.update L.owed n.name none f = none := ho
    by_cases hf : f = n.name
    · rw [hf, Function.update_self, ← hf, hr]; rfl
    · rw [Function.update_of_ne hf] at ho ⊢
      exact h.row f sum ts hr ho

theorem accounted_remove {s : St DbMap} {L : Ledger} (h : Accounted s L) (n : AnalysisNode) :
    Accounted { s with pc := .delTask n, judge := { s.judge with db := Function.update s.judge.db n.name none } }
      (L.remove n.name) where
  window f hf := by cases hf
  told m hm := by cases hm
  row f sum ts hr ho := by
    have hr : Function.update s.judge.db n.name none f = some (sum, ts) := hr
    have ho : Function.update L.owed n.name (if L.told n.name then none else some .deleted) f = none := ho
    by_cases hf : f = n.name
    · rw [hf, Function.update_self] at hr; cases hr
    · rw [Function.update_of_ne hf] at hr ho
      exact h.row f sum ts hr ho

theorem accounted_step (C : Config) (s s' : St DbMap) (l : KillLabel) (L : Ledger) (h : Accounted s L)
    (hs : killStep C s l = some s') : Accounted s' (Ledger.note s l s' L) := by
  cases l with
  | kill =>
    cases hs
    exact ⟨fun f hf => (by cases hf), fun n hn => (by cases hn), h.row⟩
  | step l =>
    cases stepCase_of_step C mapDb s s' l hs with
    | outside l s' hl hnow hq hpc hj =>
      rw [Ledger.note_outside s s' l L hl]
      exact accounted_quiet h (by rw [hj]) (Or.inr hpc) (fun n hn => hpc ▸ hn)
    | tick | watch | pass => exact accounted_quiet h rfl (Or.inr rfl) (fun n hn => hn)
    | new n db hpc hf | delay n db sum ts hpc hf | check n db sum ts hpc hf =>
      obtain ⟨rfl, -⟩ := mapDb_find_inv hf
      exact accounted_quiet h rfl (Or.inl rfl) (fun n hn => by cases hn)
    | scanFile | take | skip | looked | gone | differs | same =>
      exact accounted_quiet h rfl (Or.inl rfl) (fun n hn => by cases hn)
    | insertRow n checksum hpc =>
      simp only [Ledger.note, hpc]
      exact accounted_record h n.name .created _ rfl (fun m e => by cases e)
    | updateRow n checksum hpc =>
      simp only [Ledger.note, hpc]
      exact accounted_record h n.name .changed _ rfl (fun m e => by cases e)
    | delRow n hpc =>
      simp only [Ledger.note, hpc]
      exact accounted_remove h n
    | alertCreated n hpc | alertChanged n hpc =>
      simp only [Ledger.note, hpc]
      exact accounted_report h n _ rfl (fun m e => by cases e)
    | alertDeleted n hpc =>
      simp only [Ledger.note, hpc]
      refine ⟨fun f hf => (by cases hf), fun m hm => ?_, h.row⟩
      cases hm
      exact Function.update_self _ _ _
    | found n now old hpc | missing n now hpc | cancelTask n now old hpc | addTask n now hpc | setTask n t hpc
    | delTask n hpc =>
      simp only [Ledger.note, hpc]
      exact accounted_quiet h rfl (Or.inl rfl) (fun n hn => by cases hn)

theorem run_accounted (C : Config) (now : Int) (db : DbMap) (ls : List KillLabel) (s : St DbMap)
    (h : Machine.run (killStep C) (initial now db) ls = some s) : Accounted s (ledger C now db ls) :=
  Machine.run_inv_history (killStep C) Ledger.note Accounted (initial now db) (.start db)
    ⟨fun f hf => (by cases hf), fun n hn => (by cases hn), fun f sum ts hr _ => by
      show (db f).map Prod.fst = some sum
      have hr : db f = some (sum, ts) := hr
      rw [hr]; rfl⟩
    (fun s l s' L hi hs => accounted_step C s s' l L hi hs) ls s h

/-! ## The window -/

/-- No step of the run inserts or updates a row. -/
def NoWrite (s : St DbMap) (l : KillLabel) : Prop :=
  ∀ n checksum, l = .step .work → s.pc ≠ .insertRow n checksum ∧ s.pc ≠ .updateRow n checksum

/-- No kill comes between a write and the alert for it. -/
def KillOutside (s : St DbMap) (l : KillLabel) : Prop := l = .kill → s.pc.unalerted = none

/-- What a step does to what is owed. -/
inductive OwedStep (s : St DbMap) (L : Ledger) : KillLabel → St DbMap → Ledger → Prop where
  | kill (s' : St DbMap) (hpc : s'.pc.unalerted = none) : OwedStep s L .kill s' L
  | quiet (l : Label) (s' : St DbMap) (L' : Ledger) (ho : L'.owed = L.owed)
      (hpc : s'.pc = s.pc ∨ (s.pc.unalerted = none ∧ s'.pc.unalerted = none)) : OwedStep s L (.step l) s' L'
  | write (n : AnalysisNode) (checksum : Str) (level : Level) (s' : St DbMap)
      (hpc : s.pc = .insertRow n checksum ∨ s.pc = .updateRow n checksum) (hpc' : s'.pc.unalerted = some n.name) :
      OwedStep s L (.step .work) s' (L.record n.name level)
  | alert (n : AnalysisNode) (s' : St DbMap) (hpc : s.pc.unalerted = some n.name) (hpc' : s'.pc.unalerted = none) :
      OwedStep s L (.step .work) s' (L.report n.name (s.judge.db n.name))
  | remove (n : AnalysisNode) (s' : St DbMap) (hpc : s.pc = .delRow n) (hpc' : s'.pc.unalerted = none) :
      OwedStep s L (.step .work) s' (L.remove n.name)

theorem owedStep_of_step (C : Config) (s s' : St DbMap) (l : KillLabel) (L : Ledger) (hs : killStep C s l = some s') :
    OwedStep s L l s' (Ledger.note s l s' L) := by
  cases l with
  | kill => cases hs; exact .kill _ rfl
  | step l =>
    cases stepCase_of_step C mapDb s s' l hs with
    | outside l s' hl hnow hq hpc hj =>
      rw [Ledger.note_outside s s' l L hl]
      exact .quiet _ _ _ rfl (Or.inl hpc)
    | tick | watch | pass => exact .quiet _ _ _ rfl (Or.inl rfl)
    | scanFile n hpc | take n q hq hpc | skip n hpc | new n db hpc | delay n db sum ts hpc | check n db sum ts hpc
    | looked n ob hpc | gone n sum ob hpc | differs n sum ob hpc | same n sum ob hpc =>
      exact .quiet _ _ _ rfl (Or.inr ⟨by rw [hpc]; rfl, rfl⟩)
    | insertRow n checksum hpc =>
      simp only [Ledger.note, hpc]
      exact .write n checksum _ _ (Or.inl hpc) rfl
    | updateRow n checksum hpc =>
      simp only [Ledger.note, hpc]
      exact .write n checksum _ _ (Or.inr hpc) rfl
    | delRow n hpc =>
      simp only [Ledger.note, hpc]
      exact .remove n _ hpc rfl
    | alertCreated n hpc | alertChanged n hpc =>
      simp only [Ledger.note, hpc]
      exact .alert n _ (by rw [hpc]; rfl) rfl
    | alertDeleted n hpc | found n now old hpc | missing n now hpc | cancelTask n now old hpc | addTask n now hpc
    | setTask n t hpc | delTask n hpc =>
      simp only [Ledger.note, hpc]
      exact .quiet _ _ _ rfl (Or.inr ⟨by rw [hpc]; rfl, rfl⟩)

/-- **Only the file in the window is owed its alert**, while no kill comes in between. -/
theorem onlyWindow_step (s s' : St DbMap) (l : KillLabel) (L L' : Ledger) (ha : Accounted s L) (hc : KillOutside s l)
    (h : OnlyWindow s L) (hs : OwedStep s L l s' L') : OnlyWindow s' L' := by
  intro f hf
  cases hs with
  | kill s' hpc =>
    have := h f hf
    rw [hc rfl] at this
    cases this
  | quiet l s' L' ho hpc =>
    have hs := h f (ho ▸ hf)
    rcases hpc with hpc | ⟨hpc, -⟩
    · rw [hpc]; exact hs
    · rw [hpc] at hs; cases hs
  | write n checksum level s' hpc hpc' =>
    have hf : Function.update L.owed n.name (some level) f ≠ none := hf
    by_cases hn : f = n.name
    · rw [hn]; exact hpc'
    · rw [Function.update_of_ne hn] at hf
      have hs := h f hf
      rcases hpc with hpc | hpc <;> (rw [hpc] at hs; cases hs)
  | alert n s' hpc hpc' =>
    have hf : Function.update L.owed n.name none f ≠ none := hf
    by_cases hn : f = n.name
    · rw [hn, Function.update_self] at hf; exact absurd rfl hf
    · rw [Function.update_of_ne hn] at hf
      have hs := h f hf
      rw [hpc] at hs
      exact absurd (Option.some.inj hs).symm hn
  | remove n s' hpc hpc' =>
    have hf : Function.update L.owed n.name (if L.told n.name then none else some .deleted) f ≠ none := hf
    by_cases hn : f = n.name
    · rw [hn, Function.update_self, ha.told n hpc] at hf; exact absurd rfl hf
    · rw [Function.update_of_ne hn] at hf
      have hs := h f hf
      rw [hpc] at hs; cases hs

theorem ledger_snoc (C : Config) (now : Int) (db : DbMap) {ls : List KillLabel} {l : KillLabel} {s s' : St DbMap}
    (hrun : Machine.run (killStep C) (initial now db) ls = some s) (hl : killStep C s l = some s') :
    ledger C now db (ls ++ [l]) = Ledger.note s l s' (ledger C now db ls) :=
  Machine.history_snoc (killStep C) Ledger.note l s s' hl ls (initial now db) (.start db) hrun

theorem run_onlyWindow (C : Config) (now : Int) (db : DbMap) (ls : List KillLabel) (s : St DbMap)
    (hm : Machine.Meets (killStep C) KillOutside (initial now db) ls)
    (h : Machine.run (killStep C) (initial now db) ls = some s) : OnlyWindow s (ledger C now db ls) := by
  have hboth : Accounted s (ledger C now db ls) ∧ OnlyWindow s (ledger C now db ls) := by
    refine Machine.run_inv_meets_history (killStep C) Ledger.note KillOutside (fun s L => Accounted s L ∧ OnlyWindow s L)
      (initial now db) (.start db) ⟨run_accounted C now db [] _ rfl, fun f hf => absurd rfl hf⟩ ?_ ls s hm h
    intro s l s' L hc ⟨ha, ho⟩ hs
    exact ⟨accounted_step C s s' l L ha hs, onlyWindow_step s s' l L _ ha hc ho (owedStep_of_step C s s' l L hs)⟩
  exact hboth.2

/-- A run that writes no creation and no change never owes an alert. -/
theorem run_alerted (C : Config) (now : Int) (db : DbMap) (ls : List KillLabel) (s : St DbMap)
    (hm : Machine.Meets (killStep C) NoWrite (initial now db) ls)
    (h : Machine.run (killStep C) (initial now db) ls = some s) : (ledger C now db ls).Alerted := by
  have hboth : Accounted s (ledger C now db ls) ∧ (ledger C now db ls).Alerted := by
    refine Machine.run_inv_meets_history (killStep C) Ledger.note NoWrite (fun s L => Accounted s L ∧ L.Alerted)
      (initial now db) (.start db) ⟨run_accounted C now db [] _ rfl, fun f => rfl⟩ ?_ ls s hm h
    intro s l s' L hc ⟨ha, ho⟩ hs
    refine ⟨accounted_step C s s' l L ha hs, ?_⟩
    have hstep := owedStep_of_step C s s' l L hs
    generalize Ledger.note s l s' L = L' at hstep ⊢
    cases hstep with
    | kill => exact ho
    | quiet l s' L' hL => intro f; rw [hL]; exact ho f
    | write n checksum level s' hpc =>
      obtain ⟨hi, hu⟩ := hc n checksum rfl
      exact hpc.elim (fun e => absurd e hi) (fun e => absurd e hu)
    | alert n s' hpc => exact absurd (ho n.name) (ha.window n.name hpc)
    | remove n s' hpc =>
      intro f
      show Function.update L.owed n.name (if L.told n.name then none else some .deleted) f = none
      rw [ha.told n hpc, Function.update_apply]
      split
      · rfl
      · exact ho f
  exact hboth.2

/-! ## What the next process can still see -/

/-- A check after the restart that stays silent over a readable file finds the content that was reported before it. -/
def Resumes (C : Config) (s : St DbMap) (L : Ledger) : Prop :=
  ∀ now later ob dir f, C.passes dir f = true → ob.readable = true →
    (∀ sum ts, s.judge.db f = some (sum, ts) → C.delays now ts = false) →
    (doAnalysis C mapDb now later ob s.judge dir f).alerts = s.judge.alerts → L.reported f = some (getChecksum ob []).2

theorem resumes_of_alerted (C : Config) (s : St DbMap) (L : Ledger) (ha : Accounted s L) (ho : L.Alerted) :
    Resumes C s L := by
  intro now later ob dir f hp hr hw hsilent
  have hn : ∀ a : Alert, s.judge.alerts ++ [a] ≠ s.judge.alerts := fun a e => by
    have := congrArg List.length e
    simp at this
  cases hrow : s.judge.db f with
  | none =>
    rw [doAnalysis_new C mapDb now later ob s.judge dir f hp (mapDb_find hrow)] at hsilent
    exact absurd hsilent (hn _)
  | some r =>
    obtain ⟨sum, ts⟩ := r
    rw [doAnalysis_checked C mapDb now later ob s.judge dir f hp (mapDb_find hrow) (hw sum ts hrow),
      if_neg (by simp [absent_of_readable ob hr])] at hsilent
    by_cases hc : (getChecksum ob []).2 = sum
    · rw [hc]
      exact ha.row f sum ts hrow (ho f)
    · rw [if_pos hc] at hsilent
      exact absurd hsilent (hn _)

/-- **A kill loses the alert exactly when it comes between a write and the alert.**  In every state of a run each row is
alerted just when the run neither inserts nor updates one; at every kill each row is alerted, and the next scan sees every
change not reported yet, just when no kill of the run finds the process between `insert` or `update` and the alert. -/
theorem kill_alerted_iff (C : Config) (now : Int) (db : DbMap) (ls : List KillLabel) :
    ((∀ l₁ s, l₁ <+: ls → Machine.run (killStep C) (initial now db) l₁ = some s → (ledger C now db l₁).Alerted) ↔
      Machine.Meets (killStep C) NoWrite (initial now db) ls) ∧
    ((∀ l₁ s, l₁ ++ [.kill] <+: ls → Machine.run (killStep C) (initial now db) (l₁ ++ [.kill]) = some s →
        (ledger C now db (l₁ ++ [.kill])).Alerted ∧ Resumes C s (ledger C now db (l₁ ++ [.kill]))) ↔
      Machine.Meets (killStep C) KillOutside (initial now db) ls) := by
  refine ⟨⟨fun h l₁ l s hp hs n checksum hl => ?_, fun hm l₁ s hp hs => ?_⟩, fun h l₁ l s hp hs hl => ?_,
    fun hm l₁ s hp hs => ?_⟩
  · subst hl
    have hwrite : ∀ level s', killStep C s (.step .work) = some s' →
        Ledger.note s (.step .work) s' (ledger C now db l₁) = (ledger C now db l₁).record n.name level → False := by
      intro level s' hs' hnote
      have hall := h (l₁ ++ [.step .work]) s' hp (by rw [Machine.run_snoc, hs]; exact hs') n.name
      rw [ledger_snoc C now db hs hs', hnote] at hall
      have hall : Function.update (ledger C now db l₁).owed n.name (some level) n.name = none := hall
      rw [Function.update_self] at hall
      cases hall
    constructor
    · intro hpc
      refine hwrite .created _ (by simp only [killStep, step, work, hpc]; rfl) ?_
      simp only [Ledger.note, hpc]
    · intro hpc
      refine hwrite .changed _ (by simp only [killStep, step, work, hpc]; rfl) ?_
      simp only [Ledger.note, hpc]
  · exact run_alerted C now db l₁ s (fun l₂ l t hp' ht => hm l₂ l t (hp'.trans hp) ht) hs
  · subst hl
    cases hw : s.pc.unalerted with
    | none => rfl
    | some f =>
      have hk : killStep C s .kill = some (initial s.now s.judge.db) := rfl
      obtain ⟨hall, -⟩ := h l₁ _ hp (by rw [Machine.run_snoc, hs]; exact hk)
      rw [ledger_snoc C now db hs hk] at hall
      exact absurd (hall f) ((run_accounted C now db l₁ s hs).window f hw)
  · obtain ⟨t, ht, hk⟩ := (Machine.run_snoc_some (killStep C) (initial now db) s l₁ .kill).1 hs
    have hc : t.pc.unalerted = none := hm l₁ .kill t hp ht rfl
    have hlt := run_onlyWindow C now db l₁ t
      (fun l₂ l u hp' hu => hm l₂ l u (hp'.trans ((List.prefix_append l₁ _).trans hp)) hu) ht
    have hall : (ledger C now db (l₁ ++ [.kill])).Alerted := by
      intro f
      rw [ledger_snoc C now db ht hk]
      by_contra hne
      rw [hlt f hne] at hc
      cases hc
    exact ⟨hall, resumes_of_alerted C s _ (run_accounted C now db _ s hs) hall⟩

/-- A new file is recorded by the scan, the process is killed before the alert, and the scan of the next process finds the
row and the unchanged file. -/
def killedBetween : List KillLabel :=
  let scan : List KillLabel := [.step (.scanFile ⟨ascii "/w", ascii "/w/f"⟩), .step .enter,
    .step (.checksum (ascii "/w/f") emptyFile)]
  scan ++ [.step .work, .kill] ++ scan ++ [.step .work]

theorem killedBetween_unalerted :
    ((Machine.run (killStep plainConfig) (initial 5 fun _ => none) killedBetween).map
        (fun s => (s.pc, s.judge.alerts, (s.judge.db (ascii "/w/f")).isSome)) = some (.idle, [], true)) ∧
      (ledger plainConfig 5 (fun _ => none) killedBetween).owed (ascii "/w/f") = some .created ∧
      (ledger plainConfig 5 (fun _ => none) killedBetween).reported (ascii "/w/f") = none := by
  refine ⟨by decide, by decide, by decide⟩

end CheckRealtime
