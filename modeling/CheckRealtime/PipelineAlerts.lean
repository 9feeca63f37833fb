import CheckRealtime.Lifecycle
import CheckRealtime.PipelineTasks
/-!
# PipelineAlerts — the history of the alerts of a file

`Journal` is a record of the run: every alert with the time it was decided at and the time last written into a row.  For
each file the alerts are the history of its row (`Lifecycle`): in every state of every run the automaton accepts them, and
the state it reaches is the row as `do_analysis` finds it between two calls (`Agrees`).
-/
namespace CheckRealtime

/-- An alert, the time `do_analysis` read before it decided on it, and the time written into a row last. -/
structure Issued where
  alert   : Alert
  decided : Int
  written : Int
deriving DecidableEq

structure Journal where
  decided : Int
  written : Int
  issued  : List Issued

def Journal.empty : Journal := ⟨0, 0, []⟩

def Journal.issue (j : Journal) (level : Level) (n : AnalysisNode) : Journal :=
  { j with issued := j.issued ++ [⟨⟨level, n.dir, n.name⟩, j.decided, j.written⟩] }

def Journal.note {σ : Type} (s : St σ) (l : Label) (_ : St σ) (j : Journal) : Journal :=
  match l with
  | .enter => { j with decided := s.now }
  | .work  => match s.pc with
    | .insertRow _ _  => { j with written := s.now }
    | .updateRow _ _  => { j with written := s.now }
    | .alertCreated n => j.issue .created n
    | .alertDeleted n => j.issue .deleted n
    | .alertChanged n => j.issue .changed n
    | _               => j
  | _      => j

def journal (C : Config) (now : Int) (db : DbMap) (ls : List Label) : Journal :=
  Machine.history (step C mapDb) Journal.note (initial now db) .empty ls

theorem Journal.note_outside {σ : Type} (s s' : St σ) (l : Label) (j : Journal) (hl : l.outside = true) :
    Journal.note s l s' j = j := by
  cases l with
  | addWatch | change | unnamed | startThreads => rfl
  | _ => cases hl

def Level.kind : Level → Lifecycle.Kind
  | .changed => .changed
  | .created => .created
  | .deleted => .deleted

/-- The alerts of one file, in the order they were raised. -/
def eventsOf (f : Str) (issued : List Issued) : List Lifecycle.Event :=
  (issued.filter (fun x => decide (x.alert.name = f))).map (fun x => ⟨x.alert.level.kind, x.decided, x.written⟩)

theorem eventsOf_issue (f : Str) (j : Journal) (level : Level) (n : AnalysisNode) : eventsOf f (j.issue level n).issued =
    eventsOf f j.issued ++ (if n.name = f then [⟨level.kind, j.decided, j.written⟩] else []) := by
  unfold eventsOf Journal.issue
  rw [List.filter_append, List.map_append]
  congr 1
  by_cases hf : n.name = f <;> simp [hf]

/-! ## The row and the history -/

/-- The row of an earlier run is there, written at no known time. -/
def start (row : Option Row) : Lifecycle.State := row.map (fun _ => none)

def Matches (now : Int) (row : Option Row) (st : Lifecycle.State) : Prop :=
  match row, st with
  | none, none               => True
  | some (_, ts), some since => ∀ t, since = some t → t = ts ∧ t ≤ now
  | _, _                     => False

/-- There is a record, and it may be changed or deleted by what was decided at that time. -/
def Due (I decided : Int) (st : Lifecycle.State) : Prop := ∃ since, st = some since ∧ Lifecycle.late I since decided = true

/-- The row was written with the journal's last time of writing. -/
def JustWritten (now : Int) (row : Option Row) (j : Journal) : Prop := (∃ sum, row = some (sum, j.written)) ∧ j.written ≤ now

/-- The row of the file worked on and its history, inside `do_analysis`. -/
def Within (I now : Int) (row : Option Row) (j : Journal) (pc : Pc) (st : Lifecycle.State) : Prop :=
  match pc with
  | .newFile _ | .insertRow _ _                       => row = none ∧ st = none
  | .alertCreated _                                   => st = none ∧ JustWritten now row j
  | .check _ _ | .alertDeleted _ | .updateRow _ _     => Matches now row st ∧ Due I j.decided st
  | .delRow _                                         => row.isSome = true ∧ st = none
  | .alertChanged _                                   => Due I j.decided st ∧ JustWritten now row j
  | _                                                 => Matches now row st

def Agrees (I now : Int) (f : Str) (row : Option Row) (j : Journal) (pc : Pc) (st : Lifecycle.State) : Prop :=
  if pc.file = some f then Within I now row j pc st else Matches now row st

theorem matches_tick {now t : Int} {row : Option Row} {st : Lifecycle.State} (h : Matches now row st) (ht : now ≤ t) :
    Matches t row st := by
  unfold Matches at h ⊢
  split at h
  · trivial
  · exact fun u hu => ⟨(h u hu).1, (h u hu).2.trans ht⟩
  · exact h.elim

theorem matches_written {now : Int} {row : Option Row} {j : Journal} (h : JustWritten now row j) :
    Matches now row (some (some j.written)) := by
  obtain ⟨⟨sum, rfl⟩, hle⟩ := h
  intro t ht
  cases ht
  exact ⟨rfl, hle⟩

theorem matches_start (now : Int) (row : Option Row) : Matches now row (start row) := by
  cases row with
  | none => trivial
  | some r => exact fun t ht => by cases ht

theorem agrees_of_settled {I now : Int} {f : Str} {row : Option Row} {j : Journal} {pc : Pc} {st : Lifecycle.State}
    (hpc : pc.settled = true) : Agrees I now f row j pc st ↔ Matches now row st := by
  unfold Agrees
  split
  · cases pc <;> first | exact Iff.rfl | cases hpc
  · exact Iff.rfl

theorem agrees_other {I now : Int} {f : Str} {row : Option Row} {j : Journal} {pc : Pc} {st : Lifecycle.State}
    (hpc : pc.file ≠ some f) : Agrees I now f row j pc st ↔ Matches now row st := by
  rw [Agrees, if_neg hpc]

theorem agrees_own {I now : Int} {f : Str} {row : Option Row} {j : Journal} {pc : Pc} {st : Lifecycle.State}
    (hpc : pc.file = some f) : Agrees I now f row j pc st ↔ Within I now row j pc st := by
  rw [Agrees, if_pos hpc]

theorem agrees_tick {I now t : Int} {f : Str} {row : Option Row} {j : Journal} {pc : Pc} {st : Lifecycle.State}
    (ht : now ≤ t) (h : Agrees I now f row j pc st) : Agrees I t f row j pc st := by
  by_cases hpc : pc.file = some f
  · rw [agrees_own hpc] at h ⊢
    have hw : JustWritten now row j → JustWritten t row j := fun h => ⟨h.1, h.2.trans ht⟩
    cases pc with
    | newFile | insertRow | delRow => exact h
    | alertCreated => exact ⟨h.1, hw h.2⟩
    | check | alertDeleted | updateRow => exact ⟨matches_tick h.1 ht, h.2⟩
    | alertChanged => exact ⟨h.1, hw h.2⟩
    | _ => exact matches_tick h ht
  · rw [agrees_other hpc] at h ⊢
    exact matches_tick h ht

/-- The automaton accepts the alerts of the file and reaches a state that agrees with its row. -/
def Told (I now : Int) (st₀ : Lifecycle.State) (f : Str) (row : Option Row) (j : Journal) (pc : Pc) : Prop :=
  ∃ st, Machine.run (Lifecycle.next I) st₀ (eventsOf f j.issued) = some st ∧ Agrees I now f row j pc st

section

variable {I now now' : Int} {st₀ : Lifecycle.State} {f : Str} {row row' : Option Row} {j j' : Journal} {pc pc' : Pc}

theorem Told.imp (h : Told I now st₀ f row j pc) (hj : eventsOf f j'.issued = eventsOf f j.issued)
    (hA : ∀ st, Agrees I now f row j pc st → Agrees I now' f row' j' pc' st) : Told I now' st₀ f row' j' pc' := by
  obtain ⟨st, hrun, hst⟩ := h
  exact ⟨st, hj ▸ hrun, hA st hst⟩

/-- **One more alert** that the automaton accepts. -/
theorem Told.issue (h : Told I now st₀ f row j pc) (hpc : pc.file = some f) (level : Level) (n : AnalysisNode)
    (hn : n.name = f) (hA : ∀ st, Within I now row j pc st → ∃ st',
      Lifecycle.next I st ⟨level.kind, j.decided, j.written⟩ = some st' ∧ Agrees I now f row (j.issue level n) pc' st') :
    Told I now st₀ f row (j.issue level n) pc' := by
  obtain ⟨st, hrun, hst⟩ := h
  obtain ⟨st', hnext, hst'⟩ := hA st ((agrees_own hpc).1 hst)
  refine ⟨st', ?_, hst'⟩
  rw [eventsOf_issue, if_pos hn]
  exact (Machine.run_snoc_some _ _ _ _ _).2 ⟨st, hrun, hnext⟩

/-- A step of `do_analysis` on another file. -/
theorem Told.other (h : Told I now st₀ f row j pc) (hpc : pc.file ≠ some f) (hpc' : pc'.file ≠ some f)
    (hj : eventsOf f j'.issued = eventsOf f j.issued) : Told I now st₀ f row j' pc' :=
  h.imp hj (fun _ hst => (agrees_other hpc').2 ((agrees_other hpc).1 hst))

/-- A step of `do_analysis` without an alert: what it does to the row of its own file, and nothing to the others. -/
theorem Told.work (h : Told I now st₀ f row j pc) {name : Str} (hpc : pc.file = some name) (hpc' : pc'.file = some name)
    (hj : eventsOf f j'.issued = eventsOf f j.issued) (hframe : name ≠ f → row' = row)
    (hown : name = f → ∀ st, Within I now row j pc st → Within I now row' j' pc' st) : Told I now st₀ f row' j' pc' := by
  by_cases hf : name = f
  · subst hf
    exact h.imp hj (fun st hst => (agrees_own hpc').2 (hown rfl st ((agrees_own hpc).1 hst)))
  · have hother : some name ≠ some f := fun e => hf (Option.some.inj e)
    rw [hframe hf]
    exact h.other (by rw [hpc]; exact hother) (by rw [hpc']; exact hother) hj

theorem Told.settled (h : Told I now st₀ f row j pc) (hpc : pc.settled = true) (hpc' : pc'.settled = true)
    (hj : eventsOf f j'.issued = eventsOf f j.issued) : Told I now st₀ f row j' pc' :=
  h.imp hj (fun _ hst => (agrees_of_settled hpc').2 ((agrees_of_settled hpc).1 hst))

end

theorem due_of_check {C : Config} {now : Int} {sum : Str} {ts : Int} {st : Lifecycle.State}
    (hm : Matches now (some (sum, ts)) st) (hd : C.delays now ts = false) : Due C.interval now st := by
  cases st with
  | none => exact hm.elim
  | some since =>
    refine ⟨since, rfl, (Lifecycle.late_iff _ _ _).2 (fun t ht => ?_)⟩
    obtain ⟨rfl, hle⟩ := hm t ht
    simp only [Config.delays, Bool.and_eq_false_iff, decide_eq_false_iff_not] at hd
    omega

theorem row_of_due {I now decided : Int} {row : Option Row} {st : Lifecycle.State} (hm : Matches now row st)
    (hd : Due I decided st) : ∃ r, row = some r := by
  obtain ⟨since, rfl, -⟩ := hd
  cases row with
  | none => exact hm.elim
  | some r => exact ⟨r, rfl⟩

/-- **Every step keeps the history of each file in step with its row.** -/
theorem told_step (C : Config) (s s' : St DbMap) (l : Label) (st₀ : Lifecycle.State) (f : Str) (j : Journal)
    (hs : StepCase C mapDb s l s') (h : Told C.interval s.now st₀ f (s.judge.db f) j s.pc) :
    Told C.interval s'.now st₀ f (s'.judge.db f) (Journal.note s l s' j) s'.pc := by
  cases hs with
  | outside l s' hl hnow hq hpc hj =>
    rw [Journal.note_outside s s' l j hl, hnow, hpc, hj]
    exact h
  | tick t ht => exact h.imp rfl (fun _ => agrees_tick ht)
  | watch count => exact h
  | pass => exact h
  | scanFile n hpc | take n q hq hpc | skip n hpc => exact h.settled (by rw [hpc]; rfl) rfl rfl
  | delay n db sum ts hpc hfind =>
    obtain ⟨rfl, -⟩ := mapDb_find_inv hfind
    exact h.settled (by rw [hpc]; rfl) rfl rfl
  | new n db hpc hfind =>
    obtain ⟨rfl, hrow⟩ := mapDb_find_inv hfind
    rw [hpc] at h
    refine h.work rfl rfl rfl (fun _ => rfl) (fun hf st hm => ?_)
    subst hf
    have hm : Matches s.now (s.judge.db n.name) st := hm
    rw [hrow] at hm
    cases st with
    | none => exact ⟨hrow, rfl⟩
    | some since => exact hm.elim
  | check n db sum ts hpc hfind hd =>
    obtain ⟨rfl, hrow⟩ := mapDb_find_inv hfind
    rw [hpc] at h
    refine h.work rfl rfl rfl (fun _ => rfl) (fun hf st hm => ?_)
    subst hf
    have hm : Matches s.now (s.judge.db n.name) st := hm
    exact ⟨hm, due_of_check (hrow ▸ hm) hd⟩
  | looked n ob hpc | gone n sum ob hpc | differs n sum ob hpc =>
    rw [hpc] at h
    exact h.work rfl rfl rfl (fun _ => rfl) (fun _ st hst => hst)
  | same n sum ob hpc =>
    rw [hpc] at h
    exact h.work rfl rfl rfl (fun _ => rfl) (fun _ st hst => hst.1)
  | insertRow n checksum hpc =>
    simp only [Journal.note, hpc]
    rw [hpc] at h
    refine h.work rfl rfl rfl (fun hf => ?_) (fun hf st hst => ?_)
    · rw [mapDb_insert, Function.update_of_ne (Ne.symm hf)]
    · subst hf
      exact ⟨hst.2, ⟨checksum, Function.update_self _ _ _⟩, Int.le_refl _⟩
  | alertCreated n hpc =>
    simp only [Journal.note, hpc]
    rw [hpc] at h
    by_cases hf : n.name = f
    · subst hf
      refine h.issue rfl .created n rfl (fun st hst => ?_)
      obtain ⟨rfl, hw⟩ := hst
      exact ⟨_, rfl, (agrees_of_settled rfl).2 (matches_written hw)⟩
    · refine h.other (file_ne hf) (fun e => by cases e) ?_
      rw [eventsOf_issue, if_neg hf, List.append_nil]
  | alertDeleted n hpc =>
    simp only [Journal.note, hpc]
    rw [hpc] at h
    by_cases hf : n.name = f
    · subst hf
      refine h.issue rfl .deleted n rfl (fun st hst => ?_)
      obtain ⟨hm, hd⟩ := hst
      obtain ⟨r, hr⟩ := row_of_due hm hd
      obtain ⟨since, rfl, hlate⟩ := hd
      have hrow : (s.judge.db n.name).isSome = true := by rw [hr]; rfl
      exact ⟨none, if_pos hlate, (agrees_own rfl).2 ⟨hrow, rfl⟩⟩
    · refine h.other (file_ne hf) (file_ne hf) ?_
      rw [eventsOf_issue, if_neg hf, List.append_nil]
  | delRow n hpc =>
    simp only [Journal.note, hpc]
    rw [hpc] at h
    refine h.work rfl rfl rfl (fun hf => ?_) (fun hf st hst => ?_)
    · rw [mapDb_del, Function.update_of_ne (Ne.symm hf)]
    · subst hf
      obtain ⟨-, rfl⟩ := hst
      rw [mapDb_del, Function.update_self]
      trivial
  | updateRow n checksum hpc =>
    simp only [Journal.note, hpc]
    rw [hpc] at h
    refine h.work rfl rfl rfl (fun hf => Function.update_of_ne (Ne.symm hf) _ _) (fun hf st hst => ?_)
    subst hf
    obtain ⟨r, hr⟩ := row_of_due hst.1 hst.2
    refine ⟨hst.2, ⟨checksum, ?_⟩, Int.le_refl _⟩
    rw [mapDb_update hr, Function.update_self]
  | alertChanged n hpc =>
    simp only [Journal.note, hpc]
    rw [hpc] at h
    by_cases hf : n.name = f
    · subst hf
      refine h.issue rfl .changed n rfl (fun st hst => ?_)
      obtain ⟨⟨since, rfl, hlate⟩, hw⟩ := hst
      exact ⟨_, if_pos hlate, (agrees_of_settled rfl).2 (matches_written hw)⟩
    · refine h.other (file_ne hf) (file_ne hf) ?_
      rw [eventsOf_issue, if_neg hf, List.append_nil]
  | found n now old hpc | missing n now hpc | cancelTask n now old hpc | addTask n now hpc | setTask n t hpc
  | delTask n hpc =>
    simp only [Journal.note, hpc]
    exact h.settled (by rw [hpc]; rfl) rfl rfl

/-- The journal lists the calls of `Alerter::alert`. -/
theorem journal_alerts (C : Config) (now : Int) (db : DbMap) (ls : List Label) (s : St DbMap)
    (h : Machine.run (step C mapDb) (initial now db) ls = some s) :
    (journal C now db ls).issued.map (·.alert) = s.judge.alerts := by
  refine Machine.run_inv_history (step C mapDb) Journal.note (fun s j => j.issued.map (·.alert) = s.judge.alerts)
    (initial now db) .empty rfl (fun s l s' j hi hs => ?_) ls s h
  cases stepCase_of_step C mapDb s s' l hs with
  | outside l s' hl hnow hq hpc hj =>
    rw [Journal.note_outside s s' l j hl, hj]
    exact hi
  | alertCreated n hpc | alertDeleted n hpc | alertChanged n hpc =>
    simp only [Journal.note, hpc, Journal.issue, List.map_append, hi]
    rfl
  | insertRow n checksum hpc | updateRow n checksum hpc | found n now old hpc | missing n now hpc
  | cancelTask n now old hpc | addTask n now hpc | setTask n t hpc | delRow n hpc | delTask n hpc =>
    simp only [Journal.note, hpc]
    exact hi
  | _ => exact hi

theorem run_told (C : Config) (now : Int) (db : DbMap) (ls : List Label) (s : St DbMap)
    (h : Machine.run (step C mapDb) (initial now db) ls = some s) (f : Str) :
    Told C.interval s.now (start (db f)) f (s.judge.db f) (journal C now db ls) s.pc :=
  Machine.run_inv_history (step C mapDb) Journal.note
    (fun s j => Told C.interval s.now (start (db f)) f (s.judge.db f) j s.pc) (initial now db) .empty
    ⟨start (db f), rfl, (agrees_of_settled rfl).2 (matches_start now (db f))⟩
    (fun s l s' j hi hs => told_step C s s' l _ f j (stepCase_of_step C mapDb s s' l hs) hi) ls s h

/-- **The alerts of every file are a well-formed history**: in every run, over any database, creations and deletions
alternate, a change has a row to change, and every change or deletion is decided at least an interval after the time
written with the creation or change before it. -/
theorem alerts_wellFormed (C : Config) (now : Int) (db : DbMap) (ls : List Label) (s : St DbMap)
    (h : Machine.run (step C mapDb) (initial now db) ls = some s) (f : Str) :
    (journal C now db ls).issued.map (·.alert) = s.judge.alerts ∧
    Lifecycle.WellFormed C.interval (db f).isSome (eventsOf f (journal C now db ls).issued) ∧
    ∀ n, s.pc = .alertChanged n → (s.judge.db n.name).isSome = true := by
  obtain ⟨st, hrun, -⟩ := run_told C now db ls s h f
  have hwell := Lifecycle.wellFormed_of_run C.interval _ st _ hrun
  refine ⟨journal_alerts C now db ls s h, ?_, fun n hpc => ?_⟩
  · rwa [start, Option.isSome_map] at hwell
  · obtain ⟨st, -, hst⟩ := run_told C now db ls s h n.name
    rw [hpc, agrees_own rfl] at hst
    obtain ⟨sum, hr⟩ := hst.2.1
    rw [hr]; rfl

/-- A row of an earlier run, a change that is checked when the window is over, and a deletion a minute later. -/
def changedThenDeleted : List Label :=
  [.addWatch 1 (ascii "/w"), .startThreads,
    .tick 60, .change 1 (ascii "/w") (ascii "f"), .watch 1, .take, .enter, .checksum (ascii "/w/f") emptyFile, .work, .work,
    .work,
    .tick 120, .change 1 (ascii "/w") (ascii "f"), .watch 1, .take, .enter, .checksum (ascii "/w/f") goneFile, .work, .work,
    .work]

theorem changedThenDeleted_wellFormed : ∃ s,
    Machine.run (step minuteConfig mapDb) (initial 0 oldRow) changedThenDeleted = some s ∧
    eventsOf (ascii "/w/f") (journal minuteConfig 0 oldRow changedThenDeleted).issued =
      [⟨.changed, 60, 60⟩, ⟨.deleted, 120, 60⟩] ∧
    Lifecycle.WellFormed 60 true (eventsOf (ascii "/w/f") (journal minuteConfig 0 oldRow changedThenDeleted).issued) :=
  ⟨_, rfl, rfl, (alerts_wellFormed minuteConfig 0 oldRow changedThenDeleted _ rfl (ascii "/w/f")).2.1⟩

end CheckRealtime
