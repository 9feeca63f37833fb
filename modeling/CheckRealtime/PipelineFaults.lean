import CheckRealtime.PipelineSteps
/-!
# PipelineFaults — the database calls may fail

`faultyDb` is the table with a decision for each call whether SQLite refuses it: `find` then answers as it does for a file
without a row, and a write leaves the table as it was, which no caller looks at.  Nothing but the code keeps two rows of one
name apart.  `notFound_iff` and `faults_oneAlert` say which of the failures a file is safe from.
-/
namespace CheckRealtime

/-- The rows in the order of their insertion, and whether the calls to come fail. -/
structure Faulty where
  rows  : List (Str × Row)
  fails : Nat → Bool

namespace Faulty

/-- The next call: what it makes of the rows, unless it fails. -/
def call (db : Faulty) (rows : List (Str × Row)) : Faulty :=
  ⟨if db.fails 0 then db.rows else rows, fun k => db.fails (k + 1)⟩

/-- The rows of a file. -/
def rowsOf (db : Faulty) (f : Str) : List Row := (db.rows.filter (fun r => r.1 = f)).map Prod.snd

end Faulty

def faultyDb : DbOps Faulty where
  find db name              := (db.call db.rows, if db.fails 0 then none else (db.rowsOf name).head?)
  insert db name md5sum now := db.call (db.rows ++ [(name, md5sum, now)])
  update db name md5sum now := db.call (db.rows.map (fun r => if r.1 = name then (name, md5sum, now) else r))
  del db name               := db.call (db.rows.filter (fun r => r.1 ≠ name))

theorem rowsOf_call (db : Faulty) (rows : List (Str × Row)) (f : Str) : (db.call rows).rowsOf f =
    if db.fails 0 = true then db.rowsOf f else (Faulty.mk rows db.fails).rowsOf f := by
  unfold Faulty.call Faulty.rowsOf
  cases db.fails 0 <;> rfl

theorem rowsOf_find (db : Faulty) (name f : Str) : (faultyDb.find db name).1.rowsOf f = db.rowsOf f := by
  refine (rowsOf_call db db.rows f).trans ?_
  split <;> rfl

/-- What a find answers: nothing for a failed call, else the first row of the file. -/
theorem faultyDb_find_inv {db db' : Faulty} {name : Str} {row : Option Row} (h : faultyDb.find db name = (db', row)) :
    (∀ f, db'.rowsOf f = db.rowsOf f) ∧ row = if db.fails 0 = true then none else (db.rowsOf name).head? := by
  have h1 : (faultyDb.find db name).1 = db' := congrArg Prod.fst h
  have h2 : (faultyDb.find db name).2 = row := congrArg Prod.snd h
  exact ⟨fun f => h1 ▸ rowsOf_find db name f, h2.symm⟩

theorem rowsOf_insert (db : Faulty) (name md5sum : Str) (now : Int) (h : db.fails 0 = false) :
    (faultyDb.insert db name md5sum now).rowsOf name = db.rowsOf name ++ [(md5sum, now)] := by
  refine (rowsOf_call db _ name).trans ?_
  rw [h, if_neg Bool.false_ne_true]
  simp [Faulty.rowsOf]

theorem rowsOf_update (db : Faulty) (name md5sum : Str) (now : Int) (h : db.fails 0 = false) :
    (faultyDb.update db name md5sum now).rowsOf name = (db.rowsOf name).map (fun _ => (md5sum, now)) := by
  refine (rowsOf_call db _ name).trans ?_
  rw [h, if_neg Bool.false_ne_true]
  have hrows : ∀ rows : List (Str × Row),
      ((rows.map (fun r => if r.1 = name then (name, md5sum, now) else r)).filter (fun r => r.1 = name)).map Prod.snd =
        ((rows.filter (fun r => r.1 = name)).map Prod.snd).map (fun _ => (md5sum, now)) := by
    intro rows
    induction rows with
    | nil => rfl
    | cons r rows ih =>
      by_cases hr : r.1 = name
      · simpa [hr] using ih
      · simpa [hr] using ih
  exact hrows db.rows

theorem rowsOf_del (db : Faulty) (name : Str) (h : db.fails 0 = false) : (faultyDb.del db name).rowsOf name = [] := by
  refine (rowsOf_call db _ name).trans ?_
  rw [h, if_neg Bool.false_ne_true]
  simp [Faulty.rowsOf]

/-- A write that fails changes nothing, and none touches the rows of another file. -/
theorem rowsOf_insert_frame (db : Faulty) (name md5sum f : Str) (now : Int) (h : db.fails 0 = true ∨ name ≠ f) :
    (faultyDb.insert db name md5sum now).rowsOf f = db.rowsOf f := by
  refine (rowsOf_call db _ f).trans ?_
  split
  · rfl
  · rename_i hf
    have hn := h.resolve_left hf
    simp [Faulty.rowsOf, hn]

theorem rowsOf_update_frame (db : Faulty) (name md5sum f : Str) (now : Int) (h : db.fails 0 = true ∨ name ≠ f) :
    (faultyDb.update db name md5sum now).rowsOf f = db.rowsOf f := by
  refine (rowsOf_call db _ f).trans ?_
  split
  · rfl
  · rename_i hf
    have hn := h.resolve_left hf
    have hrows : ∀ rows : List (Str × Row),
        (rows.map (fun r => if r.1 = name then (name, md5sum, now) else r)).filter (fun r => r.1 = f) =
          rows.filter (fun r => r.1 = f) := by
      intro rows
      induction rows with
      | nil => rfl
      | cons r rows ih =>
        by_cases hr : r.1 = name
        · have hf : ¬ r.1 = f := fun e => hn (hr.symm.trans e)
          simpa [hr, hn, hf] using ih
        · by_cases hf : r.1 = f
          · have hfn : ¬ f = name := fun e => hn e.symm
            simpa [hr, hf, hfn] using ih
          · simpa [hr, hf] using ih
    exact congrArg (List.map Prod.snd) (hrows db.rows)

theorem rowsOf_del_frame (db : Faulty) (name f : Str) (h : db.fails 0 = true ∨ name ≠ f) :
    (faultyDb.del db name).rowsOf f = db.rowsOf f := by
  refine (rowsOf_call db _ f).trans ?_
  split
  · rfl
  · rename_i hf
    have hn := h.resolve_left hf
    refine congrArg (List.map Prod.snd) ?_
    show (db.rows.filter _).filter _ = _
    rw [List.filter_filter]
    refine List.filter_congr (fun r _ => ?_)
    by_cases hr : r.1 = f
    · simp [hr, Ne.symm hn]
    · simp [hr]

/-! ## A second row -/

/-- A call that is about to insert a row for the file and report it CREATED. -/
def Pc.creates (f : Str) : Pc → Bool
  | .newFile n     => decide (n.name = f)
  | .insertRow n _ => decide (n.name = f)
  | _              => false

/-- `find` does not fail on the file while it has a row. -/
def findAnswers (C : Config) (f : Str) (s : St Faulty) (l : Label) : Bool :=
  match l, s.pc with
  | .enter, .start n => n.name ≠ f || !C.passes n.dir f || (s.judge.db.rowsOf f).isEmpty || !s.judge.db.fails 0
  | _, _             => true

theorem findAnswers_enter {C : Config} {s : St Faulty} {n : AnalysisNode} (h : findAnswers C n.name s .enter = true)
    (hpc : s.pc = .start n) (hp : C.passes n.dir n.name = true) (hne : s.judge.db.rowsOf n.name ≠ []) :
    s.judge.db.fails 0 = false := by
  simpa [findAnswers, hpc, hp, hne] using h

/-- The file has one row at most, and none when it is about to be reported CREATED. -/
structure Single (f : Str) (pc : Pc) (rows : List Row) : Prop where
  created : pc.creates f = true → rows = []
  one     : rows.length ≤ 1

theorem Single.keep {f : Str} {pc pc' : Pc} {rows : List Row} (h : Single f pc rows) (hpc : pc'.creates f = false) :
    Single f pc' rows :=
  ⟨fun hc => (by rw [hpc] at hc; cases hc), h.one⟩

theorem single_step (C : Config) (f : Str) (s s' : St Faulty) (l : Label) (hs : StepCase C faultyDb s l s')
    (hc : findAnswers C f s l = true) (h : Single f s.pc (s.judge.db.rowsOf f)) : Single f s'.pc (s'.judge.db.rowsOf f) := by
  cases hs with
  | outside l s' hl hnow hq hpc hj =>
    rw [hpc, hj]
    exact h
  | tick | watch | pass => exact h
  | scanFile | take | skip | gone | differs | same | found | missing | cancelTask | addTask | setTask | alertDeleted
  | alertCreated | alertChanged | delTask => exact h.keep rfl
  | delay n db sum ts hpc hf | check n db sum ts hpc hf =>
    show Single f _ (db.rowsOf f)
    rw [(faultyDb_find_inv hf).1]
    exact h.keep rfl
  | new n db hpc hf hp =>
    obtain ⟨hrows, hrow⟩ := faultyDb_find_inv hf
    show Single f _ (db.rowsOf f)
    rw [hrows]
    refine ⟨fun hcreate => ?_, h.one⟩
    have hn : n.name = f := of_decide_eq_true hcreate
    subst hn
    by_contra hne
    rw [findAnswers_enter hc hpc hp hne, if_neg Bool.false_ne_true] at hrow
    exact hne (List.head?_eq_none_iff.1 hrow.symm)
  | looked n ob hpc =>
    rw [hpc] at h
    exact ⟨h.created, h.one⟩
  | insertRow n checksum hpc =>
    show Single f _ ((faultyDb.insert s.judge.db n.name checksum s.now).rowsOf f)
    by_cases hf : s.judge.db.fails 0 = true ∨ n.name ≠ f
    · rw [rowsOf_insert_frame _ _ _ _ _ hf]; exact h.keep rfl
    · obtain ⟨hfails, hn⟩ := not_or.1 hf
      obtain rfl := not_not.1 hn
      rw [rowsOf_insert _ _ _ _ (by simpa using hfails), h.created (by rw [hpc]; exact decide_eq_true rfl)]
      exact ⟨fun hcreate => (by cases hcreate), Nat.le_refl 1⟩
  | updateRow n checksum hpc =>
    show Single f _ ((faultyDb.update s.judge.db n.name checksum s.now).rowsOf f)
    by_cases hf : s.judge.db.fails 0 = true ∨ n.name ≠ f
    · rw [rowsOf_update_frame _ _ _ _ _ hf]; exact h.keep rfl
    · obtain ⟨hfails, hn⟩ := not_or.1 hf
      obtain rfl := not_not.1 hn
      rw [rowsOf_update _ _ _ _ (by simpa using hfails)]
      exact ⟨fun hcreate => (by cases hcreate), (List.length_map _).le.trans h.one⟩
  | delRow n hpc =>
    show Single f _ ((faultyDb.del s.judge.db n.name).rowsOf f)
    by_cases hf : s.judge.db.fails 0 = true ∨ n.name ≠ f
    · rw [rowsOf_del_frame _ _ _ hf]; exact h.keep rfl
    · obtain ⟨hfails, hn⟩ := not_or.1 hf
      obtain rfl := not_not.1 hn
      rw [rowsOf_del _ _ (by simpa using hfails)]
      exact ⟨fun hcreate => (by cases hcreate), Nat.zero_le 1⟩

/-- A `find` that fails while the file has a row leads on to CREATED. -/
theorem creates_over_row (C : Config) (f : Str) (s : St Faulty) (l : Label) (h : findAnswers C f s l = false) :
    ∃ s', step C faultyDb s l = some s' ∧ s'.pc.creates f = true ∧ s'.judge.db.rowsOf f ≠ [] := by
  unfold findAnswers at h
  split at h
  · rename_i n hpc
    simp only [Bool.or_eq_false_iff, decide_eq_false_iff_not, ne_eq, not_not, Bool.not_eq_false'] at h
    obtain ⟨⟨⟨rfl, hp⟩, hrows⟩, hfails⟩ := h
    have hfind : faultyDb.find s.judge.db n.name = (s.judge.db.call s.judge.db.rows, none) := by
      simp only [faultyDb, hfails, if_true]
    refine ⟨{ s with pc := .newFile n, judge := { s.judge with db := s.judge.db.call s.judge.db.rows } }, ?_,
      decide_eq_true rfl, fun hempty => ?_⟩
    · simp only [step, hpc, enter, hp, hfind, if_true]
    · have hempty : (s.judge.db.call s.judge.db.rows).rowsOf n.name = [] := hempty
      rw [(faultyDb_find_inv hfind).1] at hempty
      rw [hempty] at hrows
      cases hrows
  · cases h

theorem run_single (C : Config) (now : Int) (db : Faulty) (f : Str) (h0 : (db.rowsOf f).length ≤ 1) (ls : List Label)
    (s : St Faulty) (hm : Machine.Meets (step C faultyDb) (fun s l => findAnswers C f s l = true) (initial now db) ls)
    (h : Machine.run (step C faultyDb) (initial now db) ls = some s) : Single f s.pc (s.judge.db.rowsOf f) :=
  Machine.run_inv_meets (step C faultyDb) (fun s l => findAnswers C f s l = true) (fun s => Single f s.pc (s.judge.db.rowsOf f))
    (fun s l s' hc hi hs => single_step C f s s' l (stepCase_of_step C faultyDb s s' l hs) hc hi) (initial now db)
    ⟨fun h => (by cases h), h0⟩ ls s hm h

/-! ## A second alert -/

def alertsOf (f : Str) (alerts : List Alert) : Nat := alerts.countP (fun a => decide (a.name = f))

theorem alertsOf_alert (f : Str) (j : Judge Faulty) (level : Level) (n : AnalysisNode) :
    alertsOf f (j.alert level n.dir n.name).alerts = alertsOf f j.alerts + if n.name = f then 1 else 0 := by
  unfold alertsOf Judge.alert
  rw [List.countP_append, List.countP_cons, List.countP_nil]
  by_cases hf : n.name = f <;> simp [hf]

/-- No write for the file fails. -/
def writes (f : Str) (s : St Faulty) (l : Label) : Bool :=
  match l, s.pc with
  | .work, .insertRow n _ => n.name ≠ f || !s.judge.db.fails 0
  | .work, .updateRow n _ => n.name ≠ f || !s.judge.db.fails 0
  | .work, .delRow n      => n.name ≠ f || !s.judge.db.fails 0
  | _, _                  => true

theorem writes_work {s : St Faulty} {n : AnalysisNode} (h : writes n.name s .work = true)
    (hpc : (∃ c, s.pc = .insertRow n c) ∨ (∃ c, s.pc = .updateRow n c) ∨ s.pc = .delRow n) : s.judge.db.fails 0 = false := by
  rcases hpc with ⟨c, hpc⟩ | ⟨c, hpc⟩ | hpc <;> simpa [writes, hpc] using h

/-- A file without a row is there when `get_checksum` looks at it. -/
def looksAtFile (f : Str) (s : St Faulty) (l : Label) : Bool :=
  match l, s.pc with
  | .checksum _ ob, .newFile n => n.name ≠ f || !ob.absent
  | _, _                       => true

theorem looksAtFile_checksum {s : St Faulty} {n : AnalysisNode} {name : Str} {ob : Observed}
    (h : looksAtFile n.name s (.checksum name ob) = true) (hpc : s.pc = .newFile n) : ob.absent = false := by
  simpa [looksAtFile, hpc] using h

/-- The row of the file is what a check of the file would record. -/
def UpToDate (ob : Observed) (rows : List Row) : Prop :=
  if ob.absent = true then rows = [] else ∃ ts, rows = [((getChecksum ob []).2, ts)]

/-- Once the alert is out, the row is up to date. -/
def Quiet (ob : Observed) (rows : List Row) (raised : Nat) : Prop := raised = 0 ∨ raised = 1 ∧ UpToDate ob rows

/-- The file's row and the alerts raised for it, inside `do_analysis`. -/
def During (ob : Observed) (rows : List Row) (raised : Nat) : Pc → Prop
  | .newFile _      => rows = [] ∧ Quiet ob rows raised
  | .insertRow _ c  => rows = [] ∧ raised = 0 ∧ c = (getChecksum ob []).2 ∧ ob.absent = false
  | .alertCreated _ => raised = 0 ∧ UpToDate ob rows
  | .check _ sum    => (∃ ts, rows = [(sum, ts)]) ∧ Quiet ob rows raised
  | .alertDeleted _ => raised = 0 ∧ ob.absent = true
  | .delRow _       => raised = 1 ∧ ob.absent = true
  | .updateRow _ c  => (∃ r, rows = [r]) ∧ raised = 0 ∧ c = (getChecksum ob []).2 ∧ ob.absent = false
  | .alertChanged _ => raised = 0 ∧ UpToDate ob rows
  | _               => Quiet ob rows raised

def Steady (ob : Observed) (f : Str) (rows : List Row) (raised : Nat) (pc : Pc) : Prop :=
  if pc.file = some f then During ob rows raised pc else Quiet ob rows raised

section

variable {ob : Observed} {f : Str} {rows rows' : List Row} {raised : Nat} {pc pc' : Pc}

theorem steady_own (hpc : pc.file = some f) : Steady ob f rows raised pc ↔ During ob rows raised pc := by
  rw [Steady, if_pos hpc]

theorem steady_other (hpc : pc.file ≠ some f) : Steady ob f rows raised pc ↔ Quiet ob rows raised := by
  rw [Steady, if_neg hpc]

theorem steady_settled (hpc : pc.settled = true) : Steady ob f rows raised pc ↔ Quiet ob rows raised := by
  unfold Steady
  split
  · cases pc <;> first | exact Iff.rfl | cases hpc
  · exact Iff.rfl

theorem quiet_le (h : Quiet ob rows raised) : raised ≤ 1 := by
  rcases h with rfl | ⟨rfl, -⟩
  · exact Nat.zero_le 1
  · exact Nat.le_refl 1

theorem steady_le (h : Steady ob f rows raised pc) : raised ≤ 1 := by
  unfold Steady at h
  split at h
  · cases pc with
    | newFile | check => exact quiet_le h.2
    | insertRow | updateRow => exact h.2.1 ▸ Nat.zero_le 1
    | alertCreated | alertDeleted | alertChanged => exact h.1 ▸ Nat.zero_le 1
    | delRow => exact h.1 ▸ Nat.le_refl 1
    | _ => exact quiet_le h
  · exact quiet_le h

/-- A file that a check finds different from its row has not been reported. -/
theorem quiet_outdated (h : Quiet ob rows raised) (hne : ¬ UpToDate ob rows) : raised = 0 :=
  h.resolve_right (fun hu => hne hu.2)

theorem upToDate_absent (ha : ob.absent = true) : UpToDate ob rows ↔ rows = [] := by
  rw [UpToDate, if_pos ha]

theorem upToDate_there (ha : ob.absent = false) : UpToDate ob rows ↔ ∃ ts, rows = [((getChecksum ob []).2, ts)] := by
  rw [UpToDate, if_neg (by simp [ha])]

end

/-- The alerts raised for the file since there were `k`, and where that leaves its row. -/
def Raised (ob : Observed) (f : Str) (k : Nat) (alerts : List Alert) (rows : List Row) (pc : Pc) : Prop :=
  ∃ raised, alertsOf f alerts = k + raised ∧ Steady ob f rows raised pc

section

variable {ob : Observed} {f : Str} {k : Nat} {alerts : List Alert} {rows rows' : List Row} {pc pc' : Pc}

theorem Raised.imp (h : Raised ob f k alerts rows pc)
    (hA : ∀ raised, Steady ob f rows raised pc → Steady ob f rows' raised pc') : Raised ob f k alerts rows' pc' := by
  obtain ⟨raised, hk, hst⟩ := h
  exact ⟨raised, hk, hA raised hst⟩

theorem Raised.settled (h : Raised ob f k alerts rows pc) (hpc : pc.settled = true) (hpc' : pc'.settled = true) :
    Raised ob f k alerts rows pc' :=
  h.imp (fun _ hst => (steady_settled hpc').2 ((steady_settled hpc).1 hst))

theorem Raised.other (h : Raised ob f k alerts rows pc) (hpc : pc.file ≠ some f) (hpc' : pc'.file ≠ some f) :
    Raised ob f k alerts rows pc' :=
  h.imp (fun _ hst => (steady_other hpc').2 ((steady_other hpc).1 hst))

/-- A step of the analysis of one file, which leaves the rows of the others. -/
theorem Raised.work (h : Raised ob f k alerts rows pc) {name : Str} (hpc : pc.file = some name) (hpc' : pc'.file = some name)
    (hframe : name ≠ f → rows' = rows)
    (hown : name = f → ∀ raised, During ob rows raised pc → During ob rows' raised pc') :
    Raised ob f k alerts rows' pc' := by
  by_cases hn : name = f
  · subst hn
    exact h.imp (fun raised hst => (steady_own hpc').2 (hown rfl raised ((steady_own hpc).1 hst)))
  · have hother : some name ≠ some f := fun e => hn (Option.some.inj e)
    rw [hframe hn]
    exact h.other (by rw [hpc]; exact hother) (by rw [hpc']; exact hother)

/-- **One more alert**, when there was none. -/
theorem Raised.alert {j : Judge Faulty} (h : Raised ob f k j.alerts rows pc) (hpc : pc.file = some f) (level : Level)
    (n : AnalysisNode) (hn : n.name = f)
    (hA : ∀ raised, During ob rows raised pc → raised = 0 ∧ Steady ob f rows 1 pc') :
    Raised ob f k (j.alert level n.dir n.name).alerts rows pc' := by
  obtain ⟨raised, hk, hst⟩ := h
  obtain ⟨rfl, hst'⟩ := hA raised ((steady_own hpc).1 hst)
  exact ⟨1, by rw [alertsOf_alert, if_pos hn, hk], hst'⟩

theorem Raised.alert_other {j : Judge Faulty} (h : Raised ob f k j.alerts rows pc) (hpc : pc.file ≠ some f)
    (hpc' : pc'.file ≠ some f) (level : Level) (n : AnalysisNode) (hn : n.name ≠ f) :
    Raised ob f k (j.alert level n.dir n.name).alerts rows pc' := by
  obtain ⟨raised, hk, hst⟩ := h.other hpc hpc'
  exact ⟨raised, by rw [alertsOf_alert, if_neg hn, hk, Nat.add_zero], hst⟩

end

/-- No failure reaches the file: `find` answers, its writes are done, and it is there when it has no row. -/
def sound (C : Config) (f : Str) (s : St Faulty) (l : Label) : Bool :=
  findAnswers C f s l && writes f s l && looksAtFile f s l

theorem sound_iff (C : Config) (f : Str) (s : St Faulty) (l : Label) : sound C f s l = true ↔
    findAnswers C f s l = true ∧ writes f s l = true ∧ looksAtFile f s l = true := by
  rw [sound, Bool.and_eq_true, Bool.and_eq_true, and_assoc]

/-- The file does not change: every look at it sees the same. -/
def Unchanged (f : Str) (ob : Observed) (l : Label) : Prop := ∀ ob', l = .checksum f ob' → ob' = ob

theorem raised_step (C : Config) (f : Str) (ob : Observed) (k : Nat) (s s' : St Faulty) (l : Label)
    (hs : StepCase C faultyDb s l s') (hc : sound C f s l = true) (hu : Unchanged f ob l)
    (h₁ : Single f s.pc (s.judge.db.rowsOf f)) (h : Raised ob f k s.judge.alerts (s.judge.db.rowsOf f) s.pc) :
    Raised ob f k s'.judge.alerts (s'.judge.db.rowsOf f) s'.pc := by
  obtain ⟨hfind, hwrites, hlooks⟩ := (sound_iff C f s l).1 hc
  have hsingle := single_step C f s s' l hs hfind h₁
  cases hs with
  | outside l s' hl hnow hq hpc hj =>
    rw [hpc, hj]
    exact h
  | tick | watch | pass => exact h
  | scanFile n hpc | take n q hq hpc | skip n hpc | found n now old hpc | missing n now hpc | cancelTask n now old hpc
  | addTask n now hpc | setTask n t hpc | delTask n hpc => exact h.settled (by rw [hpc]; rfl) rfl
  | delay n db sum ts hpc hf =>
    show Raised ob f k s.judge.alerts (db.rowsOf f) _
    rw [(faultyDb_find_inv hf).1]
    exact h.settled (by rw [hpc]; rfl) rfl
  | new n db hpc hf =>
    show Raised ob f k s.judge.alerts (db.rowsOf f) _
    have hsingle : Single f (.newFile n) (db.rowsOf f) := hsingle
    rw [(faultyDb_find_inv hf).1] at hsingle ⊢
    rw [hpc] at h
    refine h.work rfl rfl (fun _ => rfl) (fun hn raised hst => ?_)
    exact ⟨hsingle.created (decide_eq_true hn), hst⟩
  | check n db sum ts hpc hf =>
    obtain ⟨hrows, hrow⟩ := faultyDb_find_inv hf
    show Raised ob f k s.judge.alerts (db.rowsOf f) _
    rw [hrows]
    rw [hpc] at h
    refine h.work rfl rfl (fun _ => rfl) (fun hn raised hst => ⟨⟨ts, ?_⟩, hst⟩)
    subst hn
    split at hrow
    · cases hrow
    · have hone := h₁.one
      cases hr : s.judge.db.rowsOf n.name with
      | nil => rw [hr] at hrow; cases hrow
      | cons r rest =>
        rw [hr] at hrow hone
        have hrest : rest = [] := List.length_eq_zero_iff.1 (by simpa using hone)
        cases hrow
        rw [hrest]
  | looked n ob' hpc =>
    rw [hpc] at h
    refine h.work rfl rfl (fun _ => rfl) (fun hn raised hst => ?_)
    subst hn
    obtain rfl := hu ob' rfl
    have ha := looksAtFile_checksum hlooks hpc
    refine ⟨hst.1, quiet_outdated hst.2 (fun hup => ?_), rfl, ha⟩
    obtain ⟨ts, hrow⟩ := (upToDate_there ha).1 hup
    rw [hst.1] at hrow
    cases hrow
  | gone n sum ob' hpc ha =>
    rw [hpc] at h
    refine h.work rfl rfl (fun _ => rfl) (fun hn raised hst => ?_)
    subst hn
    obtain rfl := hu ob' rfl
    obtain ⟨⟨ts, hrow⟩, hq⟩ := hst
    refine ⟨quiet_outdated hq (fun hup => ?_), ha⟩
    rw [(upToDate_absent ha).1 hup] at hrow
    cases hrow
  | differs n sum ob' hpc ha hne =>
    rw [hpc] at h
    refine h.work rfl rfl (fun _ => rfl) (fun hn raised hst => ?_)
    subst hn
    obtain rfl := hu ob' rfl
    obtain ⟨⟨ts, hrow⟩, hq⟩ := hst
    refine ⟨⟨_, hrow⟩, quiet_outdated hq (fun hup => ?_), rfl, ha⟩
    obtain ⟨ts', hrow'⟩ := (upToDate_there ha).1 hup
    rw [hrow] at hrow'
    cases hrow'
    exact hne rfl
  | same n sum ob' hpc =>
    rw [hpc] at h
    exact h.work rfl rfl (fun _ => rfl) (fun _ raised hst => hst.2)
  | insertRow n checksum hpc =>
    show Raised ob f k s.judge.alerts ((faultyDb.insert s.judge.db n.name checksum s.now).rowsOf f) _
    rw [hpc] at h
    refine h.work rfl rfl (fun hn => rowsOf_insert_frame _ _ _ _ _ (Or.inr hn)) (fun hn raised hst => ?_)
    subst hn
    rw [rowsOf_insert _ _ _ _ (writes_work hwrites (Or.inl ⟨checksum, hpc⟩))]
    obtain ⟨hrow, hzero, rfl, ha⟩ := hst
    exact ⟨hzero, (upToDate_there ha).2 ⟨s.now, by rw [hrow]; rfl⟩⟩
  | updateRow n checksum hpc =>
    show Raised ob f k s.judge.alerts ((faultyDb.update s.judge.db n.name checksum s.now).rowsOf f) _
    rw [hpc] at h
    refine h.work rfl rfl (fun hn => rowsOf_update_frame _ _ _ _ _ (Or.inr hn)) (fun hn raised hst => ?_)
    subst hn
    rw [rowsOf_update _ _ _ _ (writes_work hwrites (Or.inr (Or.inl ⟨checksum, hpc⟩)))]
    obtain ⟨⟨r, hrow⟩, hzero, rfl, ha⟩ := hst
    exact ⟨hzero, (upToDate_there ha).2 ⟨s.now, by rw [hrow]; rfl⟩⟩
  | delRow n hpc =>
    show Raised ob f k s.judge.alerts ((faultyDb.del s.judge.db n.name).rowsOf f) _
    rw [hpc] at h
    refine h.work rfl rfl (fun hn => rowsOf_del_frame _ _ _ (Or.inr hn)) (fun hn raised hst => ?_)
    subst hn
    rw [rowsOf_del _ _ (writes_work hwrites (Or.inr (Or.inr hpc)))]
    exact Or.inr ⟨hst.1, (upToDate_absent hst.2).2 rfl⟩
  | alertCreated n hpc =>
    rw [hpc] at h
    by_cases hn : n.name = f
    · exact h.alert (congrArg some hn) .created n hn
        (fun raised hst => ⟨hst.1, (steady_settled rfl).2 (Or.inr ⟨rfl, hst.2⟩)⟩)
    · exact h.alert_other (file_ne hn) (fun e => by cases e) .created n hn
  | alertChanged n hpc =>
    rw [hpc] at h
    by_cases hn : n.name = f
    · exact h.alert (congrArg some hn) .changed n hn
        (fun raised hst => ⟨hst.1, (steady_settled rfl).2 (Or.inr ⟨rfl, hst.2⟩)⟩)
    · refine h.alert_other (file_ne hn) ?_ .changed n hn
      exact file_ne hn
  | alertDeleted n hpc =>
    rw [hpc] at h
    by_cases hn : n.name = f
    · subst hn
      refine h.alert rfl .deleted n rfl (fun raised hst => ⟨hst.1, ?_⟩)
      exact (steady_own rfl).2 ⟨rfl, hst.2⟩
    · refine h.alert_other (file_ne hn) ?_ .deleted n hn
      exact file_ne hn

/-- **What a failure of the database does to a file.**  A file is never about to be reported CREATED over a row of its own
just when no `find` fails while it has one, and then it never has two rows.  When its writes are done as well, and it is there
whenever it is looked at without a row, analyses of it while it does not change raise one alert at most. -/
theorem faults_harmless (C : Config) (now : Int) (db : Faulty) (f : Str) (h0 : (db.rowsOf f).length ≤ 1) (ls : List Label)
    (s : St Faulty) (h : Machine.run (step C faultyDb) (initial now db) ls = some s) :
    ((∀ l₁ s₁, l₁ <+: ls → Machine.run (step C faultyDb) (initial now db) l₁ = some s₁ → s₁.pc.creates f = true →
        s₁.judge.db.rowsOf f = []) ↔
      Machine.Meets (step C faultyDb) (fun s l => findAnswers C f s l = true) (initial now db) ls) ∧
    (Machine.Meets (step C faultyDb) (fun s l => findAnswers C f s l = true) (initial now db) ls →
      (s.judge.db.rowsOf f).length ≤ 1) ∧
    (Machine.Meets (step C faultyDb) (fun s l => sound C f s l = true) (initial now db) ls →
      ∀ l₁ l₂ s₁ ob, l₁ ++ l₂ = ls → Machine.run (step C faultyDb) (initial now db) l₁ = some s₁ → s₁.pc = .idle →
        (∀ l ∈ l₂, Unchanged f ob l) → alertsOf f s.judge.alerts ≤ alertsOf f s₁.judge.alerts + 1) := by
  refine ⟨⟨fun hall l₁ l s₁ hp hs => ?_, fun hm l₁ s₁ hp hs => ?_⟩, fun hm => (run_single C now db f h0 ls s hm h).one, ?_⟩
  · by_contra hfind
    obtain ⟨s₂, hstep, hcreates, hrows⟩ := creates_over_row C f s₁ l (Bool.not_eq_true _ ▸ hfind)
    exact hrows (hall (l₁ ++ [l]) s₂ hp (by rw [Machine.run_snoc, hs]; exact hstep) hcreates)
  · exact (run_single C now db f h0 l₁ s₁ (hm.of_prefix hp) hs).created
  · intro hm l₁ l₂ s₁ ob hl hs hpc hu
    subst hl
    have h₁ : Single f s₁.pc (s₁.judge.db.rowsOf f) := run_single C now db f h0 l₁ s₁
      ((hm.of_prefix (List.prefix_append l₁ l₂)).imp (fun s l hc => ((sound_iff C f s l).1 hc).1)) hs
    have hrun : Machine.run (step C faultyDb) s₁ l₂ = some s := by
      rw [Machine.run_append, hs] at h
      exact h
    have hm₂ : Machine.Meets (step C faultyDb) (fun s l => sound C f s l = true ∧ Unchanged f ob l) s₁ l₂ :=
      fun l₃ l t hp ht => ⟨hm.of_append hs l₃ l t hp ht, hu l (hp.subset (List.mem_append_right l₃ List.mem_cons_self))⟩
    have hend : Single f s.pc (s.judge.db.rowsOf f) ∧
        Raised ob f (alertsOf f s₁.judge.alerts) s.judge.alerts (s.judge.db.rowsOf f) s.pc := by
      refine Machine.run_inv_meets (step C faultyDb) (fun s l => sound C f s l = true ∧ Unchanged f ob l)
        (fun s => Single f s.pc (s.judge.db.rowsOf f) ∧
          Raised ob f (alertsOf f s₁.judge.alerts) s.judge.alerts (s.judge.db.rowsOf f) s.pc) ?_ s₁
        ⟨h₁, 0, rfl, (steady_settled (by rw [hpc]; rfl)).2 (Or.inl rfl)⟩ l₂ s hm₂ hrun
      intro s l s' hc hi hs
      have hs := stepCase_of_step C faultyDb s s' l hs
      exact ⟨single_step C f s s' l hs ((sound_iff C f s l).1 hc.1).1 hi.1,
        raised_step C f ob _ s s' l hs hc.1 hc.2 hi.1 hi.2⟩
    obtain ⟨raised, hk, hst⟩ := hend.2
    have := steady_le hst
    omega

/-- Two analyses of a file of which every look sees the same. -/
def analysedTwice : List Label :=
  let node : AnalysisNode := ⟨ascii "/w", ascii "/w/f"⟩
  [.scanFile node, .enter, .checksum (ascii "/w/f") emptyFile, .work, .work,
    .scanFile node, .enter, .checksum (ascii "/w/f") emptyFile, .work, .work]

/-- The first `find` fails on a recorded file: a second row, and CREATED over it.  Both inserts fail: CREATED twice. -/
theorem analysedTwice_fails :
    (Machine.run (step plainConfig faultyDb)
        (initial 5 ⟨[(ascii "/w/f", (getChecksum emptyFile []).2, 0)], fun k => decide (k = 0)⟩) (analysedTwice.take 5)).map
      (fun s => ((s.judge.db.rowsOf (ascii "/w/f")).length, s.judge.alerts)) =
        some (2, [⟨.created, ascii "/w", ascii "/w/f"⟩]) ∧
    (Machine.run (step plainConfig faultyDb) (initial 5 ⟨[], fun k => decide (k = 1) || decide (k = 3)⟩) analysedTwice).map
      (fun s => ((s.judge.db.rowsOf (ascii "/w/f")).length, s.judge.alerts)) =
        some (0, [⟨.created, ascii "/w", ascii "/w/f"⟩, ⟨.created, ascii "/w", ascii "/w/f"⟩]) := by
  refine ⟨by decide, by decide⟩

/-- The first `find` fails, on a file without a row: no harm done. -/
theorem analysedTwice_harmless : ∃ s,
    Machine.run (step plainConfig faultyDb) (initial 5 ⟨[], fun k => decide (k = 0)⟩) (analysedTwice.take 9) = some s ∧
    (s.judge.db.rowsOf (ascii "/w/f")).length ≤ 1 ∧ alertsOf (ascii "/w/f") s.judge.alerts ≤ 1 := by
  have hrun : Machine.run (step plainConfig faultyDb) (initial 5 ⟨[], fun k => decide (k = 0)⟩) (analysedTwice.take 9) =
      some _ := (Option.some_get (by decide)).symm
  have hall := faults_harmless plainConfig 5 ⟨[], fun k => decide (k = 0)⟩ (ascii "/w/f") (by decide) _ _ hrun
  refine ⟨_, hrun, hall.2.1 (Machine.Meets.of_meets _ _ _ _ (by decide)), ?_⟩
  have hsame : ∀ l ∈ analysedTwice.take 9, Unchanged (ascii "/w/f") emptyFile l := by
    intro l hl ob' e
    subst e
    simpa [analysedTwice] using hl
  exact hall.2.2 (Machine.Meets.of_meets _ _ _ _ (by decide)) [] _ _ emptyFile rfl rfl rfl hsame

end CheckRealtime
