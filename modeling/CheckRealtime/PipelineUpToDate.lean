import CheckRealtime.PipelineSettles
/-!
# PipelineUpToDate — what the table says once a file is dealt with

`lastSeen` reads off a run what `get_checksum` saw of a file, if the file has not changed since.  While a call is under way
its place says what it will make of that (`Knows`); between calls the row says it.  A changed file is on its way to a check
or was seen after its last change (`onItsWay_or_seen`), which gives the purpose of the program (`upToDate_of_not_onItsWay`):
when no check of a changed file is left anywhere, its row tells the file as it was seen after its last change.
-/
namespace CheckRealtime

/-! ## The last look -/

/-- A change of the file makes what was seen of it worthless. -/
def see (f : Str) (seen : Option Observed) : Label → Option Observed
  | .change _ dir name => if finalName dir name = f then none else seen
  | .checksum name ob  => if name = f then some ob else seen
  | _                  => seen

/-- What `get_checksum` saw when it last looked at the file, unless the file has changed since. -/
def lastSeen (f : Str) (ls : List Label) : Option Observed := ls.foldl (see f) none

theorem lastSeen_snoc (f : Str) (ls : List Label) (l : Label) : lastSeen f (ls ++ [l]) = see f (lastSeen f ls) l := by
  rw [lastSeen, List.foldl_append]
  rfl

/-- A change of the file. -/
def Label.changes (f : Str) : Label → Bool
  | .change _ dir name => decide (finalName dir name = f)
  | _                  => false

/-- A file that has changed is on its way to a check, or was seen after its last change. -/
theorem onItsWay_or_seen {σ : Type} (C : Config) (D : DbOps σ) (now : Int) (db : σ) (ls : List Label) (s : St σ)
    (h : Machine.run (step C D) (initial now db) ls = some s) (f : Str) (hf : C.Passing f)
    (hc : ∃ l ∈ ls, l.changes f = true) : OnItsWay s f ∨ (lastSeen f ls).isSome = true := by
  refine Machine.run_inv_hist (step C D)
    (fun ls s => (∃ l ∈ ls, l.changes f = true) → OnItsWay s f ∨ (lastSeen f ls).isSome = true) (initial now db)
    (fun hc => ?_) (fun ls s l s' hrun ih hs hc => ?_) ls s h hc
  · obtain ⟨l, hl, -⟩ := hc
    cases hl
  · have hT := run_tasksNamed C D now db ls s hrun
    have hold : l.changes f = false → (∀ ob, l ≠ .checksum f ob) → OnItsWay s' f ∨ (lastSeen f ls).isSome = true := by
      intro hl hob
      obtain ⟨l', hmem, hl'⟩ := hc
      have hls : l' ∈ ls := (List.mem_append.1 hmem).resolve_right (fun h => by
        rw [List.mem_singleton.1 h, hl] at hl'
        cases hl')
      exact (ih ⟨l', hls, hl'⟩).imp_left (onItsWay_step C D s s' l f hf hT hs hob)
    rw [lastSeen_snoc]
    cases l with
    | change wd dir name =>
      by_cases hfn : finalName dir name = f
      · exact Or.inl (hfn ▸ onItsWay_change C D s s' wd dir name hs)
      · rw [see, if_neg hfn]
        exact hold (decide_eq_false hfn) (fun ob e => by cases e)
    | checksum name ob =>
      by_cases hname : name = f
      · exact Or.inr (by rw [see, if_pos hname]; rfl)
      · rw [see, if_neg hname]
        exact hold rfl (fun ob' e => by cases e; exact hname rfl)
    | _ => exact hold rfl (fun ob e => by cases e)

/-! ## The row -/

/-- What a look at the file leaves in its row: the string it came to, or no row when the file was gone. -/
def RowFor (ob : Observed) (row : Option Row) : Prop :=
  (∃ ts, row = some ((getChecksum ob []).2, ts)) ∨ ob.absent = true ∧ row = none

/-- The row says what was seen. -/
def Learned (f : Str) (db : DbMap) (seen : Option Observed) : Prop := ∀ ob, seen = some ob → RowFor ob (db f)

/-- Inside a call of the file, which may have a row in hand. -/
def MidCall (f : Str) (db : DbMap) (seen : Option Observed) : Pc → Prop
  | .newFile _      => db f = none ∧ Learned f db seen
  | .check _ sum    => (∃ ts, db f = some (sum, ts)) ∧ Learned f db seen
  | .insertRow _ c  => ∀ ob, seen = some ob → c = (getChecksum ob []).2
  | .updateRow _ c  => (∃ r, db f = some r) ∧ ∀ ob, seen = some ob → c = (getChecksum ob []).2
  | .alertDeleted _ => ∀ ob, seen = some ob → ob.absent = true
  | .delRow _       => ∀ ob, seen = some ob → ob.absent = true
  | _               => Learned f db seen

def Knows (f : Str) (db : DbMap) (seen : Option Observed) (pc : Pc) : Prop :=
  if pc.file = some f then MidCall f db seen pc else Learned f db seen

section

variable {f : Str} {db db' : DbMap} {seen : Option Observed} {pc pc' : Pc}

theorem knows_own (hpc : pc.file = some f) : Knows f db seen pc ↔ MidCall f db seen pc := by
  rw [Knows, if_pos hpc]

theorem knows_other (hpc : pc.file ≠ some f) : Knows f db seen pc ↔ Learned f db seen := by
  rw [Knows, if_neg hpc]

theorem knows_settled (hpc : pc.settled = true) : Knows f db seen pc ↔ Learned f db seen := by
  unfold Knows
  split
  · cases pc <;> first | exact Iff.rfl | cases hpc
  · exact Iff.rfl

/-- A call of another file changes nothing of this one's row. -/
theorem Knows.other (h : Knows f db seen pc) (hpc : pc.file ≠ some f) (hpc' : pc'.file ≠ some f) (hdb : db' f = db f) :
    Knows f db' seen pc' := by
  rw [knows_other hpc', Learned, hdb]
  exact (knows_other hpc).1 h

theorem Knows.settled (h : Knows f db seen pc) (hpc : pc.settled = true) (hpc' : pc'.settled = true) :
    Knows f db seen pc' :=
  (knows_settled hpc').2 ((knows_settled hpc).1 h)

/-- A change of the file leaves nothing known of it but whether it has a row. -/
theorem Knows.forget (h : Knows f db seen pc) : Knows f db none pc := by
  unfold Knows at h ⊢
  split
  · rename_i hpc
    rw [if_pos hpc] at h
    cases pc with
    | newFile n => exact ⟨h.1, fun ob e => by cases e⟩
    | check n sum => exact ⟨h.1, fun ob e => by cases e⟩
    | updateRow n c => exact ⟨h.1, fun ob e => by cases e⟩
    | _ => exact fun ob e => by cases e
  · exact fun ob e => by cases e

end

/-! ## Over whole runs -/

/-- **Every step keeps what is known in step with what was seen.** -/
theorem knows_step (C : Config) (f : Str) (s s' : St DbMap) (l : Label) (seen : Option Observed)
    (hs : StepCase C mapDb s l s') (h : Knows f s.judge.db seen s.pc) : Knows f s'.judge.db (see f seen l) s'.pc := by
  -- a call of another file leaves this one alone
  have hother : ∀ {n : AnalysisNode} {pc : Pc} {db : DbMap}, s.pc.file = some n.name → pc.file = some n.name ∨ pc.file = none →
      n.name ≠ f → db f = s.judge.db f → Knows f db seen pc := fun hpc hpc' hf hdb =>
    h.other (by rw [hpc]; exact file_ne hf) (by rcases hpc' with e | e <;> rw [e]; exacts [file_ne hf, fun e => by cases e]) hdb
  cases hs with
  | outside l s' hl hnow hq hpc hj =>
    rw [hj, hpc]
    cases l with
    | change wd dir name =>
      rw [see]
      split
      · exact h.forget
      · exact h
    | addWatch | unnamed | startThreads => exact h
    | _ => cases hl
  | tick t ht => exact h
  | watch count => exact h
  | pass => exact h
  | scanFile n hpc | take n q hq hpc | skip n hpc hp => exact h.settled (by rw [hpc]; rfl) rfl
  | found n now old hpc hold | missing n now hpc hold | cancelTask n now old hpc | addTask n now hpc | setTask n t hpc
  | delTask n hpc => exact h.settled (by rw [hpc]; rfl) rfl
  | delay n db sum ts hpc hf hd =>
    obtain ⟨rfl, -⟩ := mapDb_find_inv hf
    exact h.settled (by rw [hpc]; rfl) rfl
  | new n db hpc hf =>
    obtain ⟨rfl, hrow⟩ := mapDb_find_inv hf
    by_cases hn : n.name = f
    · exact (knows_own (by exact congrArg some hn)).2 ⟨hn ▸ hrow, (knows_settled (by rw [hpc]; rfl)).1 h⟩
    · exact hother (by rw [hpc]; rfl) (Or.inl rfl) hn rfl
  | check n db sum ts hpc hf hd =>
    obtain ⟨rfl, hrow⟩ := mapDb_find_inv hf
    by_cases hn : n.name = f
    · exact (knows_own (by exact congrArg some hn)).2 ⟨⟨ts, hn ▸ hrow⟩, (knows_settled (by rw [hpc]; rfl)).1 h⟩
    · exact hother (by rw [hpc]; rfl) (Or.inl rfl) hn rfl
  | looked n ob hpc =>
    rw [see]
    by_cases hn : n.name = f
    · rw [if_pos hn]
      exact (knows_own (by exact congrArg some hn)).2 (fun ob' e => by cases e; rfl)
    · rw [if_neg hn]
      exact hother (by rw [hpc]; rfl) (Or.inl rfl) hn rfl
  | gone n sum ob hpc ha =>
    rw [see]
    by_cases hn : n.name = f
    · rw [if_pos hn]
      exact (knows_own (by exact congrArg some hn)).2 (fun ob' e => by cases e; exact ha)
    · rw [if_neg hn]
      exact hother (by rw [hpc]; rfl) (Or.inl rfl) hn rfl
  | differs n sum ob hpc ha hc =>
    rw [see]
    by_cases hn : n.name = f
    · rw [if_pos hn]
      have hm := (knows_own (by rw [hpc]; exact congrArg some hn)).1 h
      rw [hpc] at hm
      obtain ⟨ts, hrow⟩ := hm.1
      exact (knows_own (by exact congrArg some hn)).2 ⟨⟨_, hrow⟩, fun ob' e => by cases e; rfl⟩
    · rw [if_neg hn]
      exact hother (by rw [hpc]; rfl) (Or.inl rfl) hn rfl
  | same n sum ob hpc ha hc =>
    rw [see]
    by_cases hn : n.name = f
    · rw [if_pos hn]
      have hm := (knows_own (by rw [hpc]; exact congrArg some hn)).1 h
      rw [hpc] at hm
      obtain ⟨ts, hrow⟩ := hm.1
      exact (knows_settled rfl).2 (fun ob' e => by cases e; exact Or.inl ⟨ts, by rw [hc]; exact hrow⟩)
    · rw [if_neg hn]
      exact hother (by rw [hpc]; rfl) (Or.inl rfl) hn rfl
  | insertRow n checksum hpc =>
    by_cases hn : n.name = f
    · have hm := (knows_own (by rw [hpc]; exact congrArg some hn)).1 h
      rw [hpc] at hm
      refine (knows_own (by exact congrArg some hn)).2 (fun ob e => Or.inl ⟨s.now, ?_⟩)
      rw [← hm ob e, ← hn]
      exact Function.update_self _ _ _
    · exact hother (by rw [hpc]; rfl) (Or.inl rfl) hn (Function.update_of_ne (Ne.symm hn) _ _)
  | updateRow n checksum hpc =>
    by_cases hn : n.name = f
    · have hm := (knows_own (by rw [hpc]; exact congrArg some hn)).1 h
      rw [hpc] at hm
      obtain ⟨⟨r, hrow⟩, hsum⟩ := hm
      refine (knows_own (by exact congrArg some hn)).2 (fun ob e => Or.inl ⟨s.now, ?_⟩)
      rw [← hsum ob e, ← hn]
      exact (congrFun (mapDb_update (hn.symm ▸ hrow) checksum s.now) n.name).trans (Function.update_self _ _ _)
    · exact hother (by rw [hpc]; rfl) (Or.inl rfl) hn (Function.update_of_ne (Ne.symm hn) _ _)
  | delRow n hpc =>
    by_cases hn : n.name = f
    · have hm := (knows_own (by rw [hpc]; exact congrArg some hn)).1 h
      rw [hpc] at hm
      refine (knows_settled rfl).2 (fun ob e => Or.inr ⟨hm ob e, ?_⟩)
      rw [← hn]
      exact Function.update_self _ _ _
    · exact hother (by rw [hpc]; rfl) (Or.inl rfl) hn (Function.update_of_ne (Ne.symm hn) _ _)
  | alertCreated n hpc | alertChanged n hpc =>
    by_cases hn : n.name = f
    · have hm := (knows_own (by rw [hpc]; exact congrArg some hn)).1 h
      rw [hpc] at hm
      exact (knows_settled rfl).2 hm
    · exact hother (by rw [hpc]; rfl) (by first | exact Or.inl rfl | exact Or.inr rfl) hn rfl
  | alertDeleted n hpc =>
    by_cases hn : n.name = f
    · have hm := (knows_own (by rw [hpc]; exact congrArg some hn)).1 h
      rw [hpc] at hm
      exact (knows_own (by exact congrArg some hn)).2 hm
    · exact hother (by rw [hpc]; rfl) (Or.inl rfl) hn rfl

theorem run_knows (C : Config) (now : Int) (db : DbMap) (f : Str) (ls : List Label) (s : St DbMap)
    (h : Machine.run (step C mapDb) (initial now db) ls = some s) : Knows f s.judge.db (lastSeen f ls) s.pc := by
  refine Machine.run_inv_hist (step C mapDb) (fun ls s => Knows f s.judge.db (lastSeen f ls) s.pc) (initial now db)
    ((knows_settled rfl).2 (fun ob e => by cases e)) (fun ls s l s' hrun ih hs => ?_) ls s h
  rw [lastSeen_snoc]
  exact knows_step C f s s' l _ (stepCase_of_step C mapDb s s' l hs) ih

/-- **When no check of a changed file is left anywhere, its row tells the file as it was seen after its last change.** -/
theorem upToDate_of_not_onItsWay (C : Config) (now : Int) (db : DbMap) (ls : List Label) (s : St DbMap)
    (h : Machine.run (step C mapDb) (initial now db) ls = some s) (f : Str) (hf : C.Passing f)
    (hc : ∃ l ∈ ls, l.changes f = true) (hway : ¬ OnItsWay s f) (hpc : s.pc.file ≠ some f) :
    ∃ ob, lastSeen f ls = some ob ∧ RowFor ob (s.judge.db f) := by
  have hseen := (onItsWay_or_seen C mapDb now db ls s h f hf hc).resolve_left hway
  obtain ⟨ob, hob⟩ := Option.isSome_iff_exists.1 hseen
  exact ⟨ob, hob, (knows_other hpc).1 (run_knows C now db f ls s h) ob hob⟩

/-- Nothing is left to do. -/
structure Drained {σ : Type} (s : St σ) : Prop where
  kernel : s.kernel = []
  queue  : s.queue = []
  timers : TaskTimerManager.pending s.judge.callbacks = []
  pc     : s.pc = .idle

theorem Drained.not_onItsWay {σ : Type} {s : St σ} (h : Drained s) (f : Str) : ¬ OnItsWay s f := by
  rintro (⟨e, he, -⟩ | ⟨n, hn, -⟩ | ha | ⟨t, ht, -⟩)
  · rw [h.kernel] at he
    cases he
  · rw [h.queue] at hn
    cases hn
  · rw [h.pc] at ha
    exact ha
  · rw [h.timers] at ht
    cases ht

theorem lateCheck_upToDate : ∃ s, Machine.run (step minuteConfig mapDb) (initial 0 oldRow) (twoChanges ++ lateCheck) = some s ∧
    Drained s ∧ ∃ ob, lastSeen (ascii "/w/f") (twoChanges ++ lateCheck) = some ob ∧ RowFor ob (s.judge.db (ascii "/w/f")) := by
  have hd : ∀ s, Machine.run (step minuteConfig mapDb) (initial 0 oldRow) (twoChanges ++ lateCheck) = some s → Drained s := by
    rintro s ⟨⟩
    exact ⟨rfl, rfl, rfl, rfl⟩
  exact ⟨_, rfl, hd _ rfl, upToDate_of_not_onItsWay minuteConfig 0 oldRow _ _ rfl (ascii "/w/f") (fun _ => rfl)
    ⟨.change 1 (ascii "/w") (ascii "f"), by simp [twoChanges], by decide⟩ ((hd _ rfl).not_onItsWay _)
    (fun e => by cases e)⟩

end CheckRealtime
