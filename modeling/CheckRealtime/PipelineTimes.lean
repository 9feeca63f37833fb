import CheckRealtime.PipelineTasks
/-!
# PipelineTimes — no stream of events postpones a check for ever

Every event inside the window cancels the timer of its file and arms a later one.  `Timed` bounds every pending timer by
the timestamp of its file's row, whichever branch wrote that row.  `Trail` is a record of the run that says which timer
queued each node, and whether the row of a timer's file has been written since it was armed; with it
`postponement_bounded` says that a check a timer asked for is not delayed again.
-/
namespace CheckRealtime

open TaskTimerManager (pending)

/-! ## Expirations and timestamps -/

/-- Inside the branch that arms a timer: the node, and the time `do_analysis` read. -/
def Pc.arming : Pc → Option (AnalysisNode × Int)
  | .getTask n now      => some (n, now)
  | .cancelTask n now _ => some (n, now)
  | .addTask n now      => some (n, now)
  | _                   => none

structure Timed (I now : Int) (db : DbMap) (pc : Pc) (cs : Callbacks AnalysisNode) : Prop where
  low    : -2 ^ 31 ≤ now
  rows   : ∀ f sum ts, db f = some (sum, ts) → ts ≤ now
  arming : ∀ n a, pc.arming = some (n, a) →
    -2 ^ 31 ≤ a ∧ a ≤ now ∧ ∃ sum ts, db n.name = some (sum, ts) ∧ ts ≤ a ∧ a < ts + I
  reach  : ∀ t ∈ pending cs, t.expiration ≤ now + I
  bound  : ∀ t ∈ pending cs, ∀ sum ts, db t.userData.name = some (sum, ts) → t.expiration < ts + 2 * I

section

variable {I now : Int} {db : DbMap} {pc pc' : Pc} {cs cs' : Callbacks AnalysisNode}

theorem Timed.move (h : Timed I now db pc cs) (hpc : ∀ n a, pc'.arming = some (n, a) → pc.arming = some (n, a)) :
    Timed I now db pc' cs :=
  ⟨h.low, h.rows, fun n a ha => h.arming n a (hpc n a ha), h.reach, h.bound⟩

theorem Timed.tick (h : Timed I now db pc cs) {t : Int} (ht : now ≤ t) : Timed I t db pc cs where
  low := h.low.trans ht
  rows f sum ts hr := (h.rows f sum ts hr).trans ht
  arming n a ha := by
    obtain ⟨hl, ha, hrow⟩ := h.arming n a ha
    exact ⟨hl, ha.trans ht, hrow⟩
  reach t' ht' := (h.reach t' ht').trans (by omega)
  bound := h.bound

theorem Timed.fewer (h : Timed I now db pc cs) (hs : ∀ t ∈ pending cs', t ∈ pending cs) : Timed I now db pc cs' :=
  ⟨h.low, h.rows, h.arming, fun t ht => h.reach t (hs t ht), fun t ht => h.bound t (hs t ht)⟩

/-- **A row written now is late enough for every pending timer**: none expires later than an interval from now. -/
theorem Timed.write (h : Timed I now db pc cs) (hI : 0 < I) (hpc : pc'.arming = none) (f : Str) (w : Option Row)
    (hw : ∀ r, w = some r → r.2 = now) : Timed I now (Function.update db f w) pc' cs where
  low := h.low
  rows g sum ts hr := by
    by_cases hg : g = f
    · rw [hg, Function.update_self] at hr
      exact (hw _ hr).le
    · rw [Function.update_of_ne hg] at hr
      exact h.rows g sum ts hr
  arming n a ha := by rw [hpc] at ha; cases ha
  reach := h.reach
  bound t ht sum ts hr := by
    by_cases hg : t.userData.name = f
    · rw [hg, Function.update_self] at hr
      have hts : ts = now := hw _ hr
      have := h.reach t ht
      omega
    · rw [Function.update_of_ne hg] at hr
      exact h.bound t ht sum ts hr

/-- The timer that is armed expires an interval after the time `do_analysis` read. -/
theorem Timed.expiration_newTask {C : Config} (h : Timed C.interval now db pc cs) (n : AnalysisNode) (a id : Int)
    (ha : pc.arming = some (n, a)) (hI : 0 < C.interval) (hh : now + C.interval < 2 ^ 31) :
    (C.newTask id a n.dir n.name).expiration = a + C.interval := by
  obtain ⟨hl, hle, -⟩ := h.arming n a ha
  show toInt (C.interval + a) = _
  rw [toInt_of_int ⟨by omega, by omega⟩, Int.add_comm]

theorem Timed.arm {C : Config} (h : Timed C.interval now db pc cs) (n : AnalysisNode) (a id : Int)
    (ha : pc.arming = some (n, a)) (hI : 0 < C.interval) (hh : now + C.interval < 2 ^ 31) (hpc : pc'.arming = none) :
    Timed C.interval now db pc' (TaskTimerManager.add cs (C.newTask id a n.dir n.name)) := by
  have hexp := h.expiration_newTask n a id ha hI hh
  obtain ⟨-, hle, sum, ts, hrow, -, hlt⟩ := h.arming n a ha
  refine ⟨h.low, h.rows, fun n' a' ha' => (by rw [hpc] at ha'; cases ha'), fun t ht => ?_, fun t ht sum' ts' hr => ?_⟩
  · rcases (TaskTimerManager.mem_pending_add _ _ t).1 ht with rfl | ht
    · omega
    · exact h.reach t ht
  · rcases (TaskTimerManager.mem_pending_add _ _ t).1 ht with rfl | ht
    · have hr : db n.name = some (sum', ts') := hr
      rw [hrow] at hr
      cases hr
      omega
    · exact h.bound t ht sum' ts' hr

end

/-- **Every step keeps the bounds**, while the clock and the interval fit an `int`. -/
theorem timed_step (C : Config) (hI : 0 < C.interval) (s s' : St DbMap) (l : Label) (hs : StepCase C mapDb s l s')
    (hh : s.now + C.interval < 2 ^ 31) (h : Timed C.interval s.now s.judge.db s.pc s.judge.callbacks) :
    Timed C.interval s'.now s'.judge.db s'.pc s'.judge.callbacks := by
  have hnone : ∀ {pc : Pc}, pc.arming = none → ∀ n a, pc.arming = some (n, a) → s.pc.arming = some (n, a) :=
    fun hpc n a ha => by rw [hpc] at ha; cases ha
  cases hs with
  | outside l s' hl hnow hq hpc hj => rw [hnow, hpc, hj]; exact h
  | tick t ht => exact h.tick ht
  | watch count => exact h
  | pass => exact h.fewer (fun t ht => by
      rw [TaskTimerManager.execute, TaskTimerManager.pending_executeAt] at ht
      exact (List.mem_filter.1 ht).1)
  | delay n db sum ts hpc hf hd =>
    obtain ⟨rfl, hrow⟩ := mapDb_find_inv hf
    refine ⟨h.low, h.rows, fun n' a ha => ?_, h.reach, h.bound⟩
    cases ha
    simp only [Config.delays, Bool.and_eq_true, decide_eq_true_eq] at hd
    exact ⟨h.low, Int.le_refl _, sum, ts, hrow, h.rows _ _ _ hrow, hd.2⟩
  | found n now old hpc hold => exact h.move (fun n' a ha => by rw [hpc]; exact ha)
  | missing n now hpc hold => exact h.move (fun n' a ha => by rw [hpc]; exact ha)
  | cancelTask n now old hpc =>
    have hmove : Timed C.interval s.now s.judge.db (.addTask n now) s.judge.callbacks :=
      h.move (fun n' a ha => by rw [hpc]; exact ha)
    exact hmove.fewer (fun t ht => TaskTimerManager.mem_of_mem_cancel _ _ _ ht)
  | addTask n now hpc => exact h.arm n now _ (by rw [hpc]; rfl) hI hh rfl
  | insertRow n checksum hpc => exact h.write hI rfl _ _ (fun r hr => by cases hr; rfl)
  | updateRow n checksum hpc => exact h.write hI rfl _ _ (fun r hr => by
      obtain ⟨-, -, rfl⟩ := Option.map_eq_some_iff.1 hr; rfl)
  | delRow n hpc => exact h.write hI rfl _ _ (fun r hr => by cases hr)
  | new n db hpc hf =>
    obtain ⟨rfl, -⟩ := mapDb_find_inv hf
    exact h.move (hnone rfl)
  | check n db sum ts hpc hf hd =>
    obtain ⟨rfl, -⟩ := mapDb_find_inv hf
    exact h.move (hnone rfl)
  | _ => exact h.move (hnone rfl)

/-! ## Which timer queued a node -/

/-- A record of the run: for each node of the queue the timer that put it there, if one did; the one that put the node in
hand there; and, for the id of a timer and a file, whether the row of the file has been written since the timer was
armed. -/
structure Trail where
  origins   : List (Option (TaskTimer AnalysisNode))
  taken     : Option (TaskTimer AnalysisNode)
  rewritten : Int → Str → Bool

def Trail.empty : Trail := ⟨[], none, fun _ _ => false⟩

def Trail.note (s : St DbMap) (l : Label) (_ : St DbMap) (h : Trail) : Trail :=
  match l with
  | .watch count => { h with origins := h.origins ++ ((s.kernel.take count).filterMap (watchEvent s.hash)).map (fun _ => none) }
  | .pass        => { h with origins := h.origins ++ (TaskTimerManager.execute s.judge.callbacks s.now).1.map some }
  | .take        => { h with origins := h.origins.tail, taken := h.origins.head?.join }
  | .scanFile _  => { h with taken := none }
  | .work        => match s.pc with
    | .addTask _ _   => { h with rewritten := Function.update h.rewritten s.judge.globalId (fun _ => false) }
    | .insertRow n _ => { h with rewritten := fun id => Function.update (h.rewritten id) n.name true }
    | .updateRow n _ => { h with rewritten := fun id => Function.update (h.rewritten id) n.name true }
    | _              => h
  | _            => h

def trail (C : Config) (now : Int) (db : DbMap) (ls : List Label) : Trail :=
  Machine.history (step C mapDb) Trail.note (initial now db) .empty ls

theorem Trail.note_outside (s s' : St DbMap) (l : Label) (h : Trail) (hl : l.outside = true) : Trail.note s l s' h = h := by
  cases l with
  | addWatch | change | unnamed | startThreads => rfl
  | _ => cases hl

/-- The timer has fired, and the node it queued has not been dealt with. -/
def Trail.Fired (h : Trail) (t : TaskTimer AnalysisNode) : Prop := some t ∈ h.origins ∨ h.taken = some t

structure Trailed (C : Config) (s : St DbMap) (h : Trail) : Prop where
  nodes : List.Forall₂ (fun n o => ∀ t, o = some t → t.userData = n) s.queue h.origins
  taken : ∀ n t, s.pc = .start n → h.taken = some t → t.userData = n
  fired : ∀ t, h.Fired t → t.expiration ≤ s.now
  fresh : ∀ t, t ∈ pending s.judge.callbacks ∨ h.Fired t → t.taskId < s.judge.globalId
  since : ∀ t, t ∈ pending s.judge.callbacks ∨ h.Fired t → h.rewritten t.taskId t.userData.name = false →
    ∀ sum ts, s.judge.db t.userData.name = some (sum, ts) → ts + C.interval ≤ t.expiration

section

variable {C : Config} {s : St DbMap} {h : Trail}

theorem Trailed.move (hT : Trailed C s h) {pc : Pc} (hpc : ∀ n, pc ≠ .start n) : Trailed C { s with pc := pc } h :=
  ⟨hT.nodes, fun n _ e _ => absurd e (hpc n), hT.fired, hT.fresh, hT.since⟩

theorem Trailed.pass (hT : Trailed C s h) (hl : -2 ^ 31 ≤ s.now) (hh : s.now < 2 ^ 31) :
    Trailed C
      { s with queue := s.queue ++ (TaskTimerManager.execute s.judge.callbacks s.now).1.map (·.userData)
               judge := { s.judge with callbacks := (TaskTimerManager.execute s.judge.callbacks s.now).2 } }
      { h with origins := h.origins ++ (TaskTimerManager.execute s.judge.callbacks s.now).1.map some } := by
  have hcalled : ∀ t ∈ (TaskTimerManager.execute s.judge.callbacks s.now).1,
      t ∈ pending s.judge.callbacks ∧ t.expiration ≤ s.now := fun t ht => by
    rw [TaskTimerManager.execute, TaskTimerManager.executeAt_fst, List.mem_filter, decide_eq_true_eq,
      toInt_of_int ⟨hl, hh⟩] at ht
    exact ht
  have hleft : ∀ t ∈ pending (TaskTimerManager.execute s.judge.callbacks s.now).2, t ∈ pending s.judge.callbacks :=
    fun t ht => by
      rw [TaskTimerManager.execute, TaskTimerManager.pending_executeAt] at ht
      exact (List.mem_filter.1 ht).1
  generalize TaskTimerManager.execute s.judge.callbacks s.now = called at hcalled hleft
  have hfired : ∀ t, Trail.Fired { h with origins := h.origins ++ called.1.map some } t → h.Fired t ∨ t ∈ called.1 := by
    rintro t (ht | ht)
    · rw [List.mem_append, List.mem_map] at ht
      rcases ht with ht | ⟨u, hu, he⟩
      · exact Or.inl (Or.inl ht)
      · cases he; exact Or.inr hu
    · exact Or.inl (Or.inr ht)
  have hknown : ∀ t, t ∈ pending called.2 ∨ Trail.Fired { h with origins := h.origins ++ called.1.map some } t →
      t ∈ pending s.judge.callbacks ∨ h.Fired t := by
    rintro t (ht | ht)
    · exact Or.inl (hleft t ht)
    · rcases hfired t ht with ht | ht
      · exact Or.inr ht
      · exact Or.inl (hcalled t ht).1
  refine ⟨List.rel_append hT.nodes ?_, hT.taken, fun t ht => ?_, fun t ht => hT.fresh t (hknown t ht),
    fun t ht => hT.since t (hknown t ht)⟩
  · rw [List.forall₂_map_left_iff, List.forall₂_map_right_iff]
    exact List.forall₂_same.2 (fun t _ u hu => by cases hu; rfl)
  · rcases hfired t ht with ht | ht
    · exact hT.fired t ht
    · exact (hcalled t ht).2

theorem Trailed.take (hT : Trailed C s h) {n : AnalysisNode} {q : List AnalysisNode} (hq : s.queue = n :: q) :
    Trailed C { s with queue := q, pc := .start n } { h with origins := h.origins.tail, taken := h.origins.head?.join } := by
  have hnodes := hT.nodes
  rw [hq] at hnodes
  cases ho : h.origins with
  | nil => rw [ho] at hnodes; cases hnodes
  | cons o os =>
    rw [ho, List.forall₂_cons] at hnodes
    have hfired : ∀ t, Trail.Fired { h with origins := os, taken := o } t → h.Fired t := by
      rintro t (ht | ht)
      · exact Or.inl (by rw [ho]; exact List.mem_cons_of_mem o ht)
      · exact Or.inl (by rw [ho, ← ht]; exact List.mem_cons_self)
    refine ⟨hnodes.2, fun m t hm ht => ?_, fun t ht => hT.fired t (hfired t ht),
      fun t ht => hT.fresh t (ht.imp_right (hfired t)), fun t ht => hT.since t (ht.imp_right (hfired t))⟩
    cases hm
    exact hnodes.1 t ht

/-- A row that is written is marked as written for every timer, one that is removed binds none. -/
theorem Trailed.write (hT : Trailed C s h) {pc : Pc} (hpc : ∀ n, pc ≠ .start n) (f : Str) (w : Option Row)
    (rewritten : Int → Str → Bool) (hsame : ∀ id g, g ≠ f → rewritten id g = h.rewritten id g)
    (hw : w = none ∨ ∀ id, rewritten id f = true) :
    Trailed C { s with pc := pc, judge := { s.judge with db := Function.update s.judge.db f w } }
      { h with rewritten := rewritten } := by
  refine ⟨hT.nodes, fun n _ e _ => absurd e (hpc n), hT.fired, hT.fresh, fun t ht hr sum ts hrow => ?_⟩
  have hrow : Function.update s.judge.db f w t.userData.name = some (sum, ts) := hrow
  have hr : rewritten t.taskId t.userData.name = false := hr
  by_cases hf : t.userData.name = f
  · rw [hf, Function.update_self] at hrow
    rw [hf] at hr
    rcases hw with hw | hw
    · rw [hw] at hrow; cases hrow
    · rw [hw] at hr; cases hr
  · rw [Function.update_of_ne hf] at hrow
    exact hT.since t ht (hsame _ _ hf ▸ hr) sum ts hrow

theorem Trailed.arm (hT : Trailed C s h) (hI : 0 < C.interval) (hh : s.now + C.interval < 2 ^ 31)
    (h₀ : Timed C.interval s.now s.judge.db s.pc s.judge.callbacks) (n : AnalysisNode) (a : Int)
    (ha : s.pc.arming = some (n, a)) :
    Trailed C
      { s with pc    := .setTask n (C.newTask s.judge.globalId a n.dir n.name)
               judge := { s.judge with
                 callbacks := TaskTimerManager.add s.judge.callbacks (C.newTask s.judge.globalId a n.dir n.name)
                 globalId  := s.judge.globalId + 1 } }
      { h with rewritten := Function.update h.rewritten s.judge.globalId (fun _ => false) } := by
  have hexp := h₀.expiration_newTask n a s.judge.globalId ha hI hh
  obtain ⟨-, -, sum, ts, hrow, hts, -⟩ := h₀.arming n a ha
  refine ⟨hT.nodes, fun m t e => (by cases e), hT.fired, fun t ht => ?_, fun t ht hr sum' ts' hrow' => ?_⟩
  · show t.taskId < s.judge.globalId + 1
    rcases ht with ht | ht
    · rcases (TaskTimerManager.mem_pending_add _ _ t).1 ht with rfl | ht
      · exact Int.lt_succ _
      · exact Int.lt_add_one_of_le (hT.fresh t (Or.inl ht)).le
    · exact Int.lt_add_one_of_le (hT.fresh t (Or.inr ht)).le
  · have hold : t ∈ pending s.judge.callbacks ∨ h.Fired t → ts' + C.interval ≤ t.expiration := fun hk => by
      refine hT.since t hk ?_ sum' ts' hrow'
      have hne : t.taskId ≠ s.judge.globalId := (hT.fresh t hk).ne
      have hr : Function.update h.rewritten s.judge.globalId (fun _ => false) t.taskId t.userData.name = false := hr
      rwa [Function.update_of_ne hne] at hr
    rcases ht with ht | ht
    · rcases (TaskTimerManager.mem_pending_add _ _ t).1 ht with rfl | ht
      · have hrow' : s.judge.db n.name = some (sum', ts') := hrow'
        rw [hrow] at hrow'
        cases hrow'
        rw [hexp]
        omega
      · exact hold (Or.inl ht)
    · exact hold (Or.inr ht)

end

theorem trailed_step (C : Config) (hI : 0 < C.interval) (s s' : St DbMap) (l : Label) (hs : StepCase C mapDb s l s')
    (hh : s.now + C.interval < 2 ^ 31) (h₀ : Timed C.interval s.now s.judge.db s.pc s.judge.callbacks) (h : Trail)
    (hT : Trailed C s h) : Trailed C s' (Trail.note s l s' h) := by
  cases hs with
  | outside l s' hl hnow hq hpc hj =>
    rw [Trail.note_outside s s' l h hl]
    exact ⟨hq ▸ hT.nodes, fun n t e => hT.taken n t (hpc ▸ e), hnow ▸ hT.fired, hj ▸ hT.fresh, hj ▸ hT.since⟩
  | tick t ht => exact ⟨hT.nodes, hT.taken, fun u hu => (hT.fired u hu).trans ht, hT.fresh, hT.since⟩
  | watch count =>
    have hfired : ∀ t (k : List AnalysisNode), some t ∈ h.origins ++ k.map (fun _ => none) ∨ h.taken = some t → h.Fired t := by
      rintro t k (ht | ht)
      · rw [List.mem_append] at ht
        rcases ht with ht | ht
        · exact Or.inl ht
        · simp at ht
      · exact Or.inr ht
    refine ⟨List.rel_append hT.nodes ?_, hT.taken, fun t ht => hT.fired t (hfired t _ ht),
      fun t ht => hT.fresh t (ht.imp_right (hfired t _)), fun t ht => hT.since t (ht.imp_right (hfired t _))⟩
    rw [List.forall₂_map_right_iff]
    exact List.forall₂_same.2 (fun n _ t ht => by cases ht)
  | pass => exact hT.pass h₀.low (by omega)
  | scanFile n hpc =>
    have hfired : ∀ t, Trail.Fired { h with taken := none } t → h.Fired t := by
      rintro t (ht | ht)
      · exact Or.inl ht
      · cases ht
    exact ⟨hT.nodes, fun m t _ ht => (by cases ht), fun t ht => hT.fired t (hfired t ht),
      fun t ht => hT.fresh t (ht.imp_right (hfired t)), fun t ht => hT.since t (ht.imp_right (hfired t))⟩
  | take n q hq hpc => exact hT.take hq
  | new n db hpc hf =>
    obtain ⟨rfl, -⟩ := mapDb_find_inv hf
    exact hT.move (fun m e => by cases e)
  | delay n db sum ts hpc hf hd =>
    obtain ⟨rfl, -⟩ := mapDb_find_inv hf
    exact hT.move (fun m e => by cases e)
  | check n db sum ts hpc hf hd =>
    obtain ⟨rfl, -⟩ := mapDb_find_inv hf
    exact hT.move (fun m e => by cases e)
  | addTask n now hpc =>
    simp only [Trail.note, hpc]
    exact hT.arm hI hh h₀ n now (by rw [hpc]; rfl)
  | insertRow n checksum hpc =>
    simp only [Trail.note, hpc]
    exact hT.write (fun m e => by cases e) n.name _ _ (fun id g hg => Function.update_of_ne hg _ _)
      (Or.inr (fun id => Function.update_self _ _ _))
  | updateRow n checksum hpc =>
    simp only [Trail.note, hpc]
    exact hT.write (fun m e => by cases e) n.name _ _ (fun id g hg => Function.update_of_ne hg _ _)
      (Or.inr (fun id => Function.update_self _ _ _))
  | delRow n hpc =>
    simp only [Trail.note, hpc]
    exact hT.write (fun m e => by cases e) n.name none _ (fun _ _ _ => rfl) (Or.inl rfl)
  | cancelTask n now old hpc =>
    simp only [Trail.note, hpc]
    have hk : ∀ t, t ∈ pending (TaskTimerManager.cancel s.judge.callbacks old) ∨ h.Fired t →
        t ∈ pending s.judge.callbacks ∨ h.Fired t := fun t ht => ht.imp_left (TaskTimerManager.mem_of_mem_cancel _ _ _)
    exact ⟨hT.nodes, fun m t e => (by cases e), hT.fired, fun t ht => hT.fresh t (hk t ht),
      fun t ht => hT.since t (hk t ht)⟩
  | skip n hpc hp | looked n ob hpc | gone n sum ob hpc | differs n sum ob hpc | same n sum ob hpc =>
    exact hT.move (fun m e => by cases e)
  | found n now old hpc | missing n now hpc =>
    simp only [Trail.note, hpc]
    exact hT.move (fun m e => by cases e)
  | alertCreated n hpc | setTask n t hpc | alertDeleted n hpc | alertChanged n hpc | delTask n hpc =>
    simp only [Trail.note, hpc]
    exact ⟨hT.nodes, fun m t e => (by cases e), hT.fired, hT.fresh, hT.since⟩

theorem now_le_of_stepCase {C : Config} {D : DbOps DbMap} {s s' : St DbMap} {l : Label} (hs : StepCase C D s l s') :
    s.now ≤ s'.now := by
  cases hs with
  | outside l s' hl hnow => exact hnow ▸ Int.le_refl _
  | tick t ht => exact ht
  | _ => exact Int.le_refl _

/-- **A check is postponed by less than two intervals after the file's row was written**: in every state of every run every
pending timer expires before that, and a node that a timer queued is not delayed again unless the row has been written
since the timer was armed. -/
theorem postponement_bounded (C : Config) (hI : 0 < C.interval) (now : Int) (db : DbMap) (hlow : -2 ^ 31 ≤ now)
    (hold : ∀ f sum ts, db f = some (sum, ts) → ts ≤ now) (ls : List Label) (s : St DbMap)
    (h : Machine.run (step C mapDb) (initial now db) ls = some s) (hhigh : s.now + C.interval < 2 ^ 31) :
    (∀ t ∈ pending s.judge.callbacks, ∀ sum ts, s.judge.db t.userData.name = some (sum, ts) →
      t.expiration < ts + 2 * C.interval) ∧
    ∀ n t, s.pc = .start n → (trail C now db ls).taken = some t → t.userData = n ∧
      ((enter C mapDb s n).pc = .getTask n s.now → (trail C now db ls).rewritten t.taskId n.name = true) := by
  obtain ⟨h₀, hT⟩ : Timed C.interval s.now s.judge.db s.pc s.judge.callbacks ∧ Trailed C s (trail C now db ls) := by
    refine Machine.run_inv_history (step C mapDb) Trail.note (fun s h => s.now + C.interval < 2 ^ 31 →
      Timed C.interval s.now s.judge.db s.pc s.judge.callbacks ∧ Trailed C s h) (initial now db) .empty ?_ ?_ ls s h hhigh
    · refine fun _ => ⟨⟨hlow, hold, fun n a ha => (by cases ha), fun t ht => (by cases ht), fun t ht => (by cases ht)⟩, ?_⟩
      have hnone : ∀ t, ¬ (t ∈ pending (noTasks.callbacks) ∨ Trail.empty.Fired t) := fun t ht => by
        rcases ht with ht | ht | ht <;> cases ht
      exact ⟨.nil, fun n t e => (by cases e), fun t ht => absurd (Or.inr ht) (hnone t), fun t ht => absurd ht (hnone t),
        fun t ht => absurd ht (hnone t)⟩
    · intro s l s' h hi hs hh
      have hs := stepCase_of_step C mapDb s s' l hs
      have hle := now_le_of_stepCase hs
      obtain ⟨h₀, hT⟩ := hi (by omega)
      exact ⟨timed_step C hI s s' l hs (by omega) h₀, trailed_step C hI s s' l hs (by omega) h₀ h hT⟩
  refine ⟨h₀.bound, fun n t hpc ht => ?_⟩
  have hn := hT.taken n t hpc ht
  refine ⟨hn, fun hdelay => ?_⟩
  by_contra hr
  rw [Bool.not_eq_true, ← hn] at hr
  have hfired := hT.fired t (Or.inr ht)
  cases hrow : s.judge.db n.name with
  | none =>
    rw [enter, mapDb_find hrow] at hdelay
    split at hdelay <;> cases hdelay
  | some r =>
    obtain ⟨sum, ts⟩ := r
    have hts := hT.since t (Or.inr (Or.inr ht)) hr sum ts (hn ▸ hrow)
    have hd : C.delays s.now ts = false := by
      simp only [Config.delays, Bool.and_eq_false_iff, decide_eq_false_iff_not]
      exact Or.inr (by omega)
    rw [enter, mapDb_find hrow] at hdelay
    simp only [hd] at hdelay
    split at hdelay <;> cases hdelay

/-- One change inside the window, and the node its timer queues at the end of it in the hands of the worker. -/
def postponedOnce : List Label :=
  [.addWatch 1 (ascii "/w"), .startThreads, .tick 30, .change 1 (ascii "/w") (ascii "f"), .watch 1, .take, .enter, .work,
    .work, .work, .tick 90, .pass, .take]

theorem postponedOnce_checked : ∃ s t, Machine.run (step minuteConfig mapDb) (initial 0 oldRow) postponedOnce = some s ∧
    (trail minuteConfig 0 oldRow postponedOnce).taken = some t ∧ t.userData = ⟨ascii "/w", ascii "/w/f"⟩ ∧
    (enter minuteConfig mapDb s ⟨ascii "/w", ascii "/w/f"⟩).pc ≠ .getTask ⟨ascii "/w", ascii "/w/f"⟩ s.now := by
  have hold : ∀ f sum ts, oldRow f = some (sum, ts) → ts ≤ 0 := fun f sum ts h => by
    unfold oldRow at h
    split at h <;> cases h
    exact Int.le_refl _
  obtain ⟨-, hnode⟩ := postponement_bounded minuteConfig (by decide) 0 oldRow (by decide) hold postponedOnce _ rfl (by decide)
  obtain ⟨hn, hdelay⟩ := hnode ⟨ascii "/w", ascii "/w/f"⟩ ⟨90, 0, ⟨ascii "/w", ascii "/w/f"⟩⟩ rfl rfl
  exact ⟨_, _, rfl, rfl, hn, fun h => absurd (hdelay h) (by decide)⟩

end CheckRealtime
