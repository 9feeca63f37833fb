import CheckRealtime.PipelineTasks
/-!
# PipelineChanges — no change is lost

A file whose last change no `get_checksum` has started on since is `unchecked`; the definition reads the labels of the
run.  `unchecked_onItsWay`: in every state of every run such a file is on its way to a check, in one of the four places a
pending check moves through (`OnItsWay`).  The one step that could lose it is a cancel, and a cancel only ever erases a
timer of the file `do_analysis` is working on (`TasksNamed`).
-/
namespace CheckRealtime

variable {σ : Type}

/-! ## Changed and not yet checked -/

/-- What a label says about `f`: a change sets the mark, the start of `get_checksum` clears it. -/
def mark (f : Str) (u : Bool) : Label → Bool
  | .change _ dir name => if finalName dir name = f then true else u
  | .checksum name _   => if name = f then false else u
  | _                  => u

/-- `f` has changed since the last `get_checksum` started on it or, when there was none, since its directory came under
watch. -/
def unchecked (f : Str) (ls : List Label) : Bool := ls.foldl (mark f) false

theorem unchecked_snoc (f : Str) (ls : List Label) (l : Label) : unchecked f (ls ++ [l]) = mark f (unchecked f ls) l := by
  rw [unchecked, List.foldl_append]; rfl

/-! ## On its way to a check -/

/-- Inside `do_analysis` of that file, with neither `get_checksum` started nor a timer armed yet. -/
def Pc.awaits (pc : Pc) (f : Str) : Prop :=
  match pc with
  | .start n | .newFile n | .getTask n _ | .cancelTask n _ _ | .addTask n _ | .check n _ => n.name = f
  | _ => False

def InKernel (s : St σ) (f : Str) : Prop :=
  ∃ e ∈ s.kernel, e.name ≠ [] ∧ ∃ dir, s.hash e.wd = some dir ∧ finalName dir e.name = f

def InQueue (s : St σ) (f : Str) : Prop := ∃ n ∈ s.queue, n.name = f

def Armed (s : St σ) (f : Str) : Prop := ∃ t ∈ TaskTimerManager.pending s.judge.callbacks, t.userData.name = f

def OnItsWay (s : St σ) (f : Str) : Prop := InKernel s f ∨ InQueue s f ∨ s.pc.awaits f ∨ Armed s f

def Config.Passing (C : Config) (f : Str) : Prop := ∀ dir, C.passes dir f = true

theorem InKernel.mono {s s' : St σ} {f : Str} (h : InKernel s f) (hk : ∀ e ∈ s.kernel, e ∈ s'.kernel)
    (hh : ∀ wd dir, s.hash wd = some dir → s'.hash wd = some dir) : InKernel s' f := by
  obtain ⟨e, he, hn, dir, hd, hf⟩ := h
  exact ⟨e, hk e he, hn, dir, hh _ _ hd, hf⟩

/-- **A step of `do_analysis` on another file leaves the timers of `f`**: what a cancel erases names the file worked on. -/
theorem armed_cancel (s : St σ) (n : AnalysisNode) (now : Int) (old : TaskTimer AnalysisNode) (f : Str)
    (hT : TasksNamed s.judge.toTasks s.pc) (hpc : s.pc = .cancelTask n now old) (hf : n.name ≠ f) (h : Armed s f) :
    ∃ t ∈ TaskTimerManager.pending (TaskTimerManager.cancel s.judge.callbacks old), t.userData.name = f := by
  obtain ⟨t, ht, hname⟩ := h
  refine ⟨t, TaskTimerManager.mem_cancel_of_not_same _ _ t ht ?_, hname⟩
  have hheld : s.pc.holding = some (n, old) := by rw [hpc]; rfl
  by_contra hsame
  have hid : t.taskId = old.taskId := by
    simp only [TaskTimerManager.sameTask, Bool.not_eq_false, Bool.and_eq_true, beq_iff_eq] at hsame
    exact hsame.2
  have heq : t = old := hT.named t old (Or.inl ht) (Or.inr (Or.inr ⟨n, hheld⟩)) hid
  exact hf ((hT.held n old hheld).symm.trans (heq ▸ hname))

/-- The labels that leave `do_analysis` alone take nothing from the kernel and no directory from the watch. -/
theorem outside_keeps (C : Config) (D : DbOps σ) (s s' : St σ) (l : Label) (hs : step C D s l = some s')
    (hl : l.outside = true) :
    (∀ e ∈ s.kernel, e ∈ s'.kernel) ∧ ∀ wd dir, s.hash wd = some dir → s'.hash wd = some dir := by
  cases l with
  | addWatch wd dir =>
    simp only [step] at hs
    split at hs
    · cases hs
      refine ⟨fun e he => he, fun wd' dir' hd => ?_⟩
      show (if s.hash wd = none then Function.update s.hash wd (some dir) else s.hash) wd' = some dir'
      split
      · rename_i hnone
        rw [Function.update_of_ne (fun e => by rw [e, hnone] at hd; cases hd)]
        exact hd
      · exact hd
    · cases hs
  | change wd dir name =>
    simp only [step] at hs
    split at hs
    · cases hs; exact ⟨fun e he => List.mem_append_left _ he, fun _ _ hd => hd⟩
    · cases hs
  | unnamed wd =>
    simp only [step] at hs
    split at hs
    · cases hs
    · cases hs; exact ⟨fun e he => List.mem_append_left _ he, fun _ _ hd => hd⟩
  | startThreads =>
    simp only [step] at hs
    split at hs
    · cases hs; exact ⟨fun e he => he, fun _ _ hd => hd⟩
    · cases hs
  | _ => cases hl

/-- A step that leaves the kernel, the queue and the timers alone, and does not end the waiting. -/
theorem OnItsWay.move {s s' : St σ} {f : Str} (h : OnItsWay s f) (hk : s'.kernel = s.kernel) (hh : s'.hash = s.hash)
    (hq : s'.queue = s.queue) (hc : s'.judge.callbacks = s.judge.callbacks) (hpc : s.pc.awaits f → s'.pc.awaits f) :
    OnItsWay s' f := by
  rcases h with h | h | h | h
  · exact Or.inl (h.mono (hk ▸ fun e he => he) (hh ▸ fun _ _ hd => hd))
  · exact Or.inr (Or.inl (by rw [InQueue, hq]; exact h))
  · exact Or.inr (Or.inr (Or.inl (hpc h)))
  · exact Or.inr (Or.inr (Or.inr (by rw [Armed, hc]; exact h)))

theorem inKernel_watch (s : St σ) (f : Str) (count : Nat) (h : InKernel s f) :
    (∃ e ∈ s.kernel.drop count, e.name ≠ [] ∧ ∃ dir, s.hash e.wd = some dir ∧ finalName dir e.name = f) ∨
      ∃ n ∈ s.queue ++ (s.kernel.take count).filterMap (watchEvent s.hash), n.name = f := by
  obtain ⟨e, he, hn, dir, hd, hf⟩ := h
  rw [← List.take_append_drop count s.kernel, List.mem_append] at he
  rcases he with he | he
  · refine Or.inr ⟨⟨dir, finalName dir e.name⟩, List.mem_append_right _ (List.mem_filterMap.2 ⟨e, he, ?_⟩), hf⟩
    rw [watchEvent, if_neg hn, hd]; rfl
  · exact Or.inl ⟨e, he, hn, dir, hd, hf⟩

theorem armed_pass (s : St σ) (f : Str) (h : Armed s f) :
    (∃ n ∈ s.queue ++ (TaskTimerManager.execute s.judge.callbacks s.now).1.map (·.userData), n.name = f) ∨
      ∃ t ∈ TaskTimerManager.pending (TaskTimerManager.execute s.judge.callbacks s.now).2, t.userData.name = f := by
  obtain ⟨t, ht, hname⟩ := h
  rcases TaskTimerManager.mem_execute_or s.judge.callbacks (toInt s.now) t ht with ht | ht
  · exact Or.inl ⟨t.userData, List.mem_append_right _ (List.mem_map.2 ⟨t, ht, rfl⟩), hname⟩
  · exact Or.inr ⟨t, ht, hname⟩

/-- **Every step but the start of `get_checksum` on it keeps a file on its way.** -/
theorem onItsWay_step (C : Config) (D : DbOps σ) (s s' : St σ) (l : Label) (f : Str) (hf : C.Passing f)
    (hT : TasksNamed s.judge.toTasks s.pc) (hs : step C D s l = some s') (hl : ∀ ob, l ≠ .checksum f ob)
    (h : OnItsWay s f) : OnItsWay s' f := by
  have hcase := stepCase_of_step C D s s' l hs
  cases hcase with
  | outside l s' hout hnow hq hpc hj =>
    obtain ⟨hk, hh⟩ := outside_keeps C D s s' l hs hout
    rcases h with h | h | h | h
    · exact Or.inl (h.mono hk hh)
    · exact Or.inr (Or.inl (by rw [InQueue, hq]; exact h))
    · exact Or.inr (Or.inr (Or.inl (hpc ▸ h)))
    · exact Or.inr (Or.inr (Or.inr (by rw [Armed, hj]; exact h)))
  | tick t ht => exact h
  | watch count =>
    rcases h with h | h | h | h
    · rcases inKernel_watch s f count h with h | h
      · exact Or.inl h
      · exact Or.inr (Or.inl h)
    · obtain ⟨n, hn, hname⟩ := h
      exact Or.inr (Or.inl ⟨n, List.mem_append_left _ hn, hname⟩)
    · exact Or.inr (Or.inr (Or.inl h))
    · exact Or.inr (Or.inr (Or.inr h))
  | pass =>
    rcases h with h | h | h | h
    · exact Or.inl h
    · obtain ⟨n, hn, hname⟩ := h
      exact Or.inr (Or.inl ⟨n, List.mem_append_left _ hn, hname⟩)
    · exact Or.inr (Or.inr (Or.inl h))
    · rcases armed_pass s f h with h | h
      · exact Or.inr (Or.inl h)
      · exact Or.inr (Or.inr (Or.inr h))
  | take n q hq hpc =>
    rcases h with h | h | h | h
    · exact Or.inl h
    · obtain ⟨m, hm, hname⟩ := h
      rw [hq, List.mem_cons] at hm
      rcases hm with rfl | hm
      · exact Or.inr (Or.inr (Or.inl hname))
      · exact Or.inr (Or.inl ⟨m, hm, hname⟩)
    · rw [hpc] at h; exact absurd h id
    · exact Or.inr (Or.inr (Or.inr h))
  | skip n hpc hp =>
    -- a file that passes the tests is not skipped
    refine h.move rfl rfl rfl rfl (fun ha => ?_)
    rw [hpc] at ha
    have hpass : C.passes n.dir n.name = true := ha ▸ hf n.dir
    rw [hp] at hpass
    cases hpass
  | new n db hpc | delay n db sum ts hpc | check n db sum ts hpc | found n now old hpc | missing n now hpc =>
    exact h.move rfl rfl rfl rfl (fun ha => by rw [hpc] at ha; exact ha)
  | looked n ob hpc | gone n sum ob hpc | differs n sum ob hpc | same n sum ob hpc =>
    -- `get_checksum` started on another file, so `do_analysis` was not waiting for this one
    refine h.move rfl rfl rfl rfl (fun ha => ?_)
    rw [hpc] at ha
    have hname : n.name = f := ha
    exact absurd (by rw [hname]) (hl ob)
  | cancelTask n now old hpc =>
    -- a cancel of the file's own timer happens while `do_analysis` of the file awaits
    rcases h with h | h | h | h
    · exact Or.inl h
    · exact Or.inr (Or.inl h)
    · rw [hpc] at h; exact Or.inr (Or.inr (Or.inl h))
    · by_cases hname : n.name = f
      · exact Or.inr (Or.inr (Or.inl hname))
      · exact Or.inr (Or.inr (Or.inr (armed_cancel s n now old f hT hpc hname h)))
  | addTask n now hpc =>
    rcases h with h | h | h | h
    · exact Or.inl h
    · exact Or.inr (Or.inl h)
    · rw [hpc] at h
      refine Or.inr (Or.inr (Or.inr ⟨C.newTask s.judge.globalId now n.dir n.name, ?_, h⟩))
      exact (TaskTimerManager.mem_pending_add _ _ _).2 (Or.inl rfl)
    · obtain ⟨t, ht, hname⟩ := h
      exact Or.inr (Or.inr (Or.inr ⟨t, (TaskTimerManager.mem_pending_add _ _ _).2 (Or.inr ht), hname⟩))
  | scanFile n hpc | insertRow n checksum hpc | alertCreated n hpc | setTask n t hpc | alertDeleted n hpc | delRow n hpc
  | updateRow n checksum hpc | alertChanged n hpc | delTask n hpc =>
    exact h.move rfl rfl rfl rfl (fun ha => by rw [hpc] at ha; exact absurd ha id)

/-- A change puts an event for the file in the kernel queue. -/
theorem onItsWay_change (C : Config) (D : DbOps σ) (s s' : St σ) (wd : Nat) (dir name : Str)
    (hs : step C D s (.change wd dir name) = some s') : OnItsWay s' (finalName dir name) := by
  simp only [step] at hs
  split at hs
  · rename_i hd
    cases hs
    exact Or.inl ⟨⟨wd, name⟩, List.mem_append_right _ (List.mem_singleton.2 rfl), hd.2, dir, hd.1, rfl⟩
  · cases hs

/-- **No change is lost**: in every state of every run, over any database, a file that passes the tests and has changed
since the last `get_checksum` on it is on its way to a check. -/
theorem unchecked_onItsWay (C : Config) (D : DbOps σ) (now : Int) (db : σ) (ls : List Label) (s : St σ)
    (h : Machine.run (step C D) (initial now db) ls = some s) (f : Str) (hf : C.Passing f)
    (hu : unchecked f ls = true) : OnItsWay s f := by
  refine Machine.run_inv_hist (step C D) (fun ls s => unchecked f ls = true → OnItsWay s f) (initial now db)
    (fun hu => by cases hu) (fun ls s l s' hrun ih hs hu => ?_) ls s h hu
  have hT := run_tasksNamed C D now db ls s hrun
  rw [unchecked_snoc] at hu
  cases l with
  | change wd dir name =>
    by_cases hfn : finalName dir name = f
    · rw [← hfn]; exact onItsWay_change C D s s' wd dir name hs
    · rw [mark, if_neg hfn] at hu
      exact onItsWay_step C D s s' _ f hf hT hs (fun ob e => by cases e) (ih hu)
  | checksum name ob =>
    by_cases hname : name = f
    · rw [mark, if_pos hname] at hu; cases hu
    · rw [mark, if_neg hname] at hu
      exact onItsWay_step C D s s' _ f hf hT hs (fun ob' e => by cases e; exact hname rfl) (ih hu)
  | _ => exact onItsWay_step C D s s' _ f hf hT hs (fun ob e => by cases e) (ih hu)

/-- Two changes within the delay of an old row: the second call has cancelled the timer of the first and armed its own, and
the check is nowhere but there. -/
theorem twoChanges_onItsWay : ∃ s, Machine.run (step minuteConfig mapDb) (initial 0 oldRow)
      (twoChanges ++ [.work, .work, .work]) = some s ∧ s.kernel = [] ∧ s.queue = [] ∧ s.pc = .idle ∧
    (TaskTimerManager.pending s.judge.callbacks).map (·.expiration) = [91] ∧ OnItsWay s (ascii "/w/f") :=
  ⟨_, rfl, rfl, rfl, rfl, by decide, unchecked_onItsWay minuteConfig mapDb 0 oldRow (twoChanges ++ [.work, .work, .work]) _ rfl
    (ascii "/w/f") (fun _ => rfl) (by decide)⟩

end CheckRealtime
