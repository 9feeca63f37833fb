import CheckRealtime.Checks
/-!
# Delay — the arithmetic of a delayed check

The delay is multiplied out in `int` by `load_judge`, added to a 64-bit time by `do_analysis` and narrowed to `int` again, and
compared by the timer thread with a clock that is narrowed too, while `do_analysis` compares its own times in 64 bits.
`delayExact_iff` says for which delays and times the two sides agree.
-/
namespace CheckRealtime

/-- A call of `do_analysis` at `now` arms the timer: the timestamp of some row puts it inside the delay. -/
def Config.Arms (C : Config) (now : Int) (timer : TaskTimer AnalysisNode) : Prop :=
  ∃ timestamp id dir name, C.delays now timestamp = true ∧ timer = C.newTask id now dir name

/-- The timer is called back by the pass of `execute` at `t`. -/
def Fires (cs : Callbacks AnalysisNode) (timer : TaskTimer AnalysisNode) (t : Int) : Prop :=
  timer ∈ (TaskTimerManager.execute (TaskTimerManager.add cs timer) t).1

/-- What holds of a timer armed at `now` when `m` minutes are waited out exactly: its expiration, the passes that call it
back, and that `do_analysis` would no longer delay a row written at `now`. -/
structure DelayExact (C : Config) (m now t : Int) : Prop where
  expiration : ∀ timer, C.Arms now timer → timer.expiration = now + 60 * m
  fires      : ∀ cs timer, C.Arms now timer → (Fires cs timer t ↔ now + 60 * m ≤ t)
  clocks     : ∀ cs timer, C.Arms now timer → (Fires cs timer t ↔ C.delays t now = false)

theorem fires_iff (cs : Callbacks AnalysisNode) (timer : TaskTimer AnalysisNode) (t : Int) :
    Fires cs timer t ↔ timer.expiration ≤ toInt t := by
  rw [Fires, TaskTimerManager.execute, TaskTimerManager.executeAt_fst, List.mem_filter, decide_eq_true_eq,
    TaskTimerManager.mem_pending_add]
  simp

theorem newTask_expiration (C : Config) (m id now : Int) (dir name : Str) (hC : C.interval = toInt (m * 60)) :
    (C.newTask id now dir name).expiration = toInt (now + 60 * m) := by
  have hsum : toInt (toInt (m * 60) + now) = toInt (m * 60 + now) := Int.bmod_add_bmod
  show toInt (C.interval + now) = _
  rw [hC, hsum, Int.add_comm, Int.mul_comm]

/-- The product is zero for no delay, and once more where it wraps around to zero. -/
theorem interval_eq_zero_iff (m : Int) (h0 : 0 ≤ m) (hm : m < 2 ^ 31) : toInt (m * 60) = 0 ↔ m = 0 ∨ m = 2 ^ 30 := by
  rw [toInt, ← Int.dvd_iff_bmod_eq_zero]
  constructor
  · intro hdvd
    have hdvd : (4 : Int) * 2 ^ 30 ∣ 4 * (15 * m) := by
      rw [← Int.mul_assoc, Int.mul_comm (4 * 15) m]
      exact hdvd
    have hdvd : (2 : Int) ^ 30 ∣ m :=
      Int.dvd_of_dvd_mul_right_of_gcd_one (Int.dvd_of_mul_dvd_mul_left (by decide) hdvd) (by decide)
    obtain ⟨j, rfl⟩ := hdvd
    omega
  · rintro (rfl | rfl) <;> decide

theorem delays_of_interval_zero (C : Config) (hC : C.interval = 0) (now timestamp : Int) :
    C.delays now timestamp = false := by
  rw [Config.delays, hC]
  rfl

/-- With a delay there is a timestamp that makes a call arm a timer. -/
theorem arms_newTask (C : Config) (hC : C.interval ≠ 0) (now : Int) : C.Arms now (C.newTask 0 now [] []) := by
  refine ⟨now - C.interval + 1, 0, [], [], ?_, rfl⟩
  simp only [Config.delays, Bool.and_eq_true, decide_eq_true_eq]
  exact ⟨hC, by omega⟩

/-- Where nothing is delayed no timer is armed. -/
theorem delayExact_of_zero {C : Config} (hC : C.interval = 0) (m now t : Int) : DelayExact C m now t := by
  have hnone : ∀ timer, ¬ C.Arms now timer := fun timer ⟨timestamp, _, _, _, hd, _⟩ => by
    rw [delays_of_interval_zero C hC] at hd
    cases hd
  exact ⟨fun timer ha => absurd ha (hnone timer), fun _ timer ha => absurd ha (hnone timer),
    fun _ timer ha => absurd ha (hnone timer)⟩

/-- The expiration fits, and the narrowed clock comes after it when the clock does. -/
def FitsInt (m now t : Int) : Prop := now + 60 * m < 2 ^ 31 ∧ (t < 2 ^ 31 ∨ now + 60 * m ≤ toInt t)

theorem le_toInt_iff {x t : Int} (h0 : 0 ≤ t) (h : t < 2 ^ 31 ∨ x ≤ toInt t) : x ≤ toInt t ↔ x ≤ t := by
  rcases Int.lt_or_le t (2 ^ 31) with ht | ht
  · rw [toInt_of_int ⟨by omega, ht⟩]
  · have hrange := toInt_range t
    have hx : x ≤ toInt t := h.resolve_left (Int.not_lt.2 ht)
    exact iff_of_true hx (by omega)

theorem delayExact_of_fits {C : Config} {m now t : Int} (hC : C.interval = toInt (m * 60)) (hm : 0 ≤ m) (hnow : 0 ≤ now)
    (hle : now ≤ t) (h : FitsInt m now t) : DelayExact C m now t := by
  obtain ⟨hfit, ht⟩ := h
  have hinterval : C.interval = 60 * m := by
    rw [hC, Int.mul_comm]
    exact toInt_of_int ⟨by omega, by omega⟩
  have hexp : ∀ timer, C.Arms now timer → timer.expiration = now + 60 * m := fun timer ha => by
    obtain ⟨timestamp, id, dir, name, -, rfl⟩ := ha
    rw [newTask_expiration C m id now dir name hC]
    exact toInt_of_int ⟨by omega, by omega⟩
  have hfires : ∀ cs timer, C.Arms now timer → (Fires cs timer t ↔ now + 60 * m ≤ t) := fun cs timer ha => by
    rw [fires_iff, hexp timer ha]
    exact le_toInt_iff (Int.le_trans hnow hle) ht
  refine ⟨hexp, hfires, fun cs timer ha => ?_⟩
  rw [hfires cs timer ha, Config.delays, hinterval]
  simp only [Bool.and_eq_false_iff, decide_eq_false_iff_not]
  omega

/-- Where a timer can be armed at all, its expiration and its passes show that the times fit. -/
theorem fits_of_delayExact {C : Config} {m now t : Int} (hC : C.interval = toInt (m * 60)) (h0 : C.interval ≠ 0)
    (h : DelayExact C m now t) : FitsInt m now t := by
  have harms := arms_newTask C h0 now
  have hexp := h.expiration _ harms
  have hfires := h.fires TaskTimerManager.empty _ harms
  rw [fires_iff, hexp] at hfires
  rw [newTask_expiration C m 0 now [] [] hC] at hexp
  have hrange := toInt_range (now + 60 * m)
  refine ⟨by omega, ?_⟩
  rcases Int.lt_or_le t (2 ^ 31) with ht | ht
  · exact Or.inl ht
  · exact Or.inr (hfires.2 (by omega))

/-- **A delay of `m` minutes is exact when nothing is delayed or the expiration fits an `int`, and the pass is before 2038
or reads a narrowed clock that is late enough.** -/
theorem delayExact_iff (iterate : RegMap → RegMap) (matchRegex : Str → Str → Bool) (checks : List Check) (m now t : Int)
    (hm : 0 ≤ m ∧ m < 2 ^ 31) (hnow : 0 ≤ now) (hle : now ≤ t) :
    DelayExact (loadJudge iterate matchRegex m checks) m now t ↔
      m = 0 ∨ m = 2 ^ 30 ∨ (now + 60 * m < 2 ^ 31 ∧ (t < 2 ^ 31 ∨ now + 60 * m ≤ toInt t)) := by
  generalize hC : loadJudge iterate matchRegex m checks = C
  have hI : C.interval = toInt (m * 60) := by rw [← hC]; rfl
  have hzero := interval_eq_zero_iff m hm.1 hm.2
  rw [← hI] at hzero
  rw [← or_assoc, ← hzero]
  constructor
  · intro h
    by_cases h0 : C.interval = 0
    · exact Or.inl h0
    · exact Or.inr (fits_of_delayExact hI h0 h)
  · rintro (h0 | hfits)
    · exact delayExact_of_zero h0 m now t
    · exact delayExact_of_fits hI hm.1 hnow hle hfits

/-- One hour, and a clock 45 minutes before the end of `int`: the timer expires in 1901. -/
theorem hour_wraps : ¬ ∀ (iterate : RegMap → RegMap) (matchRegex : Str → Str → Bool) (checks : List Check) (m now t : Int),
    0 ≤ m ∧ m < 2 ^ 31 → 0 ≤ now → now ≤ t → DelayExact (loadJudge iterate matchRegex m checks) m now t := by
  intro h
  have hexact := h id (fun _ _ => false) [] 60 2147481000 2147481000 (by decide) (by decide) (by decide)
  have harms := arms_newTask (loadJudge id (fun _ _ => false) 60 []) (by decide) 2147481000
  exact absurd (hexact.expiration _ harms) (by decide)

theorem hour_exact : DelayExact (loadJudge id (fun _ _ => false) 60 []) 60 1700000000 1700003600 :=
  (delayExact_iff id (fun _ _ => false) [] 60 1700000000 1700003600 (by decide) (by decide) (by decide)).2
    (Or.inr (Or.inr ⟨by decide, Or.inl (by decide)⟩))

end CheckRealtime
