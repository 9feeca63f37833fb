import CheckRealtime.Multimap
import CheckRealtime.Util
import Mathlib.Data.List.Nodup
import Mathlib.Tactic.IntervalCases
/-!
# TaskTimer — `TaskTimerManager.hpp`

`Callbacks` is the manager's `callbacks`: a multimap from expiration to timer in which every timer stands under its own
expiration.  `add`, `cancel` and a pass of `execute` are each atomic under `callbacks_mutex`.  The one callback the program
arms is `delay_check`, so the function pointer is left out and a pass returns the timers it calls back, in order.

The second half is about the whole history of a manager (`DeliversOnce`): every timer is called back in the first pass
that is due for it, unless it was cancelled before that pass, and never otherwise.
-/
namespace CheckRealtime

structure TaskTimer (T : Type) where
  expiration : Int
  taskId     : Int
  userData   : T
deriving DecidableEq

structure Callbacks (T : Type) where
  map   : Multimap Int (TaskTimer T)
  keyed : ∀ e ∈ map.entries, e.1 = e.2.expiration

namespace TaskTimerManager

variable {T : Type}

def empty : Callbacks T := ⟨Multimap.empty, fun _ h => by cases h⟩

/-- `callbacks.insert(std::make_pair(timer.expiration, timer))`. -/
def add (cs : Callbacks T) (timer : TaskTimer T) : Callbacks T :=
  { map := cs.map.insert timer.expiration timer
    keyed := fun e he => by
      rcases (Multimap.mem_insert _ _ _ e).1 he with rfl | he
      · rfl
      · exact cs.keyed e he }

/-- Erase, among the timers of the handle's expiration, the first with its `task_id`. -/
def cancel (cs : Callbacks T) (timer : TaskTimer T) : Callbacks T :=
  { map := cs.map.eraseIn timer.expiration (fun t => t.taskId == timer.taskId)
    keyed := fun e he => by
      rw [Multimap.entries_eraseIn] at he
      exact cs.keyed e (List.mem_of_mem_eraseP he) }

/-- One pass of `execute` whose `int now` is `now`: the timers it calls back, and what is left. -/
def executeAt (cs : Callbacks T) (now : Int) : List (TaskTimer T) × Callbacks T :=
  ((cs.map.upTo now).map Prod.snd,
    { map := cs.map.eraseUpTo now
      keyed := fun e he => cs.keyed e ((Multimap.mem_above _ _ e).1 he).1 })

/-- One pass at a `time(NULL)`, which is narrowed to `int`. -/
def execute (cs : Callbacks T) (time : Int) : List (TaskTimer T) × Callbacks T := executeAt cs (toInt time)

def pending (cs : Callbacks T) : List (TaskTimer T) := cs.map.entries.map Prod.snd

theorem ext_pending {cs cs' : Callbacks T} (h : pending cs = pending cs') : cs = cs' := by
  have hkey : ∀ (c : Callbacks T), c.map.entries = (pending c).map (fun t => (t.expiration, t)) := fun c => by
    rw [pending, List.map_map]
    conv => lhs; rw [← List.map_id c.map.entries]
    exact List.map_congr_left (fun e he => Prod.ext (c.keyed e he) rfl)
  have hm : cs.map = cs'.map := Multimap.ext_entries (by rw [hkey cs, hkey cs', h])
  cases cs; cases cs'; cases hm; rfl

/-! ## What each operation does to the pending timers -/

theorem map_filter_key (cs : Callbacks T) (p : Int → Bool) :
    (cs.map.entries.filter (fun e => p e.1)).map Prod.snd = (pending cs).filter (fun t => p t.expiration) := by
  rw [pending, List.filter_map]
  congr 1
  exact List.filter_congr (fun e he => by rw [cs.keyed e he]; rfl)

/-- **A new timer stands after the timers that expire no later, before those that expire later.** -/
theorem pending_add (cs : Callbacks T) (t : TaskTimer T) :
    pending (add cs t) = (pending cs).filter (fun u => decide (u.expiration ≤ t.expiration)) ++
      t :: (pending cs).filter (fun u => decide (t.expiration < u.expiration)) := by
  show (cs.map.insert t.expiration t).entries.map Prod.snd = _
  rw [Multimap.entries_insert, List.map_append, List.map_cons, Multimap.upTo_eq_filter, Multimap.above_eq_filter,
    map_filter_key cs (fun k => decide (k ≤ t.expiration)), map_filter_key cs (fun k => decide (t.expiration < k))]

theorem pending_add_perm (cs : Callbacks T) (t : TaskTimer T) : (pending (add cs t)).Perm (t :: pending cs) := by
  have h := (Multimap.insert_perm cs.map t.expiration t).map Prod.snd
  rwa [List.map_cons] at h

theorem mem_pending_add (cs : Callbacks T) (t u : TaskTimer T) : u ∈ pending (add cs t) ↔ u = t ∨ u ∈ pending cs := by
  rw [(pending_add_perm cs t).mem_iff, List.mem_cons]

/-- A timer a handle names: same expiration, same `task_id`. -/
def sameTask (h t : TaskTimer T) : Bool := decide (t.expiration = h.expiration) && t.taskId == h.taskId

/-- **A cancel erases the first pending timer its handle names.** -/
theorem pending_cancel (cs : Callbacks T) (h : TaskTimer T) :
    pending (cancel cs h) = (pending cs).eraseP (sameTask h) := by
  show (cs.map.eraseIn h.expiration (fun t => t.taskId == h.taskId)).entries.map Prod.snd = _
  rw [Multimap.entries_eraseIn, pending, List.eraseP_map]
  congr 1
  have hc : ∀ e ∈ cs.map.entries, Multimap.keyed h.expiration (fun t => t.taskId == h.taskId) e
      = (sameTask h ∘ Prod.snd) e := fun e he => by
    simp only [Multimap.keyed, sameTask, Function.comp_apply, cs.keyed e he]
  generalize cs.map.entries = l at hc ⊢
  induction l with
  | nil => rfl
  | cons e l ih =>
    have ih := ih (fun x hx => hc x (List.mem_cons_of_mem e hx))
    have he := hc e List.mem_cons_self
    rw [List.eraseP_cons, List.eraseP_cons, he, ih]

theorem mem_of_mem_cancel (cs : Callbacks T) (h t : TaskTimer T) (ht : t ∈ pending (cancel cs h)) : t ∈ pending cs := by
  rw [pending_cancel] at ht
  exact List.mem_of_mem_eraseP ht

theorem mem_cancel_of_not_same (cs : Callbacks T) (h t : TaskTimer T) (ht : t ∈ pending cs) (hn : sameTask h t = false) :
    t ∈ pending (cancel cs h) := by
  rw [pending_cancel]
  exact (List.mem_eraseP_of_neg (by simp [hn])).2 ht

/-- **A cancel leaves the timers alone or takes out one its handle names.** -/
theorem cancel_cases (cs : Callbacks T) (h : TaskTimer T) : pending (cancel cs h) = pending cs ∨
    ∃ before t after, pending cs = before ++ t :: after ∧ pending (cancel cs h) = before ++ after ∧ sameTask h t = true := by
  rw [pending_cancel]
  by_cases hmem : ∃ t ∈ pending cs, sameTask h t = true
  · obtain ⟨t, ht, hsame⟩ := hmem
    obtain ⟨a, before, after, -, ha, hl, he⟩ := List.exists_of_eraseP ht hsame
    exact Or.inr ⟨before, a, after, hl, he, ha⟩
  · refine Or.inl (List.eraseP_of_forall_not (fun t ht hsame => hmem ⟨t, ht, hsame⟩))

/-- **A pass calls back the timers whose expiration it has reached**, in order. -/
theorem executeAt_fst (cs : Callbacks T) (now : Int) :
    (executeAt cs now).1 = (pending cs).filter (fun t => decide (t.expiration ≤ now)) := by
  show (cs.map.upTo now).map Prod.snd = _
  rw [Multimap.upTo_eq_filter, map_filter_key cs (fun k => decide (k ≤ now))]

theorem pending_executeAt (cs : Callbacks T) (now : Int) :
    pending (executeAt cs now).2 = (pending cs).filter (fun t => decide (now < t.expiration)) := by
  show (cs.map.above now).map Prod.snd = _
  rw [Multimap.above_eq_filter, map_filter_key cs (fun k => decide (now < k))]

theorem mem_execute_or (cs : Callbacks T) (now : Int) (t : TaskTimer T) (ht : t ∈ pending cs) :
    t ∈ (executeAt cs now).1 ∨ t ∈ pending (executeAt cs now).2 := by
  rw [executeAt_fst, pending_executeAt, List.mem_filter, List.mem_filter]
  by_cases h : t.expiration ≤ now
  · exact Or.inl ⟨ht, by simpa using h⟩
  · exact Or.inr ⟨ht, by simpa using h⟩

/-! ## The history of a manager -/

inductive Op (T : Type) where
  | add (timer : TaskTimer T)
  | cancel (timer : TaskTimer T)
  | execute (now : Int)

def apply (cs : Callbacks T) : Op T → Callbacks T
  | .add t       => add cs t
  | .cancel t    => cancel cs t
  | .execute now => (executeAt cs now).2

def after (ops : List (Op T)) : Callbacks T := ops.foldl apply empty

/-- The timers operation `j` of a history calls back. -/
def fired (ops : List (Op T)) (j : Nat) : List (TaskTimer T) :=
  match ops[j]? with
  | some (.execute now) => (executeAt (after (ops.take j)) now).1
  | _                   => []

/-- Distinct ids, and every cancelled handle is a copy of a timer added before. -/
structure WellUsed (ops : List (Op T)) : Prop where
  ids     : ∀ (i j : Nat) (t u : TaskTimer T), ops[i]? = some (.add t) → ops[j]? = some (.add u) →
    t.taskId = u.taskId → i = j
  handles : ∀ (k : Nat) (t : TaskTimer T), ops[k]? = some (.cancel t) → ∃ i : Nat, i < k ∧ ops[i]? = some (.add t)

/-- The timer added at `i` was neither cancelled nor due in a pass since. -/
def Live (ops : List (Op T)) (i : Nat) (t : TaskTimer T) : Prop :=
  ops[i]? = some (.add t) ∧ ∀ k : Nat, i < k → ops[k]? ≠ some (.cancel t) ∧
    ∀ now : Int, ops[k]? = some (.execute now) → now < t.expiration

/-- Pass `j` is the first to reach the expiration of the timer added at `i`, which was not cancelled in between. -/
def Due (ops : List (Op T)) (i j : Nat) (t : TaskTimer T) : Prop :=
  i < j ∧ ops[i]? = some (.add t) ∧ (∃ now : Int, ops[j]? = some (.execute now) ∧ t.expiration ≤ now) ∧
    ∀ k : Nat, i < k → k < j → ops[k]? ≠ some (.cancel t) ∧
      ∀ now : Int, ops[k]? = some (.execute now) → now < t.expiration

def AddedBefore (ops : List (Op T)) (t u : TaskTimer T) : Prop :=
  ∃ i j : Nat, i < j ∧ ops[i]? = some (.add t) ∧ ops[j]? = some (.add u)

/-- The order within a pass: by expiration, and in the order of addition where expirations are equal. -/
def Before (ops : List (Op T)) (t u : TaskTimer T) : Prop :=
  t.expiration < u.expiration ∨ (t.expiration = u.expiration ∧ AddedBefore ops t u)

theorem getElem?_snoc (ops : List (Op T)) (op : Op T) (i : Nat) (x : Op T) :
    (ops ++ [op])[i]? = some x ↔ ops[i]? = some x ∨ (i = ops.length ∧ op = x) := by
  rcases Nat.lt_trichotomy i ops.length with h | rfl | h
  · rw [List.getElem?_append_left h]
    exact ⟨Or.inl, fun h' => h'.resolve_right (fun e => absurd e.1 (Nat.ne_of_lt h))⟩
  · rw [List.getElem?_append_right (Nat.le_refl _), Nat.sub_self, List.getElem?_eq_none (Nat.le_refl _)]
    simp
  · rw [List.getElem?_eq_none (by simpa using h), List.getElem?_eq_none (Nat.le_of_lt h)]
    simp [Nat.ne_of_gt h]

theorem lt_of_getElem? {ops : List (Op T)} {i : Nat} {x : Op T} (h : ops[i]? = some x) : i < ops.length :=
  (List.getElem?_eq_some_iff.1 h).1

theorem AddedBefore.snoc {ops : List (Op T)} {t u : TaskTimer T} (h : AddedBefore ops t u) (op : Op T) :
    AddedBefore (ops ++ [op]) t u := by
  obtain ⟨i, j, hij, hi, hj⟩ := h
  exact ⟨i, j, hij, (getElem?_snoc ops op i _).2 (Or.inl hi), (getElem?_snoc ops op j _).2 (Or.inl hj)⟩

theorem Before.snoc {ops : List (Op T)} {t u : TaskTimer T} (h : Before ops t u) (op : Op T) :
    Before (ops ++ [op]) t u :=
  h.imp_right (fun h => ⟨h.1, h.2.snoc op⟩)

theorem WellUsed.take {ops : List (Op T)} (h : WellUsed ops) (n : Nat) : WellUsed (ops.take n) := by
  have htake : ∀ {i : Nat} {x : Op T}, (ops.take n)[i]? = some x → ops[i]? = some x := fun {i x} hi => by
    rw [List.getElem?_take] at hi
    split at hi
    · exact hi
    · cases hi
  refine ⟨fun i j t u hi hj => h.ids i j t u (htake hi) (htake hj), fun k t hk => ?_⟩
  obtain ⟨i, hik, hi⟩ := h.handles k t (htake hk)
  have hkn : k < n := Nat.lt_of_lt_of_le (lt_of_getElem? hk) (List.length_take_le n ops)
  exact ⟨i, hik, by rw [List.getElem?_take, if_pos (Nat.lt_trans hik hkn)]; exact hi⟩

theorem WellUsed.of_snoc {ops : List (Op T)} {op : Op T} (h : WellUsed (ops ++ [op])) : WellUsed ops := by
  have := h.take ops.length
  rwa [List.take_left] at this

/-- **What stays live when one more operation happens.** -/
theorem live_snoc (ops : List (Op T)) (op : Op T) (i : Nat) (t : TaskTimer T) :
    Live (ops ++ [op]) i t ↔ (i = ops.length ∧ op = .add t) ∨
      (Live ops i t ∧ op ≠ .cancel t ∧ ∀ now : Int, op = .execute now → now < t.expiration) := by
  constructor
  · rintro ⟨hadd, hlater⟩
    rcases (getElem?_snoc ops op i _).1 hadd with hi | hi
    · have hlast : ∀ x : Op T, op = x → (ops ++ [op])[ops.length]? = some x :=
        fun x hx => (getElem?_snoc ops op ops.length x).2 (Or.inr ⟨rfl, hx⟩)
      have hil := lt_of_getElem? hi
      refine Or.inr ⟨⟨hi, fun k hk => ⟨fun hc => ?_, fun now hn => ?_⟩⟩, fun hc => ?_, fun now hn => ?_⟩
      · exact (hlater k hk).1 ((getElem?_snoc ops op k _).2 (Or.inl hc))
      · exact (hlater k hk).2 now ((getElem?_snoc ops op k _).2 (Or.inl hn))
      · exact (hlater _ hil).1 (hlast _ hc)
      · exact (hlater _ hil).2 now (hlast _ hn)
    · exact Or.inl hi
  · rintro (⟨rfl, rfl⟩ | ⟨⟨hadd, hlater⟩, hc, hn⟩)
    · refine ⟨(getElem?_snoc ops _ _ _).2 (Or.inr ⟨rfl, rfl⟩), fun k hk => ?_⟩
      have hnone : (ops ++ [Op.add t])[k]? = none := List.getElem?_eq_none (by simpa using hk)
      rw [hnone]
      exact ⟨fun h => (by cases h), fun now h => (by cases h)⟩
    · refine ⟨(getElem?_snoc ops op i _).2 (Or.inl hadd), fun k hk => ⟨fun hk' => ?_, fun now hk' => ?_⟩⟩
      · rcases (getElem?_snoc ops op k _).1 hk' with h | h
        · exact (hlater k hk).1 h
        · exact hc h.2
      · rcases (getElem?_snoc ops op k _).1 hk' with h | h
        · exact (hlater k hk).2 now h
        · exact hn now h.2

/-- The invariant of a history: the manager holds the live timers, each once, in delivery order. -/
structure Holds (ops : List (Op T)) : Prop where
  live    : ∀ t, t ∈ pending (after ops) ↔ ∃ i, Live ops i t
  nodup   : (pending (after ops)).Nodup
  ordered : (pending (after ops)).Pairwise (Before ops)

theorem after_snoc (ops : List (Op T)) (op : Op T) : after (ops ++ [op]) = apply (after ops) op := by
  rw [after, List.foldl_append]; rfl

theorem holds_nil : Holds ([] : List (Op T)) := by
  refine ⟨fun t => ⟨fun h => (by cases h), fun h => ?_⟩, List.nodup_nil, List.Pairwise.nil⟩
  obtain ⟨i, hi, -⟩ := h
  simp at hi

theorem WellUsed.eq_of_taskId {ops : List (Op T)} (h : WellUsed ops) {i j : Nat} {t u : TaskTimer T}
    (hi : ops[i]? = some (.add t)) (hj : ops[j]? = some (.add u)) (hid : t.taskId = u.taskId) : t = u := by
  have := h.ids i j t u hi hj hid
  subst this
  rw [hi] at hj
  cases hj; rfl

theorem holds_add (ops : List (Op T)) (t : TaskTimer T) (hw : WellUsed (ops ++ [.add t])) (h : Holds ops) :
    Holds (ops ++ [.add t]) := by
  have hlast : (ops ++ [Op.add t])[ops.length]? = some (.add t) := (getElem?_snoc ops _ _ _).2 (Or.inr ⟨rfl, rfl⟩)
  have hnew : ∀ u ∈ pending (after ops), AddedBefore (ops ++ [.add t]) u t := fun u hu => by
    obtain ⟨i, hi, -⟩ := (h.live u).1 hu
    exact ⟨i, ops.length, lt_of_getElem? hi, (getElem?_snoc ops _ i _).2 (Or.inl hi), hlast⟩
  have hnot : t ∉ pending (after ops) := fun ht => by
    obtain ⟨i, hi, -⟩ := (h.live t).1 ht
    have := hw.ids i ops.length t t ((getElem?_snoc ops _ i _).2 (Or.inl hi)) hlast rfl
    exact absurd (lt_of_getElem? hi) (by omega)
  refine ⟨fun u => ?_, ?_, ?_⟩ <;> rw [after_snoc]
  · show u ∈ pending (add (after ops) t) ↔ _
    rw [mem_pending_add, h.live u]
    constructor
    · rintro (rfl | ⟨i, hi⟩)
      · exact ⟨ops.length, (live_snoc ops _ _ _).2 (Or.inl ⟨rfl, rfl⟩)⟩
      · exact ⟨i, (live_snoc ops _ _ _).2 (Or.inr ⟨hi, fun e => (by cases e), fun now e => (by cases e)⟩)⟩
    · rintro ⟨i, hi⟩
      rcases (live_snoc ops _ i u).1 hi with ⟨-, e⟩ | ⟨hi, -, -⟩
      · cases e; exact Or.inl rfl
      · exact Or.inr ⟨i, hi⟩
  · exact (pending_add_perm _ _).nodup_iff.2 (List.nodup_cons.2 ⟨hnot, h.nodup⟩)
  · show (pending (add (after ops) t)).Pairwise _
    rw [pending_add, List.pairwise_append, List.pairwise_cons]
    have hkeep : (pending (after ops)).Pairwise (Before (ops ++ [.add t])) := h.ordered.imp (fun hb => hb.snoc _)
    refine ⟨hkeep.sublist List.filter_sublist, ⟨fun u hu => ?_, hkeep.sublist List.filter_sublist⟩, fun u hu v hv => ?_⟩
    · exact Or.inl (by simpa using (List.mem_filter.1 hu).2)
    · obtain ⟨hum, hut⟩ := List.mem_filter.1 hu
      have hut : u.expiration ≤ t.expiration := by simpa using hut
      rcases List.mem_cons.1 hv with rfl | hv
      · rcases lt_or_eq_of_le hut with hlt | heq
        · exact Or.inl hlt
        · exact Or.inr ⟨heq, hnew u hum⟩
      · have htv : t.expiration < v.expiration := by simpa using (List.mem_filter.1 hv).2
        exact Or.inl (lt_of_le_of_lt hut htv)

theorem pending_cancel_copy [DecidableEq T] (ops : List (Op T)) (t : TaskTimer T) (hw : WellUsed ops) (h : Holds ops)
    (i : Nat) (hi : ops[i]? = some (.add t)) : pending (cancel (after ops) t) = (pending (after ops)).erase t := by
  rw [pending_cancel, List.erase_eq_eraseP']
  have hsame : ∀ u ∈ pending (after ops), sameTask t u = (u == t) := fun u hu => by
    obtain ⟨j, hj, -⟩ := (h.live u).1 hu
    by_cases hut : u = t
    · subst hut; simp [sameTask]
    · have hid : u.taskId ≠ t.taskId := fun e => hut (hw.eq_of_taskId hj hi e)
      have hut' : (u == t) = false := by simpa using hut
      simp [sameTask, hid, hut']
  generalize pending (after ops) = l at hsame ⊢
  induction l with
  | nil => rfl
  | cons u l ih =>
    rw [List.eraseP_cons, List.eraseP_cons, hsame u List.mem_cons_self,
      ih (fun x hx => hsame x (List.mem_cons_of_mem u hx))]

theorem holds_cancel [DecidableEq T] (ops : List (Op T)) (t : TaskTimer T) (hw : WellUsed (ops ++ [.cancel t]))
    (h : Holds ops) : Holds (ops ++ [.cancel t]) := by
  obtain ⟨i, hilt, hi⟩ := hw.handles ops.length t ((getElem?_snoc ops _ _ _).2 (Or.inr ⟨rfl, rfl⟩))
  have hi : ops[i]? = some (.add t) := ((getElem?_snoc ops _ i _).1 hi).resolve_right (fun e => by cases e.2)
  have herase := pending_cancel_copy ops t hw.of_snoc h i hi
  refine ⟨fun u => ?_, ?_, ?_⟩ <;> rw [after_snoc]
  · show u ∈ pending (cancel (after ops) t) ↔ _
    rw [herase, h.nodup.mem_erase_iff, h.live u]
    constructor
    · rintro ⟨hne, j, hj⟩
      exact ⟨j, (live_snoc ops _ j u).2 (Or.inr ⟨hj, fun e => hne (by cases e; rfl), fun now e => (by cases e)⟩)⟩
    · rintro ⟨j, hj⟩
      rcases (live_snoc ops _ j u).1 hj with ⟨-, e⟩ | ⟨hj, hne, -⟩
      · cases e
      · exact ⟨fun e => hne (by rw [e]), j, hj⟩
  · show (pending (cancel (after ops) t)).Nodup
    rw [herase]; exact h.nodup.erase t
  · show (pending (cancel (after ops) t)).Pairwise _
    rw [herase]
    exact (h.ordered.imp (fun hb => hb.snoc _)).sublist List.erase_sublist

theorem holds_execute (ops : List (Op T)) (now : Int) (h : Holds ops) : Holds (ops ++ [.execute now]) := by
  refine ⟨fun u => ?_, ?_, ?_⟩ <;> rw [after_snoc]
  · show u ∈ pending (executeAt (after ops) now).2 ↔ _
    rw [pending_executeAt, List.mem_filter, h.live u, decide_eq_true_eq]
    constructor
    · rintro ⟨⟨i, hi⟩, hlt⟩
      exact ⟨i, (live_snoc ops _ i u).2 (Or.inr ⟨hi, fun e => (by cases e), fun n e => by cases e; exact hlt⟩)⟩
    · rintro ⟨i, hi⟩
      rcases (live_snoc ops _ i u).1 hi with ⟨-, e⟩ | ⟨hi, -, hlt⟩
      · cases e
      · exact ⟨⟨i, hi⟩, hlt now rfl⟩
  · show (pending (executeAt (after ops) now).2).Nodup
    rw [pending_executeAt]; exact h.nodup.filter _
  · show (pending (executeAt (after ops) now).2).Pairwise _
    rw [pending_executeAt]
    exact (h.ordered.imp (fun hb => hb.snoc _)).sublist List.filter_sublist

/-- **The invariant holds after every well-used history**, by induction on its last operation. -/
theorem holds_of_wellUsed [DecidableEq T] (ops : List (Op T)) (hw : WellUsed ops) : Holds ops := by
  induction ops using List.reverseRecOn with
  | nil => exact holds_nil
  | append_singleton ops op ih =>
    have h := ih hw.of_snoc
    cases op with
    | add t => exact holds_add ops t hw h
    | cancel t => exact holds_cancel ops t hw h
    | execute now => exact holds_execute ops now h

/-- Delivery, over a whole history. -/
structure DeliversOnce [DecidableEq T] (ops : List (Op T)) : Prop where
  -- a due timer is called back once in the pass that is due
  once        : ∀ i j t, Due ops i j t → (fired ops j).count t = 1
  -- nothing else is called back
  onlyDue     : ∀ j t, t ∈ fired ops j → ∃ i, Due ops i j t
  -- no timer is called back in two passes
  onePass     : ∀ j j' t, t ∈ fired ops j → t ∈ fired ops j' → j = j'
  -- a timer cancelled before any pass reached it is never called back
  cancelled   : ∀ (i k : Nat) (t : TaskTimer T), i < k → ops[i]? = some (.add t) → ops[k]? = some (.cancel t) →
    (∀ (j : Nat) (now : Int), i < j → j < k → ops[j]? = some (.execute now) → now < t.expiration) →
    ∀ j, t ∉ fired ops j
  -- no pass calls back a timer before its expiration
  notEarly    : ∀ (j : Nat) (now : Int) (t : TaskTimer T), ops[j]? = some (.execute now) → t ∈ fired ops j →
    t.expiration ≤ now
  -- a cancel of a timer that was called back or cancelled before changes nothing
  staleCancel : ∀ (k : Nat) (t : TaskTimer T), ops[k]? = some (.cancel t) →
    (∃ j, j < k ∧ (t ∈ fired ops j ∨ ops[j]? = some (.cancel t))) → after (ops.take (k + 1)) = after (ops.take k)
  -- within a pass, by expiration and then in the order of addition
  ordered     : ∀ j, (fired ops j).Pairwise (Before ops)

theorem live_take (ops : List (Op T)) (i j : Nat) (t : TaskTimer T) :
    Live (ops.take j) i t ↔ i < j ∧ ops[i]? = some (.add t) ∧
      ∀ k : Nat, i < k → k < j → ops[k]? ≠ some (.cancel t) ∧
        ∀ now : Int, ops[k]? = some (.execute now) → now < t.expiration := by
  unfold Live
  simp only [List.getElem?_take]
  constructor
  · rintro ⟨hadd, hlater⟩
    split at hadd
    · rename_i hij
      refine ⟨hij, hadd, fun k hik hkj => ?_⟩
      have := hlater k hik
      rwa [if_pos hkj] at this
    · cases hadd
  · rintro ⟨hij, hadd, hlater⟩
    refine ⟨by rw [if_pos hij]; exact hadd, fun k hik => ?_⟩
    by_cases hkj : k < j
    · rw [if_pos hkj]; exact hlater k hik hkj
    · rw [if_neg hkj]; exact ⟨fun h => (by cases h), fun now h => (by cases h)⟩

theorem fired_execute (ops : List (Op T)) (j : Nat) (now : Int) (h : ops[j]? = some (.execute now)) :
    fired ops j = (pending (after (ops.take j))).filter (fun t => decide (t.expiration ≤ now)) := by
  rw [fired, h]
  exact executeAt_fst _ now

theorem execute_of_mem_fired {ops : List (Op T)} {j : Nat} {t : TaskTimer T} (h : t ∈ fired ops j) :
    ∃ now : Int, ops[j]? = some (.execute now) := by
  unfold fired at h
  split at h
  · rename_i now hj; exact ⟨now, hj⟩
  · cases h

/-- **A pass calls back exactly the timers it is due for.** -/
theorem mem_fired_iff [DecidableEq T] (ops : List (Op T)) (hw : WellUsed ops) (j : Nat) (t : TaskTimer T) :
    t ∈ fired ops j ↔ ∃ i, Due ops i j t := by
  have hlive := (holds_of_wellUsed (ops.take j) (hw.take j)).live t
  constructor
  · intro h
    obtain ⟨now, hj⟩ := execute_of_mem_fired h
    rw [fired_execute ops j now hj, List.mem_filter, decide_eq_true_eq] at h
    obtain ⟨i, hi⟩ := hlive.1 h.1
    obtain ⟨hij, hadd, hlater⟩ := (live_take ops i j t).1 hi
    exact ⟨i, hij, hadd, ⟨now, hj, h.2⟩, hlater⟩
  · rintro ⟨i, hij, hadd, ⟨now, hj, hle⟩, hlater⟩
    rw [fired_execute ops j now hj, List.mem_filter, decide_eq_true_eq]
    exact ⟨hlive.2 ⟨i, (live_take ops i j t).2 ⟨hij, hadd, hlater⟩⟩, hle⟩

theorem nodup_fired [DecidableEq T] (ops : List (Op T)) (hw : WellUsed ops) (j : Nat) : (fired ops j).Nodup := by
  unfold fired
  split
  · rw [executeAt_fst]
    exact (holds_of_wellUsed (ops.take j) (hw.take j)).nodup.filter _
  · exact List.nodup_nil

theorem WellUsed.add_unique {ops : List (Op T)} (hw : WellUsed ops) {i i' : Nat} {t : TaskTimer T}
    (h : ops[i]? = some (.add t)) (h' : ops[i']? = some (.add t)) : i = i' :=
  hw.ids i i' t t h h' rfl

/-- **Two passes are never due for one timer**: the earlier one ends what makes the later one due. -/
theorem Due.unique {ops : List (Op T)} (hw : WellUsed ops) {i i' j j' : Nat} {t : TaskTimer T} (h : Due ops i j t)
    (h' : Due ops i' j' t) : j = j' := by
  obtain ⟨hij, hadd, ⟨now, hj, hle⟩, hlater⟩ := h
  obtain ⟨hij', hadd', ⟨now', hj', hle'⟩, hlater'⟩ := h'
  obtain rfl := hw.add_unique hadd hadd'
  rcases Nat.lt_trichotomy j j' with hlt | heq | hgt
  · have := (hlater' j hij hlt).2 now hj; omega
  · exact heq
  · have := (hlater j' hij' hgt).2 now' hj'; omega

theorem Before.of_take {ops : List (Op T)} {n : Nat} {t u : TaskTimer T} (h : Before (ops.take n) t u) :
    Before ops t u := by
  refine h.imp_right (fun ⟨heq, i, j, hij, hi, hj⟩ => ⟨heq, i, j, hij, ?_, ?_⟩)
  · rw [List.getElem?_take] at hi; split at hi
    · exact hi
    · cases hi
  · rw [List.getElem?_take] at hj; split at hj
    · exact hj
    · cases hj

/-- **Every well-used history delivers each timer once or not at all.** -/
theorem delivers_once [DecidableEq T] (ops : List (Op T)) (hw : WellUsed ops) : DeliversOnce ops where
  once i j t h := List.count_eq_one_of_mem (nodup_fired ops hw j) ((mem_fired_iff ops hw j t).2 ⟨i, h⟩)
  onlyDue j t h := (mem_fired_iff ops hw j t).1 h
  onePass j j' t h h' := by
    obtain ⟨i, hd⟩ := (mem_fired_iff ops hw j t).1 h
    obtain ⟨i', hd'⟩ := (mem_fired_iff ops hw j' t).1 h'
    exact hd.unique hw hd'
  cancelled i k t hik hadd hc hearly j h := by
    obtain ⟨i', hij, hadd', ⟨now, hj, hle⟩, hlater⟩ := (mem_fired_iff ops hw j t).1 h
    obtain rfl := hw.add_unique hadd hadd'
    rcases Nat.lt_trichotomy j k with hlt | rfl | hgt
    · have := hearly j now hij hlt hj; omega
    · rw [hc] at hj; cases hj
    · exact (hlater k hik hgt).1 hc
  notEarly j now t hj h := by
    obtain ⟨i, -, -, ⟨now', hj', hle⟩, -⟩ := (mem_fired_iff ops hw j t).1 h
    rw [hj] at hj'; cases hj'; exact hle
  staleCancel k t hk h := by
    -- the handle's timer is no longer live, so the search of `cancel` finds nothing
    have hnot : t ∉ pending (after (ops.take k)) := fun hp => by
      obtain ⟨i, hi⟩ := ((holds_of_wellUsed (ops.take k) (hw.take k)).live t).1 hp
      obtain ⟨hik, hadd, hlater⟩ := (live_take ops i k t).1 hi
      obtain ⟨j, hjk, hf | hc⟩ := h
      · obtain ⟨i', hij, hadd', ⟨now, hj, hle⟩, -⟩ := (mem_fired_iff ops hw j t).1 hf
        obtain rfl := hw.add_unique hadd hadd'
        have := (hlater j hij hjk).2 now hj; omega
      · obtain ⟨i', hij, hadd'⟩ := hw.handles j t hc
        obtain rfl := hw.add_unique hadd hadd'
        exact (hlater j hij hjk).1 hc
    have hsnoc : ops.take (k + 1) = ops.take k ++ [.cancel t] := by rw [List.take_add_one, hk]; rfl
    obtain ⟨i, hik, hadd⟩ := hw.handles k t hk
    have herase := pending_cancel_copy (ops.take k) t (hw.take k) (holds_of_wellUsed _ (hw.take k)) i
      (by rw [List.getElem?_take, if_pos hik]; exact hadd)
    rw [hsnoc, after_snoc]
    exact ext_pending (herase.trans (List.erase_of_not_mem hnot))
  ordered j := by
    unfold fired
    split
    · rw [executeAt_fst]
      exact ((holds_of_wellUsed (ops.take j) (hw.take j)).ordered.imp Before.of_take).sublist List.filter_sublist
    · exact List.Pairwise.nil

/-- Two timers of one expiration, one of them cancelled after it fired, and a third that is cancelled in time. -/
def sampleOps : List (Op Nat) :=
  [.add ⟨9, 0, 70⟩, .add ⟨5, 1, 71⟩, .add ⟨5, 2, 72⟩, .cancel ⟨9, 0, 70⟩, .execute 4, .execute 6, .cancel ⟨5, 1, 71⟩,
    .execute 9]

theorem sampleOps_wellUsed : WellUsed sampleOps := by
  constructor
  · intro i j t u hi hj hid
    have hi' : i < 8 := lt_of_getElem? hi
    have hj' : j < 8 := lt_of_getElem? hj
    interval_cases i <;> cases hi <;> interval_cases j <;> cases hj <;> first | rfl | (simp at hid)
  · intro k t hk
    have hk' : k < 8 := lt_of_getElem? hk
    interval_cases k <;> cases hk
    · exact ⟨0, by decide, rfl⟩
    · exact ⟨1, by decide, rfl⟩

theorem sampleOps_delivers : DeliversOnce sampleOps ∧ fired sampleOps 5 = [⟨5, 1, 71⟩, ⟨5, 2, 72⟩] :=
  ⟨delivers_once sampleOps sampleOps_wellUsed, by decide⟩

end TaskTimerManager
end CheckRealtime
