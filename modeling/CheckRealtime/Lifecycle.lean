import CheckRealtime.Machine
/-!
# Lifecycle — the history of a record that is created, changed and deleted

An observer of a record hears of its creation, its changes and its deletion.  `next` is the one automaton of such a
history: whether there is a record, and when it was last written if that is known.  A history it accepts is `WellFormed`:
creations and deletions alternate, a change has a record to change, and every change or deletion is decided at least an
interval after the record was last written.
-/
namespace Lifecycle

inductive Kind where
  | created | changed | deleted
deriving DecidableEq

/-- What is heard: when it was decided, and the time written into the record, if one was. -/
structure Event where
  kind    : Kind
  decided : Int
  written : Int
deriving DecidableEq

abbrev State := Option (Option Int)

/-- At least an interval after the last writing, when that is known. -/
def late (I : Int) (since : Option Int) (decided : Int) : Bool := since.all (fun t => decide (t + I ≤ decided))

theorem late_iff (I : Int) (since : Option Int) (decided : Int) :
    late I since decided = true ↔ ∀ t, since = some t → t + I ≤ decided := by
  cases since with
  | none => simp [late]
  | some t => simp [late]

def next (I : Int) (s : State) (e : Event) : Option State :=
  match s, e.kind with
  | none, .created       => some (some (some e.written))
  | some since, .changed => if late I since e.decided then some (some (some e.written)) else none
  | some since, .deleted => if late I since e.decided then some none else none
  | _, _                 => none

/-- What a step of the automaton checked. -/
inductive NextCase (I : Int) : State → Event → State → Prop where
  | created (e : Event) (hk : e.kind = .created) : NextCase I none e (some (some e.written))
  | changed (since : Option Int) (e : Event) (hk : e.kind = .changed) (hl : late I since e.decided = true) :
      NextCase I (some since) e (some (some e.written))
  | deleted (since : Option Int) (e : Event) (hk : e.kind = .deleted) (hl : late I since e.decided = true) :
      NextCase I (some since) e none

theorem nextCase_of_next (I : Int) (s s' : State) (e : Event) (h : next I s e = some s') : NextCase I s e s' := by
  unfold next at h
  split at h
  · rename_i hk; cases h; exact .created e hk
  · rename_i since hk
    split at h
    · rename_i hl; cases h; exact .changed since e hk hl
    · cases h
  · rename_i since hk
    split at h
    · rename_i hl; cases h; exact .deleted since e hk hl
    · cases h
  · cases h

/-! ## Creations and deletions balance -/

def countOf (k : Kind) (l : List Event) : Nat := l.countP (fun e => decide (e.kind = k))

/-- **Records that are there or were deleted are those that were there or were created.** -/
theorem run_balance (I : Int) : ∀ (l : List Event) (s s' : State), Machine.run (next I) s l = some s' →
    s'.isSome.toNat + countOf .deleted l = s.isSome.toNat + countOf .created l
  | [], s, s', h => by cases h; rfl
  | e :: l, s, s', h => by
    obtain ⟨t, ht, hrun⟩ := Option.bind_eq_some_iff.1 h
    have ih := run_balance I l t s' hrun
    unfold countOf at ih ⊢
    rw [List.countP_cons, List.countP_cons]
    cases nextCase_of_next I s t e ht with
    | created _ hk => simp [hk] at ih ⊢; omega
    | changed since _ hk hl => simp [hk] at ih ⊢; omega
    | deleted since _ hk hl => simp [hk] at ih ⊢; omega

/-! ## Well-formed histories -/

structure WellFormed (I : Int) (recorded : Bool) (l : List Event) : Prop where
  -- between two creations next to each other there is exactly one deletion
  created : ∀ a x m y b, l = a ++ x :: (m ++ y :: b) → x.kind = .created → y.kind = .created → countOf .created m = 0 →
    countOf .deleted m = 1
  -- and the other way round
  deleted : ∀ a x m y b, l = a ++ x :: (m ++ y :: b) → x.kind = .deleted → y.kind = .deleted → countOf .deleted m = 0 →
    countOf .created m = 1
  -- a change comes after a creation, or after the start when there was a record then, and before the next deletion
  changed : ∀ a y b, l = a ++ y :: b → y.kind = .changed →
    (∃ a₁ x a₂, a = a₁ ++ x :: a₂ ∧ x.kind = .created ∧ countOf .deleted a₂ = 0) ∨
      (recorded = true ∧ countOf .deleted a = 0)
  -- a change or a deletion is decided an interval after the time written by the creation or change before it
  spaced  : ∀ a x m y b, l = a ++ x :: (m ++ y :: b) → x.kind ≠ .deleted → y.kind ≠ .created →
    (∀ z ∈ m, z.kind = .deleted) → x.written + I ≤ y.decided

theorem run_split (I : Int) {s s' : State} {a b : List Event} {x : Event}
    (h : Machine.run (next I) s (a ++ x :: b) = some s') :
    ∃ t t', Machine.run (next I) s a = some t ∧ NextCase I t x t' ∧ Machine.run (next I) t' b = some s' := by
  rw [Machine.run_append] at h
  obtain ⟨t, ht, h⟩ := Option.bind_eq_some_iff.1 h
  obtain ⟨t', ht', h⟩ := Option.bind_eq_some_iff.1 h
  exact ⟨t, t', ht, nextCase_of_next I t t' x ht', h⟩

/-- Where there is a record, it was created since the last deletion or there from the start. -/
theorem recorded_of_run (I : Int) (s₀ : State) (a : List Event) : ∀ since, Machine.run (next I) s₀ a = some (some since) →
    (∃ a₁ x a₂, a = a₁ ++ x :: a₂ ∧ x.kind = .created ∧ countOf .deleted a₂ = 0) ∨
      (s₀.isSome = true ∧ countOf .deleted a = 0) := by
  induction a using List.reverseRecOn with
  | nil => intro since h; cases h; exact Or.inr ⟨rfl, rfl⟩
  | append_singleton a e ih =>
    intro since h
    obtain ⟨t, t', hrun, hcase, hend⟩ := run_split I h
    cases hend
    cases hcase with
    | created _ hk => exact Or.inl ⟨a, e, [], rfl, hk, rfl⟩
    | changed since' _ hk hl =>
      have hcount : ∀ l, countOf .deleted (l ++ [e]) = countOf .deleted l := fun l => by
        simp [countOf, List.countP_append, hk]
      rcases ih since' hrun with ⟨a₁, x, a₂, rfl, hx, hd⟩ | ⟨hs, hd⟩
      · exact Or.inl ⟨a₁, x, a₂ ++ [e], by simp, hx, by rw [hcount, hd]⟩
      · exact Or.inr ⟨hs, by rw [hcount, hd]⟩

/-- Of deletions in a row there is one at most, which ends the record. -/
theorem run_deletions (I : Int) {since : Option Int} {m : List Event} {u : State} (hm : ∀ z ∈ m, z.kind = .deleted)
    (h : Machine.run (next I) (some since) m = some u) : u = some since ∨ u = none := by
  cases m with
  | nil => cases h; exact Or.inl rfl
  | cons z m =>
    obtain ⟨v, hv, hrun⟩ := Option.bind_eq_some_iff.1 h
    have hz := hm z List.mem_cons_self
    have hv : v = none := by
      cases nextCase_of_next I _ _ _ hv with
      | changed _ _ hk => rw [hz] at hk; cases hk
      | deleted => rfl
    subst hv
    cases m with
    | nil => cases hrun; exact Or.inr rfl
    | cons z' m =>
      obtain ⟨w, hw, -⟩ := Option.bind_eq_some_iff.1 hrun
      cases nextCase_of_next I _ _ _ hw with
      | created _ hk => rw [hm z' (by simp)] at hk; cases hk

/-- **What the automaton accepts is well formed.** -/
theorem wellFormed_of_run (I : Int) (s₀ s : State) (l : List Event) (h : Machine.run (next I) s₀ l = some s) :
    WellFormed I s₀.isSome l where
  created a x m y b hl hx hy hm := by
    subst hl
    obtain ⟨t, t', -, hcase, hrest⟩ := run_split I h
    obtain ⟨u, u', hrun, hcase', -⟩ := run_split I hrest
    have hb := run_balance I m t' u hrun
    cases hcase' with
    | created =>
      cases hcase with
      | created => simpa [hm] using hb
      | changed since _ hk => rw [hx] at hk; cases hk
      | deleted since _ hk => rw [hx] at hk; cases hk
    | changed since _ hk => rw [hy] at hk; cases hk
    | deleted since _ hk => rw [hy] at hk; cases hk
  deleted a x m y b hl hx hy hm := by
    subst hl
    obtain ⟨t, t', -, hcase, hrest⟩ := run_split I h
    obtain ⟨u, u', hrun, hcase', -⟩ := run_split I hrest
    have hb := run_balance I m t' u hrun
    cases hcase' with
    | deleted =>
      cases hcase with
      | deleted => simpa [hm] using hb.symm
      | created _ hk => rw [hx] at hk; cases hk
      | changed since _ hk => rw [hx] at hk; cases hk
    | created _ hk => rw [hy] at hk; cases hk
    | changed since _ hk => rw [hy] at hk; cases hk
  changed a y b hl hy := by
    subst hl
    obtain ⟨t, t', hrun, hcase, -⟩ := run_split I h
    cases hcase with
    | changed since => exact recorded_of_run I s₀ a since hrun
    | created _ hk => rw [hy] at hk; cases hk
    | deleted since _ hk => rw [hy] at hk; cases hk
  spaced a x m y b hl hx hy hm := by
    subst hl
    obtain ⟨t, t', -, hcase, hrest⟩ := run_split I h
    have ht' : t' = some (some x.written) := by
      cases hcase with
      | created => rfl
      | changed => rfl
      | deleted _ _ hk => exact absurd hk hx
    subst ht'
    obtain ⟨u, u', hrun, hcase', -⟩ := run_split I hrest
    have hu : u = some (some x.written) := by
      refine (run_deletions I hm hrun).resolve_right (fun hnone => ?_)
      subst hnone
      cases hcase' with
      | created _ hk => exact absurd hk hy
    subst hu
    cases hcase' with
    | changed _ _ hk hl => exact (late_iff _ _ _).1 hl _ rfl
    | deleted _ _ hk hl => exact (late_iff _ _ _).1 hl _ rfl

end Lifecycle
