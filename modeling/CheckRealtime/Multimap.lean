import Mathlib.Data.List.Sort
/-!
# Multimap — an ordered multimap that inserts after equal keys

`Multimap κ α` is a list of key-value pairs kept in key order; the order is a field, so no operation can lose it.
`insert` puts a pair after every pair of an equal key, `upTo` and `above` are the two sides of an upper bound, and
`eraseIn` erases the first pair of a key's range whose value satisfies a predicate.
-/

structure Multimap (κ α : Type) [LinearOrder κ] where
  entries : List (κ × α)
  sorted  : entries.Pairwise (fun a b => a.1 ≤ b.1)

namespace Multimap

variable {κ α : Type} [LinearOrder κ]

theorem ext_entries {m m' : Multimap κ α} (h : m.entries = m'.entries) : m = m' := by
  cases m; cases m'; cases h; rfl

def empty : Multimap κ α := ⟨[], List.Pairwise.nil⟩

/-! ## The bounds of a key -/

/-- The pairs before the upper bound of `k`. -/
def upTo (m : Multimap κ α) (k : κ) : List (κ × α) := m.entries.takeWhile (fun e => decide (e.1 ≤ k))

/-- The pairs from the upper bound of `k` on. -/
def above (m : Multimap κ α) (k : κ) : List (κ × α) := m.entries.dropWhile (fun e => decide (e.1 ≤ k))

def below (m : Multimap κ α) (k : κ) : List (κ × α) := m.entries.takeWhile (fun e => decide (e.1 < k))

/-- The pairs of key `k`: from its lower bound to its upper bound. -/
def equalRange (m : Multimap κ α) (k : κ) : List (κ × α) :=
  (m.entries.dropWhile (fun e => decide (e.1 < k))).takeWhile (fun e => decide (e.1 ≤ k))

theorem upTo_append_above (m : Multimap κ α) (k : κ) : m.upTo k ++ m.above k = m.entries :=
  List.takeWhile_append_dropWhile

theorem dropWhile_le_of_sorted (k : κ) : ∀ (l : List (κ × α)), l.Pairwise (fun a b => a.1 ≤ b.1) →
    l.dropWhile (fun e => decide (e.1 ≤ k)) = l.filter (fun e => decide (k < e.1))
  | [], _ => rfl
  | a :: l, h => by
    by_cases ha : a.1 ≤ k
    · rw [List.dropWhile_cons_of_pos (by simpa using ha), dropWhile_le_of_sorted k l h.of_cons,
        List.filter_cons_of_neg (by simpa using ha)]
    · have hall : ∀ b ∈ a :: l, k < b.1 := fun b hb => by
        rcases List.mem_cons.1 hb with rfl | hb
        · exact not_le.1 ha
        · exact lt_of_lt_of_le (not_le.1 ha) (List.rel_of_pairwise_cons h hb)
      rw [List.dropWhile_cons_of_neg (by simpa using ha), List.filter_eq_self.2 (fun b hb => by simpa using hall b hb)]

theorem takeWhile_le_of_sorted (k : κ) : ∀ (l : List (κ × α)), l.Pairwise (fun a b => a.1 ≤ b.1) →
    l.takeWhile (fun e => decide (e.1 ≤ k)) = l.filter (fun e => decide (e.1 ≤ k))
  | [], _ => rfl
  | a :: l, h => by
    by_cases ha : a.1 ≤ k
    · rw [List.takeWhile_cons_of_pos (by simpa using ha), takeWhile_le_of_sorted k l h.of_cons,
        List.filter_cons_of_pos (by simpa using ha)]
    · have hall : ∀ b ∈ a :: l, ¬ b.1 ≤ k := fun b hb => by
        rcases List.mem_cons.1 hb with rfl | hb
        · exact ha
        · exact not_le.2 (lt_of_lt_of_le (not_le.1 ha) (List.rel_of_pairwise_cons h hb))
      rw [List.takeWhile_cons_of_neg (by simpa using ha),
        List.filter_eq_nil_iff.2 (fun b hb => by simpa using hall b hb)]

/-- **The pairs before the upper bound are those of a key at or below it.** -/
theorem upTo_eq_filter (m : Multimap κ α) (k : κ) : m.upTo k = m.entries.filter (fun e => decide (e.1 ≤ k)) :=
  takeWhile_le_of_sorted k m.entries m.sorted

theorem above_eq_filter (m : Multimap κ α) (k : κ) : m.above k = m.entries.filter (fun e => decide (k < e.1)) :=
  dropWhile_le_of_sorted k m.entries m.sorted

theorem mem_upTo (m : Multimap κ α) (k : κ) (e : κ × α) : e ∈ m.upTo k ↔ e ∈ m.entries ∧ e.1 ≤ k := by
  rw [upTo_eq_filter, List.mem_filter]; simp

theorem mem_above (m : Multimap κ α) (k : κ) (e : κ × α) : e ∈ m.above k ↔ e ∈ m.entries ∧ k < e.1 := by
  rw [above_eq_filter, List.mem_filter]; simp

/-! ## Insertion -/

/-- Insert a pair after the pairs of an equal key. -/
def insert (m : Multimap κ α) (k : κ) (a : α) : Multimap κ α :=
  { entries := m.upTo k ++ (k, a) :: m.above k
    sorted := by
      rw [List.pairwise_append, List.pairwise_cons]
      refine ⟨m.sorted.sublist (List.takeWhile_sublist _), ⟨fun b hb => ?_, m.sorted.sublist (List.dropWhile_sublist _)⟩,
        fun x hx y hy => ?_⟩
      · exact le_of_lt ((mem_above m k b).1 hb).2
      · have hxk := ((mem_upTo m k x).1 hx).2
        rcases List.mem_cons.1 hy with rfl | hy
        · exact hxk
        · exact le_trans hxk (le_of_lt ((mem_above m k y).1 hy).2) }

theorem entries_insert (m : Multimap κ α) (k : κ) (a : α) :
    (m.insert k a).entries = m.upTo k ++ (k, a) :: m.above k := rfl

theorem mem_insert (m : Multimap κ α) (k : κ) (a : α) (e : κ × α) :
    e ∈ (m.insert k a).entries ↔ e = (k, a) ∨ e ∈ m.entries := by
  rw [entries_insert, ← upTo_append_above m k]
  simp only [List.mem_append, List.mem_cons]
  tauto

theorem insert_perm (m : Multimap κ α) (k : κ) (a : α) : (m.insert k a).entries.Perm ((k, a) :: m.entries) := by
  rw [entries_insert]
  conv => rhs; rw [← upTo_append_above m k]
  exact List.perm_middle

/-! ## Erasure -/

def eraseUpTo (m : Multimap κ α) (k : κ) : Multimap κ α :=
  ⟨m.above k, m.sorted.sublist (List.dropWhile_sublist _)⟩

def keyed (k : κ) (p : α → Bool) (e : κ × α) : Bool := decide (e.1 = k) && p e.2

theorem eraseIn_entries_eq (k : κ) (p : α → Bool) : ∀ (l : List (κ × α)), l.Pairwise (fun a b => a.1 ≤ b.1) →
    l.takeWhile (fun e => decide (e.1 < k)) ++
        (((l.dropWhile (fun e => decide (e.1 < k))).takeWhile (fun e => decide (e.1 ≤ k))).eraseP (fun e => p e.2) ++
          l.dropWhile (fun e => decide (e.1 ≤ k)))
      = l.eraseP (keyed k p)
  | [], _ => rfl
  | a :: l, h => by
    rcases lt_trichotomy a.1 k with ha | ha | ha
    · have hne : ¬ keyed k p a = true := by simp [keyed, ne_of_lt ha]
      rw [List.takeWhile_cons_of_pos (by simpa using ha), List.dropWhile_cons_of_pos (by simpa using ha),
        List.dropWhile_cons_of_pos (by simpa using le_of_lt ha), List.eraseP_cons_of_neg hne, List.cons_append,
        eraseIn_entries_eq k p l h.of_cons]
    · -- from `a` on, every key is at or above `k`, so nothing is before the lower bound
      have hge : ∀ b ∈ l, ¬ (decide (b.1 < k)) = true := fun b hb => by
        have := List.rel_of_pairwise_cons h hb
        rw [ha] at this; simpa using this
      have ih := eraseIn_entries_eq k p l h.of_cons
      have e1 : l.takeWhile (fun e => decide (e.1 < k)) = [] := by
        cases l with
        | nil => rfl
        | cons b l => exact List.takeWhile_cons_of_neg (hge b List.mem_cons_self)
      have e2 : l.dropWhile (fun e => decide (e.1 < k)) = l := by
        cases l with
        | nil => rfl
        | cons b l => exact List.dropWhile_cons_of_neg (hge b List.mem_cons_self)
      rw [e1, e2, List.nil_append] at ih
      rw [List.takeWhile_cons_of_neg (by simp [ha]), List.dropWhile_cons_of_neg (by simp [ha]),
        List.takeWhile_cons_of_pos (by simp [ha]), List.dropWhile_cons_of_pos (by simp [ha]), List.nil_append]
      by_cases hp : (fun e : κ × α => p e.2) a = true
      · have hkp : keyed k p a = true := by simp [keyed, ha, show p a.2 = true from hp]
        rw [List.eraseP_cons_of_pos (p := fun e : κ × α => p e.2) hp, List.eraseP_cons_of_pos hkp, List.takeWhile_append_dropWhile]
      · have hkp : ¬ keyed k p a = true := by simp [keyed, show ¬ p a.2 = true from hp]
        rw [List.eraseP_cons_of_neg (p := fun e : κ × α => p e.2) hp, List.eraseP_cons_of_neg hkp, List.cons_append, ih]
    · have hne : ∀ b ∈ a :: l, ¬ keyed k p b = true := fun b hb => by
        have : k < b.1 := by
          rcases List.mem_cons.1 hb with rfl | hb
          · exact ha
          · exact lt_of_lt_of_le ha (List.rel_of_pairwise_cons h hb)
        simp [keyed, ne_of_gt this]
      rw [List.takeWhile_cons_of_neg (by simpa using le_of_lt ha), List.dropWhile_cons_of_neg (by simpa using le_of_lt ha),
        List.takeWhile_cons_of_neg (by simpa using ha), List.dropWhile_cons_of_neg (by simpa using ha),
        List.eraseP_of_forall_not hne]
      rfl

theorem eraseIn_eq (m : Multimap κ α) (k : κ) (p : α → Bool) :
    m.below k ++ ((m.equalRange k).eraseP (fun e => p e.2) ++ m.above k) = m.entries.eraseP (keyed k p) :=
  eraseIn_entries_eq k p m.entries m.sorted

/-- Erase the first pair of key `k`'s range whose value satisfies `p`, and nothing when there is none. -/
def eraseIn (m : Multimap κ α) (k : κ) (p : α → Bool) : Multimap κ α :=
  { entries := m.below k ++ ((m.equalRange k).eraseP (fun e => p e.2) ++ m.above k)
    sorted := by rw [eraseIn_eq]; exact m.sorted.sublist List.eraseP_sublist }

/-- **A search of a key's range is a search of the whole map for a pair of that key.** -/
theorem entries_eraseIn (m : Multimap κ α) (k : κ) (p : α → Bool) :
    (m.eraseIn k p).entries = m.entries.eraseP (keyed k p) :=
  eraseIn_eq m k p

end Multimap
