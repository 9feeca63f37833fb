import Mathlib.Data.List.Basic
/-!
# Blocks — a fold over the blocks of a stream

A stream of items is taken up `n` at a time: `absorb n f` folds `f` over the whole blocks and hands back what is left.  Where
the stream was cut on its way makes no difference (`absorb_append`), which is what a hash or a checksum that is fed piece by
piece rests on.
-/
namespace Blocks

variable {α σ : Type} (n : Nat) (f : σ → List α → σ)

/-- The loop over whole blocks; the first argument bounds the number of rounds. -/
def loop : Nat → σ → List α → σ × List α
  | 0, s, xs     => (s, xs)
  | k + 1, s, xs => if n ≤ xs.length then loop k (f s (xs.take n)) (xs.drop n) else (s, xs)

def absorb (s : σ) (xs : List α) : σ × List α := loop n f xs.length s xs

theorem loop_of_lt (k : Nat) (s : σ) (xs : List α) (h : xs.length < n) : loop n f k s xs = (s, xs) := by
  cases k with
  | zero => rfl
  | succ k => rw [loop, if_neg (Nat.not_le.2 h)]

variable {n}

/-- More rounds than items change nothing. -/
theorem loop_of_le (hn : 0 < n) : ∀ (k : Nat) (s : σ) (xs : List α), xs.length ≤ k → loop n f k s xs = absorb n f s xs
  | 0, s, xs, h => by
    cases xs with
    | nil => rfl
    | cons x xs => cases h
  | k + 1, s, xs, h => by
    by_cases hle : n ≤ xs.length
    · obtain ⟨m, hm⟩ : ∃ m, xs.length = m + 1 := ⟨xs.length - 1, by omega⟩
      have hdrop : (xs.drop n).length ≤ m := by rw [List.length_drop]; omega
      have hk : loop n f (k + 1) s xs = loop n f k (f s (xs.take n)) (xs.drop n) := if_pos hle
      have hm : absorb n f s xs = loop n f m (f s (xs.take n)) (xs.drop n) := by rw [absorb, hm]; exact if_pos hle
      rw [hk, hm, loop_of_le hn k _ _ (by rw [List.length_drop]; omega), loop_of_le hn m _ _ hdrop]
    · rw [loop_of_lt n f _ s xs (by omega), absorb, loop_of_lt n f _ s xs (by omega)]

theorem absorb_of_lt (s : σ) (xs : List α) (h : xs.length < n) : absorb n f s xs = (s, xs) := loop_of_lt n f _ s xs h

theorem absorb_block (hn : 0 < n) (s : σ) (b xs : List α) (hb : b.length = n) :
    absorb n f s (b ++ xs) = absorb n f (f s b) xs := by
  obtain ⟨m, hm⟩ : ∃ m, (b ++ xs).length = m + 1 := ⟨b.length + xs.length - 1, by rw [List.length_append]; omega⟩
  have hxs : xs.length ≤ m := by rw [List.length_append] at hm; omega
  rw [absorb, hm, loop, if_pos (by rw [List.length_append]; omega), List.take_append_of_le_length (by omega),
    List.take_of_length_le (by omega), List.drop_append_of_le_length (by omega), List.drop_of_length_le (by omega),
    List.nil_append, loop_of_le f hn m _ _ hxs]

/-- A stream is a block and the rest of it, or shorter than a block. -/
theorem block_cases {P : List α → Prop} (n : Nat) (hn : 0 < n) (hlt : ∀ xs, xs.length < n → P xs)
    (hblock : ∀ b xs, b.length = n → P xs → P (b ++ xs)) : ∀ xs, P xs := by
  have hall : ∀ (k : Nat) (xs : List α), xs.length ≤ k → P xs := fun k => by
    induction k with
    | zero => exact fun xs h => hlt xs (by omega)
    | succ k ih =>
      intro xs h
      by_cases hle : n ≤ xs.length
      · have hrest := ih (xs.drop n) (by rw [List.length_drop]; omega)
        have := hblock (xs.take n) (xs.drop n) (by rw [List.length_take]; omega) hrest
        rwa [List.take_append_drop] at this
      · exact hlt xs (by omega)
  exact fun xs => hall xs.length xs (Nat.le_refl _)

/-- **The cut between two pieces makes no difference.** -/
theorem absorb_append (hn : 0 < n) (s : σ) (xs ys : List α) :
    absorb n f s (xs ++ ys) = absorb n f (absorb n f s xs).1 ((absorb n f s xs).2 ++ ys) := by
  revert s
  refine block_cases (P := fun xs => ∀ s, absorb n f s (xs ++ ys) =
    absorb n f (absorb n f s xs).1 ((absorb n f s xs).2 ++ ys)) n hn (fun xs h s => ?_) (fun b xs hb ih s => ?_) xs
  · rw [absorb_of_lt f s xs h]
  · rw [List.append_assoc, absorb_block f hn s b _ hb, absorb_block f hn s b _ hb, ih]

theorem absorb_length (hn : 0 < n) (s : σ) (xs : List α) : (absorb n f s xs).2.length = xs.length % n := by
  revert s
  refine block_cases (P := fun xs => ∀ s, (absorb n f s xs).2.length = xs.length % n) n hn (fun xs h s => ?_)
    (fun b xs hb ih s => ?_) xs
  · rw [absorb_of_lt f s xs h, Nat.mod_eq_of_lt h]
  · rw [absorb_block f hn s b xs hb, ih, List.length_append, hb, Nat.add_mod_left]

end Blocks
