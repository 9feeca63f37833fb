import Mathlib.Data.List.Basic
/-!
# Dialogue — a client that speaks its part and waits for a reply

A script is a list of turns: what the client utters, and what it expects of the reply.  A run of a script goes on while the
replies fit.  `run_eq_iff`: what was said tells how many of them did; `prefix_words_iff`: and which turns the run came to.
-/
namespace Dialogue

structure Turn (α κ : Type) where
  words   : List α
  expects : κ

variable {α κ ρ : Type} (fits : κ → ρ → Bool)

/-- What the client utters, and whether it gets to the end. -/
def run : List (Turn α κ) → List ρ → List α × Bool
  | [], _             => ([], true)
  | t :: _, []        => (t.words, false)
  | t :: ts, r :: rs  =>
    if fits t.expects r then (t.words ++ (run ts rs).1, (run ts rs).2) else (t.words, false)

/-- How many of the first replies fit what is expected in their place. -/
def passed : List κ → List ρ → Nat
  | k :: ks, r :: rs => if fits k r then passed ks rs + 1 else 0
  | _, _             => 0

theorem run_of_not_fits {t : Turn α κ} {r : ρ} (h : fits t.expects r = false) (ts : List (Turn α κ)) (rs : List ρ) :
    run fits (t :: ts) (r :: rs) = (t.words, false) := by
  rw [run, if_neg (by rw [h]; exact Bool.false_ne_true)]

theorem run_of_fits {t : Turn α κ} {r : ρ} (h : fits t.expects r = true) (ts : List (Turn α κ)) (rs : List ρ) :
    run fits (t :: ts) (r :: rs) = (t.words ++ (run fits ts rs).1, (run fits ts rs).2) := by
  rw [run, if_pos h]

/-- **A run that ends well has said everything.** -/
theorem run_of_passed : ∀ (script : List (Turn α κ)) (rs : List ρ), (run fits script rs).2 = true →
    (run fits script rs).1 = script.flatMap Turn.words
  | [], _, _ => rfl
  | t :: ts, [], h => by cases h
  | t :: ts, r :: rs, h => by
    cases hr : fits t.expects r with
    | false => rw [run_of_not_fits fits hr] at h; cases h
    | true =>
      rw [run_of_fits fits hr] at h ⊢
      show t.words ++ (run fits ts rs).1 = _
      rw [run_of_passed ts rs h, List.flatMap_cons]

theorem passed_eq_length_iff : ∀ (script : List (Turn α κ)) (rs : List ρ),
    passed fits (script.map Turn.expects) rs = script.length ↔ (run fits script rs).2 = true
  | [], _ => by simp [passed, run]
  | t :: ts, [] => by simp [passed, run]
  | t :: ts, r :: rs => by
    have ih := passed_eq_length_iff ts rs
    cases hr : fits t.expects r with
    | false => simp [passed, run_of_not_fits fits hr, hr]
    | true => simpa [passed, run_of_fits fits hr, hr] using ih

/-- Where every turn has something to say, a run that breaks off has said something. -/
theorem run_ne : ∀ (script : List (Turn α κ)) (rs : List ρ), (∀ t ∈ script, t.words ≠ []) →
    run fits script rs ≠ ([], false)
  | [], _, _ => fun h => by cases h
  | t :: ts, [], hwords => fun h => hwords t List.mem_cons_self (congrArg Prod.fst h)
  | t :: ts, r :: rs, hwords => fun h => by
    have hne := hwords t List.mem_cons_self
    cases hr : fits t.expects r with
    | false => rw [run_of_not_fits fits hr] at h; exact hne (congrArg Prod.fst h)
    | true => rw [run_of_fits fits hr] at h; exact hne (List.append_eq_nil_iff.1 (congrArg Prod.fst h)).1

/-- What a run looks like from its first turn: broken off there, or gone on with the rest. -/
theorem run_cons_cases (t : Turn α κ) (ts : List (Turn α κ)) (rs : List ρ) :
    (run fits (t :: ts) rs = (t.words, false) ∧ passed fits ((t :: ts).map Turn.expects) rs = 0) ∨
    ∃ rest, run fits (t :: ts) rs = (t.words ++ (run fits ts rest).1, (run fits ts rest).2) ∧
      passed fits ((t :: ts).map Turn.expects) rs = passed fits (ts.map Turn.expects) rest + 1 := by
  cases rs with
  | nil => exact Or.inl ⟨rfl, rfl⟩
  | cons r rs =>
    cases hr : fits t.expects r with
    | false => exact Or.inl ⟨run_of_not_fits fits hr ts rs, by simp [passed, hr]⟩
    | true => exact Or.inr ⟨rs, run_of_fits fits hr ts rs, by simp [passed, hr]⟩

/-- **Two runs are the same exactly when as many replies fit in one as in the other.** -/
theorem run_eq_iff : ∀ (script : List (Turn α κ)) (rs rs' : List ρ), (∀ t ∈ script.tail, t.words ≠ []) →
    (run fits script rs = run fits script rs' ↔
      passed fits (script.map Turn.expects) rs = passed fits (script.map Turn.expects) rs')
  | [], rs, rs', _ => by simp [run, passed]
  | t :: ts, rs, rs', hwords => by
    have hwords : ∀ u ∈ ts, u.words ≠ [] := hwords
    -- a run that breaks off at the first turn is not one that goes on
    have hdiff : ∀ rest, (t.words, false) ≠ (t.words ++ (run fits ts rest).1, (run fits ts rest).2) := fun rest h => by
      injection h with h1 h2
      have h1 : (run fits ts rest).1 = [] := by simpa using h1
      exact run_ne fits ts rest hwords (Prod.ext h1 h2.symm)
    obtain ⟨h, hp⟩ | ⟨rest, h, hp⟩ := run_cons_cases fits t ts rs <;>
      obtain ⟨h', hp'⟩ | ⟨rest', h', hp'⟩ := run_cons_cases fits t ts rs'
    · simp only [h, h', hp, hp']
    · rw [h, h', hp, hp']
      exact ⟨fun he => absurd he (hdiff rest'), fun he => by cases he⟩
    · rw [h, h', hp, hp']
      exact ⟨fun he => absurd he.symm (hdiff rest), fun he => by cases he⟩
    · have ih := run_eq_iff ts rest rest' (fun u hu => hwords u (List.mem_of_mem_tail hu))
      rw [h, h', hp, hp', Nat.add_right_cancel_iff, ← ih, Prod.mk.injEq, List.append_cancel_left_eq, Prod.ext_iff]

/-! ## The turns a run comes to -/

/-- **A run utters its turns up to the first whose reply does not fit.** -/
theorem run_words : ∀ (script : List (Turn α κ)) (rs : List ρ), (run fits script rs).1 =
    (script.take (passed fits (script.map Turn.expects) rs + 1)).flatMap Turn.words
  | [], _ => rfl
  | t :: ts, [] => by simp [run, passed]
  | t :: ts, r :: rs => by
    cases hr : fits t.expects r with
    | false => simp [run_of_not_fits fits hr, passed, hr]
    | true =>
      have ih := run_words ts rs
      simp [run_of_fits fits hr, passed, hr, ih]

/-- **The turns up to one have been uttered exactly when the run has come that far.** -/
theorem prefix_words_iff : ∀ (script : List (Turn α κ)) (i p : Nat), (∀ t ∈ script.tail, t.words ≠ []) → i < script.length →
    ((script.take (i + 1)).flatMap Turn.words <+: (script.take (p + 1)).flatMap Turn.words ↔ i ≤ p)
  | [], _, _, _, hi => absurd hi (Nat.not_lt_zero _)
  | t :: ts, 0, p, _, _ => by
    refine iff_of_true ?_ (Nat.zero_le p)
    simp only [List.take_succ_cons, List.take_zero, List.flatMap_cons, List.flatMap_nil, List.append_nil]
    exact List.prefix_append _ _
  | t :: ts, i + 1, 0, hwords, hi => by
    refine iff_of_false (fun h => ?_) (Nat.not_succ_le_zero i)
    simp only [List.take_succ_cons, List.take_zero, List.flatMap_cons, List.flatMap_nil] at h
    rw [List.prefix_append_right_inj, List.prefix_nil] at h
    cases ts with
    | nil => simp at hi
    | cons u us =>
      rw [List.take_succ_cons, List.flatMap_cons] at h
      exact hwords u List.mem_cons_self (List.append_eq_nil_iff.1 h).1
  | t :: ts, i + 1, p + 1, hwords, hi => by
    have ih := prefix_words_iff ts i p (fun u hu => hwords u (List.mem_of_mem_tail hu)) (Nat.lt_of_succ_lt_succ hi)
    rw [List.take_succ_cons, List.take_succ_cons, List.flatMap_cons, List.flatMap_cons, List.prefix_append_right_inj, ih,
      Nat.add_le_add_iff_right]

/-- **Replies that look the same as far as one run of them gets are got through alike.** -/
theorem passed_congr {γ : Type} (view : ρ → γ) : ∀ (ks : List κ) (rs rs' : List ρ),
    (∀ k ∈ ks, ∀ r r', view r = view r' → fits k r = fits k r') →
    (∀ i, i < ks.length → i ≤ passed fits ks rs → (rs[i]?).map view = (rs'[i]?).map view) →
      passed fits ks rs' = passed fits ks rs
  | [], _, _, _, _ => by simp [passed]
  | _ :: _, [], [], _, _ => rfl
  | k :: ks, [], r' :: rs', _, hsame => by
    have hnone := hsame 0 (Nat.zero_lt_succ _) (Nat.zero_le _)
    simp at hnone
  | k :: ks, r :: rs, [], _, hsame => by
    have hsome := hsame 0 (Nat.zero_lt_succ _) (Nat.zero_le _)
    simp at hsome
  | k :: ks, r :: rs, r' :: rs', hview, hsame => by
    have hr : view r = view r' := by simpa using hsame 0 (Nat.zero_lt_succ _) (Nat.zero_le _)
    have hfits : fits k r = fits k r' := hview k List.mem_cons_self r r' hr
    cases hk : fits k r with
    | false => rw [passed, passed, ← hfits, hk]; rfl
    | true =>
      have ih := passed_congr view ks rs rs' (fun k hk => hview k (List.mem_cons_of_mem _ hk)) (fun i hi hle => by
        have h := hsame (i + 1) (Nat.succ_lt_succ hi) (by rw [passed, if_pos hk]; exact Nat.succ_le_succ hle)
        simpa using h)
      rw [passed, passed, ← hfits, hk, if_pos rfl, if_pos rfl, ih]

end Dialogue
