import Mathlib.Data.List.Infix
/-!
# Machine — labelled machines and their runs

A machine is a partial step function: a label says what happens next and carries every choice the step leaves open, and
`none` is a label the state does not allow.  `run` takes a list of labels, oldest first.  The rules of this module are the
only inductions over runs the rest of the development makes: `run_inv` for what the state satisfies, `run_inv_hist` for
what relates the state to the labels that led to it, and `run_inv_history` for what relates it to a record kept of the run
(`history`), which no step reads; `busySteps_le` counts steps against a measure.
-/
namespace Machine

variable {σ ℓ : Type}

/-- The state a run reaches, when every label of it is allowed. -/
def run (step : σ → ℓ → Option σ) : σ → List ℓ → Option σ
  | s, []      => some s
  | s, l :: ls => (step s l).bind (fun s' => run step s' ls)

@[simp] theorem run_nil (step : σ → ℓ → Option σ) (s : σ) : run step s [] = some s := rfl

theorem run_cons (step : σ → ℓ → Option σ) (s : σ) (l : ℓ) (ls : List ℓ) :
    run step s (l :: ls) = (step s l).bind (fun s' => run step s' ls) := rfl

theorem run_append (step : σ → ℓ → Option σ) : ∀ (l₁ l₂ : List ℓ) (s : σ),
    run step s (l₁ ++ l₂) = (run step s l₁).bind (fun s' => run step s' l₂)
  | [], _, _ => rfl
  | l :: l₁, l₂, s => by
    rw [List.cons_append, run_cons, run_cons]
    cases step s l with
    | none => rfl
    | some s' => exact run_append step l₁ l₂ s'

theorem run_snoc (step : σ → ℓ → Option σ) (s : σ) (ls : List ℓ) (l : ℓ) :
    run step s (ls ++ [l]) = (run step s ls).bind (fun s' => step s' l) := by
  rw [run_append]
  congr 1; funext s'
  rw [run_cons]
  cases step s' l <;> rfl

theorem run_snoc_some (step : σ → ℓ → Option σ) (s s'' : σ) (ls : List ℓ) (l : ℓ) :
    run step s (ls ++ [l]) = some s'' ↔ ∃ s', run step s ls = some s' ∧ step s' l = some s'' := by
  rw [run_snoc, Option.bind_eq_some_iff]

/-- **The invariant rule, with the history**: what relates a state to the labels that led to it holds of every run, once
it holds at the start and every step keeps it. -/
theorem run_inv_hist (step : σ → ℓ → Option σ) (I : List ℓ → σ → Prop) (s₀ : σ) (h0 : I [] s₀)
    (hstep : ∀ ls s l s', run step s₀ ls = some s → I ls s → step s l = some s' → I (ls ++ [l]) s') :
    ∀ (ls : List ℓ) (s : σ), run step s₀ ls = some s → I ls s := by
  intro ls
  induction ls using List.reverseRecOn with
  | nil =>
    intro s hs
    cases hs; exact h0
  | append_singleton ls l ih =>
    intro s hs
    obtain ⟨s', hs', hl⟩ := (run_snoc_some step s₀ s ls l).1 hs
    exact hstep ls s' l s hs' (ih s' hs') hl

/-- **The invariant rule**: what every step keeps holds of every state a run reaches. -/
theorem run_inv (step : σ → ℓ → Option σ) (I : σ → Prop) (hstep : ∀ s l s', I s → step s l = some s' → I s')
    {s₀ s : σ} {ls : List ℓ} (h0 : I s₀) (h : run step s₀ ls = some s) : I s :=
  run_inv_hist step (fun _ s => I s) s₀ h0 (fun _ s l s' _ hi hs => hstep s l s' hi hs) ls s h

/-- Every step a run takes meets `C`: a condition on the label and the state before it. -/
def Meets (step : σ → ℓ → Option σ) (C : σ → ℓ → Prop) (s₀ : σ) (ls : List ℓ) : Prop :=
  ∀ l₁ l s, l₁ ++ [l] <+: ls → run step s₀ l₁ = some s → C s l

theorem Meets.of_snoc {step : σ → ℓ → Option σ} {C : σ → ℓ → Prop} {s₀ s : σ} {ls : List ℓ} {l : ℓ}
    (h : Meets step C s₀ (ls ++ [l])) (hs : run step s₀ ls = some s) : Meets step C s₀ ls ∧ C s l :=
  ⟨fun l₁ l' t hp ht => h l₁ l' t (hp.trans (List.prefix_append ls [l])) ht, h ls l s (List.prefix_refl _) hs⟩

theorem Meets.imp {step : σ → ℓ → Option σ} {C C' : σ → ℓ → Prop} {s₀ : σ} {ls : List ℓ} (h : Meets step C s₀ ls)
    (hC : ∀ s l, C s l → C' s l) : Meets step C' s₀ ls :=
  fun l₁ l s hp hs => hC s l (h l₁ l s hp hs)

theorem Meets.nil (step : σ → ℓ → Option σ) (C : σ → ℓ → Prop) (s₀ : σ) : Meets step C s₀ [] := by
  intro l₁ l _ hp
  have := hp.length_le
  simp at this

theorem Meets.cons {step : σ → ℓ → Option σ} {C : σ → ℓ → Prop} {s₀ : σ} {l : ℓ} {ls : List ℓ} (hC : C s₀ l)
    (h : ∀ s, step s₀ l = some s → Meets step C s ls) : Meets step C s₀ (l :: ls) := by
  intro l₁ l' t hp ht
  cases l₁ with
  | nil =>
    cases ht
    rw [List.nil_append, List.cons_prefix_cons] at hp
    exact hp.1 ▸ hC
  | cons a l₁ =>
    rw [List.cons_append, List.cons_prefix_cons] at hp
    obtain ⟨rfl, hp⟩ := hp
    obtain ⟨s, hs, hrun⟩ := Option.bind_eq_some_iff.1 ht
    exact h s hs l₁ l' t hp hrun

theorem Meets.of_prefix {step : σ → ℓ → Option σ} {C : σ → ℓ → Prop} {s₀ : σ} {l₁ ls : List ℓ} (h : Meets step C s₀ ls)
    (hp : l₁ <+: ls) : Meets step C s₀ l₁ :=
  fun l₂ l s hp' hs => h l₂ l s (hp'.trans hp) hs

/-- What follows a part of a run is a run that meets the condition. -/
theorem Meets.of_append {step : σ → ℓ → Option σ} {C : σ → ℓ → Prop} {s₀ s : σ} {l₁ l₂ : List ℓ}
    (h : Meets step C s₀ (l₁ ++ l₂)) (hs : run step s₀ l₁ = some s) : Meets step C s l₂ := by
  intro l₃ l t hp ht
  refine h (l₁ ++ l₃) l t ?_ ?_
  · rw [List.append_assoc]
    exact (List.prefix_append_right_inj l₁).2 hp
  · rw [run_append, hs]
    exact ht

/-- `Meets`, computed along the run. -/
def meets (step : σ → ℓ → Option σ) (c : σ → ℓ → Bool) : σ → List ℓ → Bool
  | _, []      => true
  | s, l :: ls => c s l && (step s l).all (fun s' => meets step c s' ls)

theorem Meets.of_meets (step : σ → ℓ → Option σ) (c : σ → ℓ → Bool) : ∀ (ls : List ℓ) (s₀ : σ),
    meets step c s₀ ls = true → Meets step (fun s l => c s l = true) s₀ ls
  | [], s₀, _ => .nil step _ s₀
  | l :: ls, s₀, h => by
    simp only [meets, Bool.and_eq_true] at h
    refine .cons h.1 (fun s hs => ?_)
    rw [hs] at h
    exact Meets.of_meets step c ls s h.2

/-- **The invariant rule for runs whose steps all meet a condition.** -/
theorem run_inv_meets (step : σ → ℓ → Option σ) (C : σ → ℓ → Prop) (I : σ → Prop)
    (hstep : ∀ s l s', C s l → I s → step s l = some s' → I s') (s₀ : σ) (h0 : I s₀) :
    ∀ (ls : List ℓ) (s : σ), Meets step C s₀ ls → run step s₀ ls = some s → I s := by
  intro ls
  induction ls using List.reverseRecOn with
  | nil =>
    intro s _ hs
    cases hs; exact h0
  | append_singleton ls l ih =>
    intro s hm hs
    obtain ⟨s', hs', hl⟩ := (run_snoc_some step s₀ s ls l).1 hs
    obtain ⟨hpre, hC⟩ := hm.of_snoc hs'
    exact hstep s' l s hC (ih s' hpre hs') hl

/-! ## A record of a run -/

variable {γ : Type}

/-- What `note` makes of a run, step by step, from the state before the step, the label and the state after. -/
def history (step : σ → ℓ → Option σ) (note : σ → ℓ → σ → γ → γ) : σ → γ → List ℓ → γ
  | _, g, []      => g
  | s, g, l :: ls => match step s l with
    | none    => g
    | some s' => history step note s' (note s l s' g) ls

theorem history_snoc (step : σ → ℓ → Option σ) (note : σ → ℓ → σ → γ → γ) (l : ℓ) (s' s'' : σ) (hl : step s' l = some s'') :
    ∀ (ls : List ℓ) (s : σ) (g : γ), run step s ls = some s' →
      history step note s g (ls ++ [l]) = note s' l s'' (history step note s g ls)
  | [], s, g, h => by
    cases h
    simp only [List.nil_append, history, hl]
  | a :: ls, s, g, h => by
    obtain ⟨t, ht, hrun⟩ := Option.bind_eq_some_iff.1 h
    simp only [List.cons_append, history, ht]
    exact history_snoc step note l s' s'' hl ls t _ hrun

/-- **The invariant rule, with a record**: what relates a state to the record of the run that led to it holds of every run,
once it holds at the start and every step keeps it. -/
theorem run_inv_history (step : σ → ℓ → Option σ) (note : σ → ℓ → σ → γ → γ) (I : σ → γ → Prop) (s₀ : σ) (g₀ : γ)
    (h0 : I s₀ g₀) (hstep : ∀ s l s' g, I s g → step s l = some s' → I s' (note s l s' g)) (ls : List ℓ) (s : σ)
    (h : run step s₀ ls = some s) : I s (history step note s₀ g₀ ls) := by
  refine run_inv_hist step (fun ls s => I s (history step note s₀ g₀ ls)) s₀ h0 (fun ls s l s' hrun hi hs => ?_) ls s h
  rw [history_snoc step note l s s' hs ls s₀ g₀ hrun]
  exact hstep s l s' _ hi hs

/-- **The invariant rule, with a record, for runs whose steps all meet a condition.** -/
theorem run_inv_meets_history (step : σ → ℓ → Option σ) (note : σ → ℓ → σ → γ → γ) (C : σ → ℓ → Prop) (I : σ → γ → Prop)
    (s₀ : σ) (g₀ : γ) (h0 : I s₀ g₀) (hstep : ∀ s l s' g, C s l → I s g → step s l = some s' → I s' (note s l s' g))
    (ls : List ℓ) (s : σ) (hm : Meets step C s₀ ls) (h : run step s₀ ls = some s) : I s (history step note s₀ g₀ ls) := by
  refine run_inv_hist step (fun ls s => Meets step C s₀ ls → I s (history step note s₀ g₀ ls)) s₀ (fun _ => h0)
    (fun ls s l s' hrun hi hs hm => ?_) ls s h hm
  obtain ⟨hpre, hC⟩ := hm.of_snoc hrun
  rw [history_snoc step note l s s' hs ls s₀ g₀ hrun]
  exact hstep s l s' _ hC (hi hpre) hs

/-! ## Counting steps -/

/-- How many of the steps of a run are `busy`. -/
def busySteps (step : σ → ℓ → Option σ) (busy : σ → ℓ → Bool) (s : σ) (ls : List ℓ) : Nat :=
  history step (fun s l _ n => if busy s l then n + 1 else n) s 0 ls

/-- **The ranking rule**: where every busy step lowers a measure and no other step raises it, the measure bounds the busy
steps of every run. -/
theorem busySteps_le (step : σ → ℓ → Option σ) (busy : σ → ℓ → Bool) (C : σ → ℓ → Prop) (I : σ → Prop) (measure : σ → Nat)
    (hstep : ∀ s l s', C s l → I s → step s l = some s' →
      I s' ∧ measure s' + (if busy s l then 1 else 0) ≤ measure s)
    (s₀ : σ) (h0 : I s₀) (ls : List ℓ) (s : σ) (hm : Meets step C s₀ ls) (h : run step s₀ ls = some s) :
    I s ∧ busySteps step busy s₀ ls + measure s ≤ measure s₀ := by
  refine run_inv_meets_history step (fun s l _ n => if busy s l then n + 1 else n) C
    (fun s n => I s ∧ n + measure s ≤ measure s₀) s₀ 0 ⟨h0, by omega⟩ (fun s l s' n hC hi hs => ?_) ls s hm h
  obtain ⟨hi', hle⟩ := hstep s l s' hC hi.1 hs
  refine ⟨hi', ?_⟩
  have hn := hi.2
  cases hb : busy s l with
  | true =>
    rw [hb, if_pos rfl] at hle
    rw [if_pos rfl]
    omega
  | false =>
    rw [hb, if_neg Bool.false_ne_true] at hle
    rw [if_neg Bool.false_ne_true]
    omega

end Machine
