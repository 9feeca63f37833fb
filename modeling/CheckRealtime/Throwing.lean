import Mathlib.Data.List.Basic
/-!
# Throwing — code that may throw, over a state

A loader reads values out of something it was given and sets fields of a state as it goes; a value that is not there or is
of the wrong kind ends it with an exception.  `Reads x c a` and `Does p c f` say exactly when that does not happen, and
what comes of it; `Keeps` is about what was set before an exception as well, and `Raises` about the exception itself.
-/
namespace Throwing

variable {ε σ α β : Type}

abbrev Prog (ε σ α : Type) := ExceptT ε (StateM σ) α

def exec (p : Prog ε σ α) (s : σ) : Except ε α × σ := StateT.run (ExceptT.run p) s

/-- Reading a value, which leaves the state alone. -/
def lift (x : Except ε α) : Prog ε σ α := ExceptT.mk (pure x)

def set (f : σ → σ) : Prog ε σ Unit := modify f

theorem exec_bind (p : Prog ε σ α) (k : α → Prog ε σ β) (s : σ) : exec (p >>= k) s =
    match exec p s with
    | (.ok a, s')    => exec (k a) s'
    | (.error e, s') => (.error e, s') := by
  unfold exec
  simp only [ExceptT.run_bind, StateT.run_bind]
  rcases hp : StateT.run (ExceptT.run p) s with ⟨_ | _, _⟩ <;> rfl

theorem exec_lift_bind (x : Except ε α) (k : α → Prog ε σ β) (s : σ) : exec (lift x >>= k) s =
    match x with
    | .ok a    => exec (k a) s
    | .error e => (.error e, s) := by
  rw [exec_bind]
  cases x <;> rfl

/-! ## Loops over indices -/

theorem mapM_range {m : Type → Type} [Monad m] [LawfulMonad m] (f : α → m β) : ∀ (l : List α) (g : Nat → m β),
    (∀ i a, l[i]? = some a → g i = f a) → (List.range l.length).mapM g = l.mapM f
  | [], _, _     => rfl
  | a :: l, g, h => by
    have hl : (List.range l.length).mapM (g ∘ Nat.succ) = l.mapM f := mapM_range f l _ (fun i b hb => h (i + 1) b hb)
    rw [List.length_cons, List.range_succ_eq_map, List.mapM_cons, List.mapM_cons, h 0 a rfl, List.mapM_map, ← hl]

theorem forM_range {m : Type → Type} [Monad m] [LawfulMonad m] (f : α → m PUnit) : ∀ (l : List α) (g : Nat → m PUnit),
    (∀ i a, l[i]? = some a → g i = f a) → (List.range l.length).forM g = l.forM f
  | [], _, _     => rfl
  | a :: l, g, h => by
    have hl : (List.range l.length).forM (g ∘ Nat.succ) = l.forM f := forM_range f l _ (fun i b hb => h (i + 1) b hb)
    simp only [List.forM_eq_forM] at hl ⊢
    rw [List.length_cons, List.range_succ_eq_map, List.forM_cons, List.forM_cons, h 0 a rfl, List.forM_map, ← hl]
    rfl

/-! ## When a value is read -/

/-- The value is `a` when `c` holds, and otherwise there is none. -/
structure Reads (x : Except ε α) (c : Prop) (a : α) : Prop where
  ok    : c → x = .ok a
  fails : ¬ c → ∃ e, x = .error e

theorem Reads.pure (a : α) : Reads (Pure.pure a : Except ε α) True a := ⟨fun _ => rfl, fun h => absurd trivial h⟩

theorem Reads.congr {x : Except ε α} {c d : Prop} {a : α} (h : Reads x c a) (hcd : c ↔ d) : Reads x d a :=
  ⟨fun hd => h.ok (hcd.2 hd), fun hd => h.fails (fun hc => hd (hcd.1 hc))⟩

theorem Reads.bind {x : Except ε α} {k : α → Except ε β} {c d : Prop} {a : α} {b : β} (hx : Reads x c a)
    (hk : c → Reads (k a) d b) : Reads (x >>= k) (c ∧ d) b := by
  constructor
  · rintro ⟨hc, hd⟩
    rw [hx.ok hc]
    exact (hk hc).ok hd
  · intro hn
    by_cases hc : c
    · rw [hx.ok hc]
      exact (hk hc).fails (fun hd => hn ⟨hc, hd⟩)
    · obtain ⟨e, he⟩ := hx.fails hc
      exact ⟨e, by rw [he]; rfl⟩

/-- One value for each of a list. -/
theorem Reads.mapM {f : α → Except ε β} {c : α → Prop} {g : α → β} (h : ∀ a, Reads (f a) (c a) (g a)) :
    ∀ l : List α, Reads (l.mapM f) (∀ a ∈ l, c a) (l.map g)
  | []     => ⟨fun _ => rfl, fun hn => absurd (fun a ha => by cases ha) hn⟩
  | a :: l => by
    rw [List.mapM_cons]
    refine ((h a).bind (fun _ => (Reads.mapM h l).bind (fun _ => Reads.pure (g a :: l.map g)))).congr ?_
    rw [List.forall_mem_cons, and_true]

/-! ## When a program comes to its end -/

/-- When `c` holds the program ends well and does `f` to the state, and otherwise it throws. -/
structure Does (p : Prog ε σ Unit) (c : Prop) (f : σ → σ) : Prop where
  ok    : c → ∀ s, exec p s = (.ok (), f s)
  fails : ¬ c → ∀ s, ∃ e s', exec p s = (.error e, s')

theorem Does.pure : Does (Pure.pure () : Prog ε σ Unit) True id := ⟨fun _ _ => rfl, fun h => absurd trivial h⟩

theorem Does.set (f : σ → σ) : Does (set f : Prog ε σ Unit) True f := ⟨fun _ _ => rfl, fun h => absurd trivial h⟩

theorem Does.congr {p : Prog ε σ Unit} {c d : Prop} {f g : σ → σ} (h : Does p c f) (hcd : c ↔ d) (hfg : ∀ s, f s = g s) :
    Does p d g :=
  ⟨fun hd s => by rw [h.ok (hcd.2 hd), hfg], fun hd => h.fails (fun hc => hd (hcd.1 hc))⟩

theorem Does.then {p q : Prog ε σ Unit} {c d : Prop} {f g : σ → σ} (hp : Does p c f) (hq : c → Does q d g) :
    Does (p >>= fun _ => q) (c ∧ d) (g ∘ f) := by
  constructor
  · rintro ⟨hc, hd⟩ s
    rw [exec_bind, hp.ok hc]
    exact (hq hc).ok hd _
  · intro hn s
    by_cases hc : c
    · rw [exec_bind, hp.ok hc]
      exact (hq hc).fails (fun hd => hn ⟨hc, hd⟩) _
    · obtain ⟨e, s', he⟩ := hp.fails hc s
      exact ⟨e, s', by rw [exec_bind, he]⟩

theorem Does.read {x : Except ε α} {k : α → Prog ε σ Unit} {c d : Prop} {a : α} {f : σ → σ} (hx : Reads x c a)
    (hk : c → Does (k a) d f) : Does (lift x >>= k) (c ∧ d) f := by
  constructor
  · rintro ⟨hc, hd⟩ s
    rw [exec_lift_bind, hx.ok hc]
    exact (hk hc).ok hd s
  · intro hn s
    by_cases hc : c
    · rw [exec_lift_bind, hx.ok hc]
      exact (hk hc).fails (fun hd => hn ⟨hc, hd⟩) s
    · obtain ⟨e, he⟩ := hx.fails hc
      exact ⟨e, s, by rw [exec_lift_bind, he]⟩

theorem Does.forM {body : α → Prog ε σ Unit} {c : α → Prop} {f : α → σ → σ} (h : ∀ a, Does (body a) (c a) (f a)) :
    ∀ l : List α, Does (l.forM body) (∀ a ∈ l, c a) (fun s => l.foldl (fun s a => f a s) s)
  | []     => Does.pure.congr ⟨fun _ a ha => (by cases ha), fun _ => trivial⟩ (fun _ => rfl)
  | a :: l => by
    have hl := (h a).then (fun _ => Does.forM h l)
    rw [List.forM_eq_forM, List.forM_cons]
    exact hl.congr (List.forall_mem_cons).symm (fun _ => rfl)

/-- The same with the loop over the indices. -/
theorem Does.forIndices {body : α → Prog ε σ Unit} {c : α → Prop} {f : α → σ → σ} (l : List α) (step : Nat → Prog ε σ Unit)
    (hstep : ∀ i a, l[i]? = some a → step i = body a) (h : ∀ a, Does (body a) (c a) (f a)) :
    Does ((List.range l.length).forM step) (∀ a ∈ l, c a) (fun s => l.foldl (fun s a => f a s) s) := by
  rw [forM_range body l step hstep]
  exact Does.forM h l

/-! ## Whatever comes of it -/

/-- Where a program ends, well or not, the state still has the property. -/
def Keeps (I : σ → Prop) (p : Prog ε σ α) : Prop := ∀ s, I s → I (exec p s).2

theorem Keeps.pure {I : σ → Prop} (a : α) : Keeps I (Pure.pure a : Prog ε σ α) := fun _ h => h

theorem Keeps.set {I : σ → Prop} {f : σ → σ} (h : ∀ s, I s → I (f s)) : Keeps I (set f : Prog ε σ Unit) := h

theorem Keeps.lift {I : σ → Prop} (x : Except ε α) : Keeps I (lift x : Prog ε σ α) := fun _ h => h

theorem Keeps.bind {I : σ → Prop} {p : Prog ε σ α} {k : α → Prog ε σ β} (hp : Keeps I p) (hk : ∀ a, Keeps I (k a)) :
    Keeps I (p >>= k) := by
  intro s hs
  have h := hp s hs
  rw [exec_bind]
  rcases hx : exec p s with ⟨_ | a, s'⟩ <;> rw [hx] at h
  · exact h
  · exact hk a s' h

theorem Keeps.forM {I : σ → Prop} {body : α → Prog ε σ Unit} (h : ∀ a, Keeps I (body a)) : ∀ l : List α,
    Keeps I (l.forM body)
  | []     => Keeps.pure ()
  | a :: l => by
    rw [List.forM_eq_forM, List.forM_cons]
    exact (h a).bind (fun _ => Keeps.forM h l)

/-- Where a program throws, the state still has the property. -/
def Spares (I : σ → Prop) (p : Prog ε σ α) : Prop := ∀ s e s', I s → exec p s = (.error e, s') → I s'

/-- What comes after a part that kept the property may rely on what that part found out. -/
theorem Spares.then {I : σ → Prop} {p q : Prog ε σ Unit} {c : Prop} {f : σ → σ} (hp : Does p c f) (hI : Keeps I p)
    (hq : c → Spares I q) : Spares I (p >>= fun _ => q) := by
  intro s e s' hs h
  have hkept := hI s hs
  rw [exec_bind] at h
  by_cases hc : c
  · rw [hp.ok hc] at h hkept
    exact hq hc _ _ _ hkept h
  · obtain ⟨e', s'', he⟩ := hp.fails hc s
    rw [he] at h hkept
    cases h
    exact hkept

theorem Spares.read {I : σ → Prop} {x : Except ε α} {k : α → Prog ε σ Unit} (hk : ∀ a, Spares I (k a)) :
    Spares I (lift x >>= k) := by
  intro s e s' hs h
  rw [exec_lift_bind] at h
  cases x with
  | error e' => cases h; exact hs
  | ok a => exact hk a _ _ _ hs h

theorem Spares.of_does {I : σ → Prop} {p : Prog ε σ Unit} {c : Prop} {f : σ → σ} (hp : Does p c f) (hc : c) :
    Spares I p := fun s e s' _ h => by
  rw [hp.ok hc] at h
  cases h

/-- What a program throws is in `E`. -/
def Raises (E : ε → Prop) (p : Prog ε σ α) : Prop := ∀ s e s', exec p s = (.error e, s') → E e

theorem Raises.pure {E : ε → Prop} (a : α) : Raises E (Pure.pure a : Prog ε σ α) := fun _ _ _ h => by cases h

theorem Raises.set {E : ε → Prop} (f : σ → σ) : Raises E (set f : Prog ε σ Unit) := fun _ _ _ h => by cases h

theorem Raises.bind {E : ε → Prop} {p : Prog ε σ α} {k : α → Prog ε σ β} (hp : Raises E p) (hk : ∀ a, Raises E (k a)) :
    Raises E (p >>= k) := by
  intro s e s' h
  rw [exec_bind] at h
  rcases hx : exec p s with ⟨_ | a, s''⟩
  · rw [hx] at h
    cases h
    exact hp s _ _ hx
  · rw [hx] at h
    exact hk a _ _ _ h

/-- What reading throws is in `E`. -/
def Errs (E : ε → Prop) (x : Except ε α) : Prop := ∀ e, x = .error e → E e

theorem Errs.pure {E : ε → Prop} (a : α) : Errs E (Pure.pure a : Except ε α) := fun _ h => by cases h

theorem Errs.bind {E : ε → Prop} {x : Except ε α} {k : α → Except ε β} (hx : Errs E x) (hk : ∀ a, x = .ok a → Errs E (k a)) :
    Errs E (x >>= k) := by
  intro e h
  cases x with
  | error e' => cases h; exact hx e rfl
  | ok a => exact hk a rfl e h

theorem Errs.mapM {E : ε → Prop} {f : α → Except ε β} : ∀ l : List α, (∀ a ∈ l, Errs E (f a)) → Errs E (l.mapM f)
  | [], _     => Errs.pure []
  | a :: l, h => by
    rw [List.mapM_cons]
    exact (h a List.mem_cons_self).bind (fun _ _ =>
      (Errs.mapM l (fun b hb => h b (List.mem_cons_of_mem a hb))).bind (fun _ _ => Errs.pure _))

theorem Raises.read {E : ε → Prop} {x : Except ε α} {k : α → Prog ε σ β} (hx : Errs E x)
    (hk : ∀ a, x = .ok a → Raises E (k a)) : Raises E (lift x >>= k) := by
  intro s e s' h
  rw [exec_lift_bind] at h
  cases x with
  | error e' =>
    cases h
    exact hx e rfl
  | ok a => exact hk a rfl _ _ _ h

theorem Raises.forM {E : ε → Prop} {body : α → Prog ε σ Unit} : ∀ l : List α, (∀ a ∈ l, Raises E (body a)) →
    Raises E (l.forM body)
  | [], _     => Raises.pure ()
  | a :: l, h => by
    rw [List.forM_eq_forM, List.forM_cons]
    exact (h a List.mem_cons_self).bind (fun _ => Raises.forM l (fun b hb => h b (List.mem_cons_of_mem a hb)))

/-! ## A field of the state -/

/-- A loop that only looks at one field and only changes that field. -/
theorem foldl_field {τ : Type} (get : σ → τ) (put : τ → σ → σ) (g : α → τ → τ) (hget : ∀ t s, get (put t s) = t)
    (hput : ∀ t u s, put t (put u s) = put t s) (hself : ∀ s, put (get s) s = s) : ∀ (l : List α) (s : σ),
    l.foldl (fun s a => put (g a (get s)) s) s = put (l.foldl (fun t a => g a t) (get s)) s
  | [], s     => (hself s).symm
  | a :: l, s => by rw [List.foldl_cons, foldl_field get put g hget hput hself l, hget, hput, List.foldl_cons]

/-- Two fields that are changed side by side. -/
theorem foldl_pair {τ υ : Type} (f : τ → α → τ) (g : υ → α → υ) : ∀ (l : List α) (t : τ) (u : υ),
    l.foldl (fun p a => (f p.1 a, g p.2 a)) (t, u) = (l.foldl f t, l.foldl g u)
  | [], _, _     => rfl
  | a :: l, t, u => foldl_pair f g l (f t a) (g u a)

end Throwing
