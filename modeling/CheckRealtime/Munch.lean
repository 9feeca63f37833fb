import Mathlib.Computability.Language
/-!
# Munch — the longest match over a list of patterns

What a scanner generator makes of a list of patterns: at every point of the text the pattern with the longest match is
taken, and of several with a match of that length the first.  `longest` runs one pattern by derivatives (`longest_spec` says
what it finds), `munch` the list of them.  What is taken of a given text is found by the first character (`munch_live`), the
characters a pattern passes (`longest_append`) and the one at which it ends (`longest_stop`).
-/
namespace Munch

variable {α τ : Type}

inductive Pattern (α : Type) where
  | none
  | empty
  | one (p : α → Bool)
  | seq (a b : Pattern α)
  | alt (a b : Pattern α)
  | star (a : Pattern α)

namespace Pattern

def language : Pattern α → Language α
  | none    => 0
  | empty   => 1
  | one p   => {w | ∃ c, p c = true ∧ w = [c]}
  | seq a b => a.language * b.language
  | alt a b => a.language + b.language
  | star a  => KStar.kstar a.language

def nullable : Pattern α → Bool
  | none    => false
  | empty   => true
  | one _   => false
  | seq a b => a.nullable && b.nullable
  | alt a b => a.nullable || b.nullable
  | star _  => true

/-- `seq`, with nothing kept that matches nothing. -/
def cat : Pattern α → Pattern α → Pattern α
  | none, _  => none
  | empty, b => b
  | a, b     => seq a b

def union : Pattern α → Pattern α → Pattern α
  | none, b => b
  | a, none => a
  | a, b    => alt a b

def plus (a : Pattern α) : Pattern α := seq a (star a)

def opt (a : Pattern α) : Pattern α := alt a empty

/-- What is left to match after `c`. -/
def deriv (c : α) : Pattern α → Pattern α
  | none    => none
  | empty   => none
  | one p   => if p c then empty else none
  | seq a b => if a.nullable then (((a.deriv c).cat b).union (b.deriv c)) else (a.deriv c).cat b
  | alt a b => (a.deriv c).union (b.deriv c)
  | star a  => (a.deriv c).cat (star a)

theorem deriv_one_seq {p : α → Bool} {c : α} (h : p c = true) (b : Pattern α) : (seq (one p) b).deriv c = b := by
  show (if p c then empty else none).cat b = b
  rw [if_pos h]
  rfl

theorem deriv_one_seq_none {p : α → Bool} {c : α} (h : p c = false) (b : Pattern α) : (seq (one p) b).deriv c = none := by
  show (if p c then empty else none).cat b = none
  rw [h]
  rfl

theorem deriv_star_one {p : α → Bool} {c : α} (h : p c = true) : (star (one p)).deriv c = star (one p) := by
  show (if p c then empty else none).cat (star (one p)) = _
  rw [if_pos h]
  rfl

theorem deriv_star_one_none {p : α → Bool} {c : α} (h : p c = false) : (star (one p)).deriv c = none := by
  show (if p c then empty else none).cat (star (one p)) = _
  rw [h]
  rfl

theorem mem_one (p : α → Bool) (w : List α) : w ∈ (one p).language ↔ ∃ c, p c = true ∧ w = [c] := Iff.rfl

theorem language_cat (a b : Pattern α) : (a.cat b).language = a.language * b.language := by
  cases a with
  | none => exact (zero_mul _).symm
  | empty => exact (one_mul _).symm
  | _ => rfl

theorem language_union (a b : Pattern α) : (a.union b).language = a.language + b.language := by
  cases a with
  | none => exact (zero_add _).symm
  | _ =>
    cases b with
    | none => exact (add_zero _).symm
    | _ => rfl

theorem nullable_iff (a : Pattern α) : a.nullable = true ↔ [] ∈ a.language := by
  induction a with
  | none => exact iff_of_false Bool.false_ne_true (fun h => h)
  | empty => exact iff_of_true rfl rfl
  | one p => exact iff_of_false Bool.false_ne_true (fun ⟨_, _, h⟩ => by cases h)
  | seq a b iha ihb =>
    rw [nullable, Bool.and_eq_true, iha, ihb, language, Language.mem_mul]
    constructor
    · rintro ⟨ha, hb⟩
      exact ⟨[], ha, [], hb, rfl⟩
    · rintro ⟨u, hu, v, hv, h⟩
      obtain ⟨rfl, rfl⟩ := List.append_eq_nil_iff.1 h
      exact ⟨hu, hv⟩
  | alt a b iha ihb => rw [nullable, Bool.or_eq_true, iha, ihb, language, Language.mem_add]
  | star a ih => exact iff_of_true rfl (Language.nil_mem_kstar _)

/-- A word of a product that begins with `c`. -/
theorem cons_mem_mul (c : α) (w : List α) (l m : Language α) :
    c :: w ∈ l * m ↔ (∃ u, c :: u ∈ l ∧ ∃ v ∈ m, u ++ v = w) ∨ ([] ∈ l ∧ c :: w ∈ m) := by
  rw [Language.mem_mul]
  constructor
  · rintro ⟨u, hu, v, hv, h⟩
    cases u with
    | nil => exact Or.inr ⟨hu, h ▸ hv⟩
    | cons d u =>
      obtain ⟨rfl, rfl⟩ := List.cons.inj h
      exact Or.inl ⟨u, hu, v, hv, rfl⟩
  · rintro (⟨u, hu, v, hv, rfl⟩ | ⟨hl, hm⟩)
    · exact ⟨c :: u, hu, v, hv, rfl⟩
    · exact ⟨[], hl, _, hm, rfl⟩

theorem cons_mem_kstar (c : α) (w : List α) (l : Language α) :
    c :: w ∈ KStar.kstar l ↔ ∃ u, c :: u ∈ l ∧ ∃ v ∈ KStar.kstar l, u ++ v = w := by
  constructor
  · intro h
    obtain ⟨ws, hws, hall⟩ := Language.mem_kstar_iff_exists_nonempty.1 h
    cases ws with
    | nil => cases hws
    | cons x ws =>
      obtain ⟨hx, hne⟩ := hall x List.mem_cons_self
      cases x with
      | nil => exact absurd rfl hne
      | cons d u =>
        obtain ⟨rfl, rfl⟩ := List.cons.inj hws
        exact ⟨u, hx, ws.flatten, Language.mem_kstar.2 ⟨ws, rfl, fun y hy => (hall y (List.mem_cons_of_mem _ hy)).1⟩, rfl⟩
  · rintro ⟨u, hu, v, hv, rfl⟩
    obtain ⟨ws, rfl, hall⟩ := Language.mem_kstar.1 hv
    exact Language.mem_kstar.2 ⟨(c :: u) :: ws, rfl, fun y hy => (List.mem_cons.1 hy).elim (fun e => e ▸ hu) (hall y)⟩

theorem mem_deriv (c : α) (a : Pattern α) : ∀ w : List α, w ∈ (a.deriv c).language ↔ c :: w ∈ a.language := by
  induction a with
  | none => exact fun w => Iff.rfl
  | empty => exact fun w => iff_of_false (fun h => h) (fun h => by cases h)
  | one p =>
    intro w
    rw [deriv, mem_one]
    cases hp : p c with
    | true =>
      refine ⟨fun h => ⟨c, hp, by rw [show w = [] from h]⟩, ?_⟩
      rintro ⟨d, -, h⟩
      exact (List.cons.inj h).2
    | false =>
      refine iff_of_false (fun h => h) ?_
      rintro ⟨d, hd, h⟩
      rw [← (List.cons.inj h).1, hp] at hd
      cases hd
  | seq a b iha ihb =>
    intro w
    have hcat : w ∈ ((a.deriv c).cat b).language ↔ ∃ u, c :: u ∈ a.language ∧ ∃ v ∈ b.language, u ++ v = w := by
      rw [language_cat, Language.mem_mul]
      exact exists_congr (fun u => and_congr_left' (iha u))
    rw [language, cons_mem_mul, deriv, ← nullable_iff, ← ihb]
    cases a.nullable with
    | true => rw [if_pos rfl, language_union, Language.mem_add, hcat, eq_self, true_and]
    | false => rw [if_neg (by decide), hcat, or_iff_left (fun h => by cases h.1)]
  | alt a b iha ihb =>
    intro w
    rw [deriv, language_union, Language.mem_add, iha, ihb, language, Language.mem_add]
  | star a ih =>
    intro w
    rw [deriv, language_cat, language, cons_mem_kstar, Language.mem_mul]
    exact exists_congr (fun u => and_congr_left' (ih u))

/-- A word matches when what is left after its characters matches nothing more. -/
theorem mem_iff : ∀ (w : List α) (a : Pattern α), w ∈ a.language ↔ (w.foldl (fun a c => a.deriv c) a).nullable = true
  | [], a => (nullable_iff a).symm
  | c :: w, a => by
    rw [← mem_deriv, mem_iff w]
    rfl

theorem mem_star_one {p : α → Bool} : ∀ {w : List α}, (∀ c ∈ w, p c = true) → w ∈ (star (one p)).language
  | [], _ => Language.nil_mem_kstar _
  | c :: w, h => by
    rw [List.forall_mem_cons] at h
    rw [← mem_deriv, deriv_star_one h.1]
    exact mem_star_one h.2

/-- The pattern does not tell the two characters apart. -/
def alike (c d : α) : Pattern α → Bool
  | none    => true
  | empty   => true
  | one p   => p c == p d
  | seq a b => a.alike c d && b.alike c d
  | alt a b => a.alike c d && b.alike c d
  | star a  => a.alike c d

theorem deriv_of_alike {c d : α} {a : Pattern α} (h : a.alike c d = true) : a.deriv c = a.deriv d := by
  induction a with
  | none => rfl
  | empty => rfl
  | one p => rw [deriv, deriv, beq_iff_eq.1 h]
  | seq a b iha ihb =>
    rw [alike, Bool.and_eq_true] at h
    rw [deriv, deriv, iha h.1, ihb h.2]
  | alt a b iha ihb =>
    rw [alike, Bool.and_eq_true] at h
    rw [deriv, deriv, iha h.1, ihb h.2]
  | star a ih => rw [deriv, deriv, ih h]

/-- Nothing more can be matched. -/
def settled : Pattern α → Bool
  | none  => true
  | empty => true
  | _     => false

/-- No word of the pattern has `d` in it. -/
def avoids (d : α) : Pattern α → Bool
  | none    => true
  | empty   => true
  | one p   => !p d
  | seq a b => a.avoids d && b.avoids d
  | alt a b => a.avoids d && b.avoids d
  | star a  => a.avoids d

theorem deriv_of_avoids {d : α} {a : Pattern α} (h : a.avoids d = true) : a.deriv d = none := by
  induction a with
  | none => rfl
  | empty => rfl
  | one p =>
    rw [avoids, Bool.not_eq_true'] at h
    rw [deriv, h]
    rfl
  | seq a b iha ihb =>
    rw [avoids, Bool.and_eq_true] at h
    rw [deriv, iha h.1, ihb h.2]
    split <;> rfl
  | alt a b iha ihb =>
    rw [avoids, Bool.and_eq_true] at h
    rw [deriv, iha h.1, ihb h.2]
    rfl
  | star a ih =>
    rw [deriv, ih h]
    rfl

theorem avoids_cat {d : α} {a b : Pattern α} (ha : a.avoids d = true) (hb : b.avoids d = true) : (a.cat b).avoids d = true := by
  cases a with
  | none => rfl
  | empty => exact hb
  | _ => exact Bool.and_eq_true_iff.2 ⟨ha, hb⟩

theorem avoids_union {d : α} {a b : Pattern α} (ha : a.avoids d = true) (hb : b.avoids d = true) :
    (a.union b).avoids d = true := by
  cases a with
  | none => exact hb
  | _ =>
    cases b with
    | none => exact ha
    | _ => exact Bool.and_eq_true_iff.2 ⟨ha, hb⟩

theorem avoids_deriv {d : α} (c : α) {a : Pattern α} (h : a.avoids d = true) : (a.deriv c).avoids d = true := by
  induction a with
  | none => rfl
  | empty => rfl
  | one p =>
    rw [deriv]
    split <;> rfl
  | seq a b iha ihb =>
    rw [avoids, Bool.and_eq_true] at h
    have hcat := avoids_cat (iha h.1) h.2
    rw [deriv]
    split
    · exact avoids_union hcat (ihb h.2)
    · exact hcat
  | alt a b iha ihb =>
    rw [avoids, Bool.and_eq_true] at h
    exact avoids_union (iha h.1) (ihb h.2)
  | star a ih => exact avoids_cat (ih h) h

/-! ## One pattern -/

def isNone : Pattern α → Bool
  | none => true
  | _    => false

end Pattern

/-- The length of the longest prefix that matches. -/
def longest : Pattern α → List α → Option Nat
  | a, []     => if a.nullable then some 0 else none
  | a, c :: s =>
    if a.isNone then none
    else match longest (a.deriv c) s with
      | some n => some (n + 1)
      | none   => if a.nullable then some 0 else none

theorem not_mem_of_isNone {a : Pattern α} (h : a.isNone = true) (w : List α) : w ∉ a.language := by
  cases a <;> first | exact fun hw => hw | cases h

/-- No prefix matches, or the prefix of that length does and no longer one. -/
theorem longest_spec : ∀ (s : List α) (a : Pattern α), match longest a s with
    | some n => (∃ t, t <+: s ∧ t.length = n ∧ t ∈ a.language) ∧ ∀ t, t <+: s → t ∈ a.language → t.length ≤ n
    | none   => ∀ t, t <+: s → t ∉ a.language
  | [], a => by
    have hnil : ∀ t : List α, t <+: [] → t = [] := fun t ht => List.prefix_nil.1 ht
    rw [longest]
    cases hn : a.nullable with
    | true =>
      refine ⟨⟨[], List.nil_prefix, rfl, (Pattern.nullable_iff a).1 hn⟩, fun t ht _ => ?_⟩
      rw [hnil t ht]
      exact Nat.le_refl 0
    | false =>
      intro t ht hmem
      rw [hnil t ht, ← Pattern.nullable_iff, hn] at hmem
      cases hmem
  | c :: s, a => by
    have ih := longest_spec s (a.deriv c)
    rw [longest]
    cases hnone : a.isNone with
    | true => exact fun t _ => not_mem_of_isNone hnone t
    | false =>
      cases hl : longest (a.deriv c) s with
      | some n =>
        rw [hl] at ih
        obtain ⟨⟨t, ht, hlen, hmem⟩, hmax⟩ := ih
        refine ⟨⟨c :: t, List.cons_prefix_cons.2 ⟨rfl, ht⟩, by rw [List.length_cons, hlen],
          (Pattern.mem_deriv c a t).1 hmem⟩, fun u hu hum => ?_⟩
        cases u with
        | nil => exact Nat.zero_le _
        | cons d u =>
          obtain ⟨rfl, hu'⟩ := List.cons_prefix_cons.1 hu
          exact Nat.succ_le_succ (hmax u hu' ((Pattern.mem_deriv d a u).2 hum))
      | none =>
        rw [hl] at ih
        have hcons : ∀ d u, d :: u <+: c :: s → d :: u ∉ a.language := fun d u hu hum => by
          obtain ⟨rfl, hu'⟩ := List.cons_prefix_cons.1 hu
          exact ih u hu' ((Pattern.mem_deriv d a u).2 hum)
        cases hn : a.nullable with
        | true =>
          refine ⟨⟨[], List.nil_prefix, rfl, (Pattern.nullable_iff a).1 hn⟩, fun u hu hum => ?_⟩
          cases u with
          | nil => exact Nat.le_refl 0
          | cons d u => exact absurd hum (hcons d u hu)
        | false =>
          intro u hu hum
          cases u with
          | nil =>
            rw [← Pattern.nullable_iff, hn] at hum
            cases hum
          | cons d u => exact hcons d u hu hum

@[simp] theorem longest_none (s : List α) : longest (.none : Pattern α) s = none := by
  cases s <;> rfl

@[simp] theorem longest_empty (s : List α) : longest (.empty : Pattern α) s = some 0 := by
  cases s with
  | nil => rfl
  | cons c s => exact (show (match longest .none s with | some n => some (n + 1) | none => some 0) = some 0 by rw [longest_none])

theorem longest_cons (a : Pattern α) (c : α) (s : List α) :
    longest a (c :: s) = match longest (a.deriv c) s with
      | some n => some (n + 1)
      | none   => if a.nullable then some 0 else none := by
  cases a with
  | none =>
    show none = match longest .none s with | some n => some (n + 1) | none => none
    rw [longest_none]
  | _ => rfl

theorem longest_of_nullable {a : Pattern α} (h : a.nullable = true) : ∀ s : List α, longest a s ≠ none
  | [] => by
    rw [longest, if_pos h]
    exact Option.some_ne_none 0
  | c :: s => by
    rw [longest_cons, h]
    cases longest (a.deriv c) s with
    | none => exact Option.some_ne_none 0
    | some n => exact Option.some_ne_none _

theorem longest_one {p : α → Bool} {c : α} (h : p c = true) (s : List α) : longest (.one p) (c :: s) = some 1 := by
  rw [longest_cons, show (Pattern.one p).deriv c = .empty from if_pos h, longest_empty]

theorem longest_le_length {a : Pattern α} {s : List α} {n : Nat} (h : longest a s = some n) : n ≤ s.length := by
  have hs := longest_spec s a
  rw [h] at hs
  obtain ⟨⟨t, ht, rfl, -⟩, -⟩ := hs
  exact ht.length_le

theorem longest_of_mem {a : Pattern α} {s : List α} (h : s ∈ a.language) : longest a s = some s.length := by
  have hs := longest_spec s a
  cases hl : longest a s with
  | none =>
    rw [hl] at hs
    exact absurd h (hs s List.prefix_rfl)
  | some n =>
    rw [hl] at hs
    exact congrArg some (Nat.le_antisymm (longest_le_length hl) (hs.2 s List.prefix_rfl h))

/-- The match ends before a character that cannot go on. -/
theorem longest_stop {a : Pattern α} {c : α} (h : a.deriv c = .none) (s : List α) :
    longest a (c :: s) = if a.nullable then some 0 else none := by
  rw [longest_cons, h, longest_none]

theorem longest_of_avoids {d : α} : ∀ {a : Pattern α}, a.avoids d = true → ∀ w s : List α,
    longest a (w ++ d :: s) = longest a w
  | a, h, [], s => longest_stop (Pattern.deriv_of_avoids h) s
  | a, h, c :: w, s => by
    rw [List.cons_append, longest_cons, longest_cons, longest_of_avoids (Pattern.avoids_deriv c h) w s]

theorem longest_of_settled (s : List α) : ∀ {w : List α} {a : Pattern α},
    (w.foldl (fun a c => a.deriv c) a).settled = true → longest a (w ++ s) = longest a w
  | [], a, h => by
    cases a with
    | none => rw [longest_none, longest_none]
    | empty => rw [longest_empty, longest_empty]
    | _ => cases h
  | c :: w, a, h => by
    rw [List.cons_append, longest_cons, longest_cons, longest_of_settled s (w := w) (a := a.deriv c) h]

/-- A character that is not the last one of a match. -/
theorem longest_map {a : Pattern α} (h : a.nullable = false) (c : α) (s : List α) :
    longest a (c :: s) = (longest (a.deriv c) s).map (· + 1) := by
  rw [longest_cons, h]
  cases longest (a.deriv c) s with
  | none => rfl
  | some n => rfl

/-- The characters that leave the pattern as it is are passed. -/
theorem longest_append {a : Pattern α} : ∀ {w : List α}, (∀ c ∈ w, a.deriv c = a) → ∀ s : List α,
    longest a (w ++ s) = (longest a s).map (· + w.length)
  | [], _, s => by
    rw [List.nil_append]
    cases longest a s <;> rfl
  | c :: w, h, s => by
    rw [List.cons_append, longest_cons, h c List.mem_cons_self, longest_append (fun d hd => h d (List.mem_cons_of_mem c hd)) s]
    cases hs : longest a s with
    | some n => exact congrArg some (Nat.add_assoc n w.length 1)
    | none => exact if_neg (fun hn => longest_of_nullable hn s hs)

/-- Characters of which the first is not the last of a match. -/
theorem longest_run {a b : Pattern α} (hn : a.nullable = false) {w : List α} (hne : w ≠ []) (hfirst : ∀ c ∈ w, a.deriv c = b)
    (hmore : ∀ c ∈ w, b.deriv c = b) (s : List α) : longest a (w ++ s) = (longest b s).map (· + w.length) := by
  cases w with
  | nil => exact absurd rfl hne
  | cons c w =>
    rw [List.forall_mem_cons] at hfirst hmore
    rw [List.cons_append, longest_map hn, hfirst.1, longest_append hmore.2, Option.map_map]
    rfl

/-- A run of one class, up to the first character out of it. -/
theorem longest_star_one {p : α → Bool} {w s : List α} (hw : ∀ c ∈ w, p c = true) (hs : ∀ c ∈ s.head?, p c = false) :
    longest (.star (.one p)) (w ++ s) = some w.length := by
  have hend : longest (.star (.one p)) s = some 0 := by
    cases s with
    | nil => rfl
    | cons c s => exact longest_stop (Pattern.deriv_star_one_none (hs c rfl)) s
  rw [longest_append (fun c hc => Pattern.deriv_star_one (hw c hc)), hend, Option.map_some, Nat.zero_add]

/-! ## The list of patterns -/

/-- What is taken, and the length of the match. -/
def munch (pattern : τ → Pattern α) : List τ → List α → Option (τ × Nat)
  | [], _      => none
  | r :: rs, s =>
    match longest (pattern r) s, munch pattern rs s with
    | none, m              => m
    | some n, none         => some (r, n)
    | some n, some (r', m) => if m ≤ n then some (r, n) else some (r', m)

theorem munch_none {pattern : τ → Pattern α} {r : τ} {s : List α} (h : longest (pattern r) s = none) (rs : List τ) :
    munch pattern (r :: rs) s = munch pattern rs s := by
  rw [munch, h]

theorem munch_last {pattern : τ → Pattern α} {r : τ} {s : List α} {n : Nat} (h : longest (pattern r) s = some n) :
    munch pattern [r] s = some (r, n) := by
  rw [munch, h, munch]

theorem munch_le {pattern : τ → Pattern α} {r r' : τ} {rs : List τ} {s : List α} {n m : Nat}
    (h : longest (pattern r) s = some n) (hr : munch pattern rs s = some (r', m)) (hle : m ≤ n) :
    munch pattern (r :: rs) s = some (r, n) := by
  rw [munch, h, hr]
  exact if_pos hle

theorem munch_lt {pattern : τ → Pattern α} {r r' : τ} {rs : List τ} {s : List α} {n m : Nat}
    (h : longest (pattern r) s = some n) (hr : munch pattern rs s = some (r', m)) (hlt : n < m) :
    munch pattern (r :: rs) s = some (r', m) := by
  rw [munch, h, hr]
  exact if_neg (Nat.not_le.2 hlt)

theorem munch_congr {pattern : τ → Pattern α} {s s' : List α} : ∀ {rs : List τ},
    (∀ r ∈ rs, longest (pattern r) s = longest (pattern r) s') → munch pattern rs s = munch pattern rs s'
  | [], _ => rfl
  | r :: rs, h => by
    rw [List.forall_mem_cons] at h
    rw [munch, munch, h.1, munch_congr h.2]

theorem munch_mem {pattern : τ → Pattern α} {s : List α} {r : τ} {n : Nat} : ∀ {rs : List τ},
    munch pattern rs s = some (r, n) → r ∈ rs ∧ longest (pattern r) s = some n
  | [], h => by cases h
  | r' :: rs, h => by
    have htail : munch pattern rs s = some (r, n) → r ∈ r' :: rs ∧ longest (pattern r) s = some n := fun ht =>
      ⟨List.mem_cons_of_mem _ (munch_mem ht).1, (munch_mem ht).2⟩
    have hhead : ∀ m, longest (pattern r') s = some m → some (r', m) = some (r, n) →
        r ∈ r' :: rs ∧ longest (pattern r) s = some n := fun m hm e => by
      cases e
      exact ⟨List.mem_cons_self, hm⟩
    rw [munch] at h
    split at h
    · exact htail h
    · rename_i m hm _
      exact hhead m hm h
    · rename_i m r'' m' hm hr
      split at h
      · exact hhead m hm h
      · exact htail (hr.trans h)

/-- A text that the first pattern matches whole. -/
theorem munch_of_mem {pattern : τ → Pattern α} {r : τ} {s : List α} (h : s ∈ (pattern r).language) (rs : List τ) :
    munch pattern (r :: rs) s = some (r, s.length) := by
  cases hr : munch pattern rs s with
  | none => rw [munch, longest_of_mem h, hr]
  | some m => exact munch_le (longest_of_mem h) hr (longest_le_length (munch_mem hr).2)

/-- A rule that is passed over matches less. -/
theorem munch_before {pattern : τ → Pattern α} {s : List α} {r r' : τ} {n : Nat} {post : List τ} : ∀ {pre : List τ},
    munch pattern (pre ++ r' :: post) s = some (r, n) → r ∉ pre → r ≠ r' → ∀ m, longest (pattern r') s = some m → m < n
  | [], h, _, hne, m, hm => by
    rw [List.nil_append, munch, hm] at h
    split at h
    · rename_i e; cases e
    · rename_i k e hr
      cases e
      exact absurd (congrArg Prod.fst (Option.some.inj h)).symm hne
    · rename_i k r'' m' e hr
      cases e
      split at h
      · exact absurd (congrArg Prod.fst (Option.some.inj h)).symm hne
      · rename_i hlt
        cases h
        exact Nat.lt_of_not_le hlt
  | q :: pre, h, hmem, hne, m, hm => by
    have hq : r ≠ q := fun e => hmem (e ▸ List.mem_cons_self)
    have ih : munch pattern (pre ++ r' :: post) s = some (r, n) → m < n := fun ht =>
      munch_before ht (fun hp => hmem (List.mem_cons_of_mem q hp)) hne m hm
    rw [List.cons_append, munch] at h
    split at h
    · exact ih h
    · exact absurd (congrArg Prod.fst (Option.some.inj h)).symm hq
    · rename_i hr
      split at h
      · exact absurd (congrArg Prod.fst (Option.some.inj h)).symm hq
      · exact ih (hr.trans h)

/-- No word of the pattern begins with `c`. -/
def dead (c : α) (a : Pattern α) : Bool := (a.deriv c).isNone && !a.nullable

theorem longest_dead {a : Pattern α} {c : α} (h : dead c a = true) (s : List α) : longest a (c :: s) = none := by
  rw [dead, Bool.and_eq_true, Bool.not_eq_true'] at h
  have hnone : a.deriv c = .none := by
    cases hd : a.deriv c <;> first | rfl | (rw [hd] at h; cases h.1)
  rw [longest_stop hnone, h.2]
  rfl

/-- **Only the patterns that the first character leaves are looked at.** -/
theorem munch_live (pattern : τ → Pattern α) (c : α) (s : List α) : ∀ rs : List τ,
    munch pattern rs (c :: s) = munch pattern (rs.filter (fun r => !dead c (pattern r))) (c :: s)
  | [] => rfl
  | r :: rs => by
    rw [munch, munch_live pattern c s rs]
    cases hd : dead c (pattern r) with
    | true =>
      rw [List.filter_cons_of_neg (by rw [hd]; decide), longest_dead hd]
    | false =>
      rw [List.filter_cons_of_pos (by rw [hd]; rfl), munch]

end Munch
