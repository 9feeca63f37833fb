import Mathlib.Data.List.Nodup
import Mathlib.Logic.Relation
/-!
# Walk — everything a depth-first walk emits

An item emits some values and leads to further items.  When every step lowers a height, the walk from an item ends, and
what it emits is what the items it reaches emit, parents first (`parent_before`), and over a tree each once (`nodup_upTo`).
-/
namespace Walk

open Relation (ReflTransGen)

variable {α β : Type} (expand : α → List β × List α)

/-- The values emitted within that many levels. -/
def upTo : Nat → α → List β
  | 0, _     => []
  | k + 1, a => (expand a).1 ++ (expand a).2.flatMap (upTo k)

def Step (a b : α) : Prop := b ∈ (expand a).2

variable (height : α → Nat)

def all (a : α) : List β := upTo expand (height a + 1) a

theorem reach_of_mem_upTo (x : β) : ∀ (k : Nat) (a : α), x ∈ upTo expand k a →
    ∃ b, ReflTransGen (Step expand) a b ∧ x ∈ (expand b).1
  | 0, _, h => by cases h
  | k + 1, a, h => by
    rw [upTo, List.mem_append, List.mem_flatMap] at h
    rcases h with h | ⟨c, hc, h⟩
    · exact ⟨a, .refl, h⟩
    · obtain ⟨b, hb, hx⟩ := reach_of_mem_upTo x k c h
      exact ⟨b, .head hc hb, hx⟩

section

-- a walk that starts in a set its steps do not leave needs the height to fall in that set alone
variable (I : α → Prop) (hI : ∀ a b, I a → Step expand a b → I b ∧ height b < height a)

include hI in
theorem upTo_stable_on : ∀ (k k' : Nat) (a : α), I a → height a < k → height a < k' →
    upTo expand k a = upTo expand k' a
  | 0, _, _, _, h, _ => absurd h (Nat.not_lt_zero _)
  | _, 0, _, _, _, h => absurd h (Nat.not_lt_zero _)
  | k + 1, k' + 1, a, ha, h, h' => by
    rw [upTo, upTo]
    congr 1
    refine List.flatMap_congr (fun b hb => ?_)
    obtain ⟨hb, hba⟩ := hI a b ha hb
    exact upTo_stable_on k k' b hb (by omega) (by omega)

include hI in
theorem all_eq_on (a : α) (ha : I a) :
    all expand height a = (expand a).1 ++ (expand a).2.flatMap (all expand height) := by
  rw [all, upTo]
  congr 1
  refine List.flatMap_congr (fun b hb => ?_)
  obtain ⟨hb, hba⟩ := hI a b ha hb
  exact upTo_stable_on expand height I hI _ _ b hb (by omega) (Nat.lt_succ_self _)

include hI in
theorem mem_all_of_reach_on (x : β) (a b : α) (ha : I a) (h : ReflTransGen (Step expand) a b) (hx : x ∈ (expand b).1) :
    x ∈ all expand height a := by
  induction h using ReflTransGen.head_induction_on with
  | refl =>
    rw [all_eq_on expand height I hI _ ha, List.mem_append]
    exact Or.inl hx
  | head hac _ ih =>
    rw [all_eq_on expand height I hI _ ha, List.mem_append, List.mem_flatMap]
    exact Or.inr ⟨_, hac, ih (hI _ _ ha hac).1⟩

include hI in
theorem mem_all_on (x : β) (a : α) (ha : I a) :
    x ∈ all expand height a ↔ ∃ b, ReflTransGen (Step expand) a b ∧ x ∈ (expand b).1 :=
  ⟨reach_of_mem_upTo expand x _ a, fun ⟨b, hb, hx⟩ => mem_all_of_reach_on expand height I hI x a b ha hb hx⟩

end

/-! ## The order -/

theorem split_append {l l' pre post : List β} {x : β} (h : l ++ l' = pre ++ x :: post) :
    (∃ q, l = pre ++ x :: q) ∨ ∃ m, pre = l ++ m ∧ l' = m ++ x :: post := by
  rcases List.append_eq_append_iff.1 h with ⟨m, hpre, hl'⟩ | ⟨m, hl, hpost⟩
  · exact Or.inr ⟨m, hpre, hl'⟩
  · cases m with
    | nil =>
      rw [List.append_nil] at hl
      exact Or.inr ⟨[], by rw [hl, List.append_nil], hpost.symm⟩
    | cons y m =>
      obtain ⟨rfl, -⟩ := List.cons.inj hpost
      exact Or.inl ⟨m, hl⟩

theorem split_flatMap (f : α → List β) {x : β} {post : List β} : ∀ (l : List α) (pre : List β),
    l.flatMap f = pre ++ x :: post → ∃ c ∈ l, ∃ before p q, pre = before ++ p ∧ f c = p ++ x :: q
  | [], pre, h => by cases pre <;> cases h
  | c :: l, pre, h => by
    rw [List.flatMap_cons] at h
    rcases split_append h with ⟨q, hq⟩ | ⟨m, rfl, hm⟩
    · exact ⟨c, List.mem_cons_self, [], pre, q, rfl, hq⟩
    · obtain ⟨d, hd, before, p, q, rfl, hq⟩ := split_flatMap f l m hm
      exact ⟨d, List.mem_cons_of_mem c hd, f c ++ before, p, q, (List.append_assoc ..).symm, hq⟩

/-- **Parents first**: what an item below the start emits comes after all that an item leading to it emits. -/
theorem parent_before {x : β} {post : List β} : ∀ (k : Nat) (a : α) (pre : List β), upTo expand k a = pre ++ x :: post →
    x ∈ (expand a).1 ∨ ∃ b c, ReflTransGen (Step expand) a b ∧ Step expand b c ∧ x ∈ (expand c).1 ∧
      ∀ y ∈ (expand b).1, y ∈ pre
  | 0, _, pre, h => by cases pre <;> cases h
  | k + 1, a, pre, h => by
    rw [upTo] at h
    rcases split_append h with ⟨q, hq⟩ | ⟨m, rfl, hm⟩
    · exact Or.inl (by rw [hq]; simp)
    · obtain ⟨c, hac, before, p, q, rfl, hc⟩ := split_flatMap (upTo expand k) (expand a).2 m hm
      rcases parent_before k c p hc with hx | ⟨b, d, hcb, hbd, hx, hy⟩
      · exact Or.inr ⟨a, c, .refl, hac, hx, fun y hy => List.mem_append_left _ hy⟩
      · refine Or.inr ⟨b, d, .head hac hcb, hbd, hx, fun y h => ?_⟩
        exact List.mem_append_right _ (List.mem_append_right _ (hy y h))

/-! ## No repetition -/

/-- **A walk over a tree emits nothing twice**: what is under an item is told apart from what the item emits and from
what is under its siblings. -/
theorem nodup_upTo (under : α → β → Prop) (hown : ∀ a, ((expand a).1).Nodup) (hself : ∀ a, ∀ x ∈ (expand a).1, under a x)
    (I : α → Prop) (hI : ∀ a b, I a → Step expand a b → I b)
    (hdown : ∀ a b x, I a → Step expand a b → under b x → under a x ∧ x ∉ (expand a).1)
    (hapart : ∀ a, I a → (expand a).2.Pairwise (fun b c => ∀ x, under b x → ¬ under c x)) :
    ∀ (k : Nat) (a : α), I a → (upTo expand k a).Nodup ∧ ∀ x ∈ upTo expand k a, under a x
  | 0, _, _ => ⟨List.nodup_nil, fun _ h => by cases h⟩
  | k + 1, a, ha => by
    have ih := fun b (hb : Step expand a b) => nodup_upTo under hown hself I hI hdown hapart k b (hI a b ha hb)
    have hbelow : ∀ x ∈ (expand a).2.flatMap (upTo expand k), under a x ∧ x ∉ (expand a).1 := fun x hx => by
      obtain ⟨b, hb, hx⟩ := List.mem_flatMap.1 hx
      exact hdown a b x ha hb ((ih b hb).2 x hx)
    rw [upTo]
    constructor
    · refine List.nodup_append.2 ⟨hown a, ?_, fun x hx y hy e => (hbelow y hy).2 (e ▸ hx)⟩
      refine List.nodup_flatMap.2 ⟨fun b hb => (ih b hb).1, ?_⟩
      refine (hapart a ha).imp_of_mem (fun hb hc h x hxb hxc => ?_)
      exact h x ((ih _ hb).2 x hxb) ((ih _ hc).2 x hxc)
    · intro x hx
      rcases List.mem_append.1 hx with hx | hx
      · exact hself a x hx
      · exact (hbelow x hx).1

end Walk
