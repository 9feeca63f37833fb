import Mathlib.Logic.Function.Basic
import Mathlib.Logic.Relation
/-!
# LockOrder — locks taken in an order

A thread waits for one lock at most while it holds others.  When the locks have ranks and no thread waits for a lock below
or beside one it holds, no threads wait for each other in a circle.
-/
namespace LockOrder

open Relation (TransGen)

variable {Thread Lock : Type} (waits : Thread → Option Lock) (owner : Lock → Option Thread)

/-- The one waits for a lock that the other holds. -/
def WaitsFor (t u : Thread) : Prop := ∃ m, waits t = some m ∧ owner m = some u

variable (rank : Lock → Nat) (hrank : ∀ t m m', waits t = some m → owner m' = some t → rank m' < rank m)

include hrank in
/-- Along a chain of waiting threads the locks rise. -/
theorem rank_lt_of_chain {t u : Thread} {m m' : Lock} (h : TransGen (WaitsFor waits owner) t u) (ht : waits t = some m)
    (hu : waits u = some m') : rank m < rank m' := by
  induction h generalizing m' with
  | single hstep =>
    obtain ⟨m₁, h₁, ho⟩ := hstep
    rw [ht] at h₁
    cases h₁
    exact hrank _ m' m hu ho
  | tail _ hstep ih =>
    obtain ⟨m₁, h₁, ho⟩ := hstep
    exact Nat.lt_trans (ih h₁) (hrank _ m' m₁ hu ho)

include hrank in
/-- **No cycle of waiting threads.** -/
theorem no_cycle (t : Thread) : ¬ TransGen (WaitsFor waits owner) t t := by
  intro h
  obtain ⟨m, hm⟩ : ∃ m, waits t = some m := by
    obtain ⟨_, ⟨m, hm, -⟩, -⟩ := TransGen.head'_iff.1 h
    exact ⟨m, hm⟩
  exact Nat.lt_irrefl _ (rank_lt_of_chain waits owner rank hrank h hm hm)

end LockOrder
