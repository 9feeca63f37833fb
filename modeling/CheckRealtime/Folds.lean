import Mathlib.Data.List.Dedup
import Mathlib.Data.List.Perm.Basic
/-!
# Folds — folds that do not see order and repetition

A step that commutes with itself and does nothing the second time makes a fold depend on the members of the list alone.
-/
namespace Folds

variable {σ α : Type} (step : σ → α → σ) (hcomm : ∀ s a b, step (step s a) b = step (step s b) a)
  (hidem : ∀ s a, step (step s a) a = step s a)

end Folds
