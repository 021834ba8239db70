import Mathlib.Algebra.Order.Field.Basic
import Mathlib.Algebra.Order.BigOperators.Group.List
import Mathlib.Data.List.Basic
import Mathlib.Tactic.FieldSimp
import Mathlib.Tactic.Ring

/-!
# Windows over a stream, and their variance

`window n xs` is what a queue of at most `n` elements holds after the stream `xs`, if the oldest element leaves when
there are too many (`window_concat`).  The sample variance of some numbers is the sum of their squared distances
from the mean over their number less one; it can be computed from their sum and the sum of their squares
(`sampleVariance_eq`).
-/

namespace Base

/-! ### Windows -/

section

variable {α : Type}

/-- The last `n` elements. -/
def window (n : Nat) (xs : List α) : List α := xs.drop (xs.length - n)

private theorem length_window (n : Nat) (xs : List α) : (window n xs).length = min xs.length n := by
  rw [window, List.length_drop]
  omega

/-- As long as there is room nothing leaves the window. -/
theorem window_concat_of_lt {n : Nat} {xs : List α} (h : (window n xs).length < n) (x : α) :
    window n (xs ++ [x]) = window n xs ++ [x] := by
  rw [length_window] at h
  have h0 : xs.length - n = 0 := by omega
  have h1 : (xs ++ [x]).length - n = 0 := by
    rw [List.length_append, List.length_singleton]
    omega
  rw [window, window, h0, h1, List.drop_zero, List.drop_zero]

/-- In a full window the new element takes the place of the oldest one. -/
theorem window_concat_of_le {n : Nat} {xs : List α} (hn : 0 < n) (h : n ≤ (window n xs).length) (x : α) :
    window n (xs ++ [x]) = (window n xs ++ [x]).tail := by
  have hlen := length_window n xs
  have hsucc : (xs ++ [x]).length - n = xs.length - n + 1 := by
    rw [List.length_append, List.length_singleton]
    omega
  rw [window, hsucc, ← List.tail_drop, List.drop_append_of_le_length (by omega)]
  rfl

end

/-! ### Variance -/

section

variable {K : Type} [Field K]

def mean (xs : List K) : K := xs.sum / xs.length

def sumSq (xs : List K) : K := (xs.map fun x => x * x).sum

/-- The squared distances from a point, summed up. -/
def sqDist (c : K) (xs : List K) : K := (xs.map fun x => (x - c) ^ 2).sum

/-- 0 for fewer than two numbers. -/
def sampleVariance (xs : List K) : K := if xs.length < 2 then 0 else sqDist (mean xs) xs / (xs.length - 1)

private theorem sqDist_eq (c : K) (xs : List K) : sqDist c xs = sumSq xs - 2 * c * xs.sum + xs.length * c ^ 2 := by
  unfold sqDist sumSq
  induction xs with
  | nil => simp
  | cons x xs ih =>
    rw [List.map_cons, List.sum_cons, ih, List.map_cons, List.sum_cons, List.sum_cons, List.length_cons,
      Nat.cast_succ]
    ring

private theorem sqDist_mean_eq [CharZero K] {xs : List K} (hne : xs ≠ []) :
    sqDist (mean xs) xs = sumSq xs - xs.sum * xs.sum / xs.length := by
  have hlen : (xs.length : K) ≠ 0 := Nat.cast_ne_zero.2 (List.length_pos_iff.2 hne).ne'
  rw [sqDist_eq, mean]
  field_simp
  ring

/-- The variance in one pass. -/
theorem sampleVariance_eq [CharZero K] {xs : List K} (h : 2 ≤ xs.length) :
    sampleVariance xs = (sumSq xs - xs.sum * xs.sum / xs.length) / (xs.length - 1) := by
  have hne : xs ≠ [] := List.ne_nil_of_length_pos (by omega)
  rw [sampleVariance, if_neg (not_lt.2 h), sqDist_mean_eq hne]

variable [LinearOrder K] [IsStrictOrderedRing K]

private theorem sqDist_nonneg (c : K) (xs : List K) : 0 ≤ sqDist c xs := by
  refine List.sum_nonneg fun y hy => ?_
  obtain ⟨x, -, rfl⟩ := List.mem_map.1 hy
  exact sq_nonneg (x - c)

theorem sampleVariance_nonneg (xs : List K) : 0 ≤ sampleVariance xs := by
  unfold sampleVariance
  split
  · exact le_refl 0
  · rename_i h
    have hlen : (1 : K) ≤ xs.length := by
      have : 1 ≤ xs.length := by omega
      exact_mod_cast this
    exact div_nonneg (sqDist_nonneg _ _) (sub_nonneg.2 hlen)

end

end Base
