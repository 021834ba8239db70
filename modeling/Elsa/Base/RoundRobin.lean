import Mathlib.Order.Basic

/-!
# Going round in a list that may grow

A position moves through a list of `n` places and starts again at its end.  The list may grow at its end, up to
`bound` places.  `ahead bound i j` bounds the moves from place `i` to place `j`, and `aheadAfter bound i j` those
that are left when the position has moved on from `i` (`ahead_next_le`), which is one less unless it was at `j`
(`aheadAfter_lt`).  Both are below `bound` at every place.  They do not mention `n`, so they stay as they are while
the list grows.
-/

namespace Base.RoundRobin

/-- The next place of a list of length `n`. -/
def next (n i : Nat) : Nat := if i + 1 = n then 0 else i + 1

/-- At least as many as the moves from `i` to `j`. -/
def ahead (bound i j : Nat) : Nat := if i ≤ j then j - i else j + bound - i

theorem next_lt {n i : Nat} (h : i < n) : next n i < n := by
  unfold next
  split <;> omega

theorem ahead_lt {bound i j : Nat} (hi : i < bound) (hj : j < bound) : ahead bound i j < bound := by
  unfold ahead
  split <;> omega

/-- At least as many as the moves to `j` after the next one from `i`. -/
def aheadAfter (bound i j : Nat) : Nat := if i = j then bound - 1 else ahead bound i j - 1

theorem aheadAfter_lt {bound i j : Nat} (hi : i < bound) (hne : i ≠ j) : aheadAfter bound i j < ahead bound i j := by
  unfold aheadAfter ahead
  rw [if_neg hne]
  split <;> omega

theorem aheadAfter_lt_bound {bound i j : Nat} (hi : i < bound) (hj : j < bound) : aheadAfter bound i j < bound := by
  have hlt := ahead_lt hi hj
  unfold aheadAfter
  split <;> omega

theorem ahead_next_le {bound n i j : Nat} (hi : i < n) (hj : j < n) (hn : n ≤ bound) :
    ahead bound (next n i) j ≤ aheadAfter bound i j := by
  unfold aheadAfter
  by_cases hij : i = j
  · rw [if_pos hij]
    exact Nat.le_sub_one_of_lt (ahead_lt (Nat.lt_of_lt_of_le (next_lt hi) hn) (Nat.lt_of_lt_of_le hj hn))
  · rw [if_neg hij]
    unfold ahead next
    split
    · -- the position starts again
      rw [if_pos (Nat.zero_le j)]
      split <;> omega
    · split <;> split <;> omega

end Base.RoundRobin
