import Mathlib.Logic.Function.Basic

/-!
# Partial maps and bijective maps

A finite map is read as a partial function.  `emplace` binds a key that is free and leaves a bound key alone.  A
`Bimap` is a partial bijection kept as its two directions; that they agree is a field.
-/

namespace Base

variable {α β : Type} [DecidableEq α]

/-- Bind `k` to `v` unless `k` is bound. -/
def emplace (m : α → Option β) (k : α) (v : β) : α → Option β :=
  match m k with
  | none => Function.update m k (some v)
  | some _ => m

theorem emplace_of_free {m : α → Option β} {k : α} (h : m k = none) (v : β) (k' : α) :
    emplace m k v k' = if k' = k then some v else m k' := by
  unfold emplace
  rw [h]
  exact Function.update_apply ..

theorem emplace_of_bound {m : α → Option β} {k : α} {w : β} (h : m k = some w) (v : β) : emplace m k v = m := by
  unfold emplace
  rw [h]

/-- A partial bijection, as its two directions. -/
structure Bimap (α β : Type) [DecidableEq α] [DecidableEq β] where
  left : α → Option β
  right : β → Option α
  agree : ∀ a b, left a = some b ↔ right b = some a

namespace Bimap

variable [DecidableEq β]

def empty : Bimap α β := ⟨fun _ => none, fun _ => none, by simp⟩

/-- Relate `a` and `b` if both are free. -/
def insert (m : Bimap α β) (a : α) (b : β) : Bimap α β :=
  if h : m.left a = none ∧ m.right b = none then
    { left := Function.update m.left a (some b)
      right := Function.update m.right b (some a)
      agree := by
        intro a' b'
        rw [Function.update_apply, Function.update_apply]
        have h1 := m.agree a' b'
        by_cases ha : a' = a <;> by_cases hb : b' = b
        · simp [ha, hb]
        · subst ha
          simp only [if_pos, if_neg hb, Option.some.injEq]
          rw [h.1] at h1
          constructor
          · intro e; exact absurd e.symm hb
          · intro e; exact absurd (h1.2 e) (by simp)
        · subst hb
          simp only [if_pos, if_neg ha, Option.some.injEq]
          rw [h.2] at h1
          constructor
          · intro e; exact absurd (h1.1 e) (by simp)
          · intro e; exact absurd e.symm ha
        · rw [if_neg ha, if_neg hb]; exact h1 }
  else m

theorem left_insert {m : Bimap α β} {a : α} {b : β} (ha : m.left a = none) (hb : m.right b = none) (a' : α) :
    (m.insert a b).left a' = if a' = a then some b else m.left a' := by
  unfold insert
  rw [dif_pos ⟨ha, hb⟩]
  exact Function.update_apply ..

theorem insert_of_bound {m : Bimap α β} {a : α} {b : β} (ha : m.left a ≠ none) : m.insert a b = m := by
  unfold insert
  rw [dif_neg fun h => ha h.1]

/-- Only the new key may have become bound. -/
theorem left_of_insert_ne_none {m : Bimap α β} {a : α} {b : β} {a' : α} (h : (m.insert a b).left a' ≠ none) :
    m.left a' ≠ none ∨ a' = a := by
  by_cases hfree : m.left a = none ∧ m.right b = none
  · rw [left_insert hfree.1 hfree.2] at h
    by_cases ha : a' = a
    · exact Or.inr ha
    · rw [if_neg ha] at h
      exact Or.inl h
  · rw [insert, dif_neg hfree] at h
    exact Or.inl h

end Bimap

end Base
