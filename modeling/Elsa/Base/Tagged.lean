import Mathlib.Data.List.Basic
import Mathlib.Data.List.Infix

/-!
# Lists of tagged values

`tagged k l` are the values of a list that carry the tag `k`.  Taking them out keeps the order, so that sublists,
first parts and last parts stay such.
-/

namespace Base

section

variable {κ α : Type} [DecidableEq κ]

def tagged (k : κ) (l : List (κ × α)) : List α := (l.filter fun p => p.1 = k).map Prod.snd

@[simp] theorem tagged_nil (k : κ) : tagged k ([] : List (κ × α)) = [] := rfl

@[simp] theorem tagged_append (k : κ) (l l' : List (κ × α)) : tagged k (l ++ l') = tagged k l ++ tagged k l' := by
  rw [tagged, List.filter_append, List.map_append, tagged, tagged]

theorem tagged_map (k k' : κ) (values : List α) :
    tagged k (values.map fun v => (k', v)) = if k' = k then values else [] := by
  induction values with
  | nil => simp
  | cons v values ih =>
    rw [List.map_cons, ← List.singleton_append, tagged_append, ih]
    split
    · rename_i hk
      simp [tagged, hk]
    · rename_i hk
      simp [tagged, hk]

theorem tagged_singleton (k k' : κ) (v : α) : tagged k [(k', v)] = if k' = k then [v] else [] := tagged_map k k' [v]

theorem tagged_sublist (k : κ) {l l' : List (κ × α)} (h : l.Sublist l') : (tagged k l).Sublist (tagged k l') :=
  (h.filter _).map _

theorem length_tagged_le (k : κ) (l : List (κ × α)) : (tagged k l).length ≤ l.length := by
  rw [tagged, List.length_map]
  exact List.length_filter_le _ _

theorem tagged_suffix (k : κ) {l l' : List (κ × α)} (h : l <:+ l') : tagged k l <:+ tagged k l' := by
  obtain ⟨first, rfl⟩ := h
  rw [tagged_append]
  exact List.suffix_append _ _

end

/-- The last part of a first part. -/
theorem infix_of_suffix_of_prefix {α : Type} {l l' l'' : List α} (h : l <:+ l') (h' : l' <+: l'') : l <:+: l'' :=
  h.isInfix.trans h'.isInfix

end Base
