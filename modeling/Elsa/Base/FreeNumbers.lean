import Mathlib.Algebra.Order.Ring.Int
import Mathlib.Data.List.Nodup
import Mathlib.Data.List.Perm.Subperm

/-!
# Free numbers

The first number from some start on that is not in a list, and the next ones after it.  They depend only on which
numbers are in the list (`takeFree_congr`).
-/

namespace Base

/-- The first number from `c` on that is not used, searched for `fuel` steps; as many steps as there are used
numbers are enough. -/
def firstFree (used : List Int) : Nat → Int → Int
  | 0, c => c
  | fuel + 1, c => if c ∈ used then firstFree used fuel (c + 1) else c

variable {used used' : List Int} {fuel n : Nat} {c x : Int}

private theorem le_firstFree : c ≤ firstFree used fuel c := by
  induction fuel generalizing c with
  | zero => exact le_refl c
  | succ fuel ih =>
    unfold firstFree
    split
    · have := ih (c := c + 1)
      omega
    · exact le_refl c

private theorem mem_of_lt_firstFree (h1 : c ≤ x) (h2 : x < firstFree used fuel c) : x ∈ used := by
  induction fuel generalizing c with
  | zero =>
    unfold firstFree at h2
    omega
  | succ fuel ih =>
    unfold firstFree at h2
    split at h2
    · next hc =>
      by_cases hx : x = c
      · exact hx ▸ hc
      · exact ih (by omega) h2
    · omega

private theorem firstFree_eq_or (used : List Int) (fuel : Nat) (c : Int) :
    firstFree used fuel c = c + fuel ∨ firstFree used fuel c ∉ used := by
  induction fuel generalizing c with
  | zero => exact Or.inl (Int.add_zero c).symm
  | succ fuel ih =>
    unfold firstFree
    split
    · rcases ih (c + 1) with h | h
      · refine Or.inl ?_
        push_cast
        omega
      · exact Or.inr h
    · next hc => exact Or.inr hc

/-- A list of `n` numbers does not contain `n + 1` numbers in a row. -/
private theorem firstFree_not_mem (h : used.length ≤ fuel) : firstFree used fuel c ∉ used := by
  intro hmem
  have heq : firstFree used fuel c = c + fuel := (firstFree_eq_or used fuel c).resolve_right fun hn => hn hmem
  have hnodup : ((List.range (fuel + 1)).map fun i : Nat => c + (i : Int)).Nodup := by
    refine List.nodup_range.map fun i j hij => ?_
    have hij : c + (i : Int) = c + j := hij
    omega
  have hsub : ((List.range (fuel + 1)).map fun i : Nat => c + (i : Int)) ⊆ used := by
    intro y hy
    obtain ⟨i, hi, rfl⟩ := List.mem_map.1 hy
    rw [List.mem_range] at hi
    by_cases hlast : i = fuel
    · rw [hlast, ← heq]
      exact hmem
    · have hlt : c + (i : Int) < firstFree used fuel c := by omega
      exact mem_of_lt_firstFree (by omega) hlt
  have hle := (List.subperm_of_subset hnodup hsub).length_le
  rw [List.length_map, List.length_range] at hle
  omega

private theorem firstFree_congr (h : ∀ y, y ∈ used ↔ y ∈ used') :
    firstFree used used.length c = firstFree used' used'.length c := by
  have h1 : firstFree used used.length c ∉ used := firstFree_not_mem (le_refl _)
  have h2 : firstFree used' used'.length c ∉ used' := firstFree_not_mem (le_refl _)
  rcases lt_trichotomy (firstFree used used.length c) (firstFree used' used'.length c) with hlt | heq | hlt
  · exact absurd ((h _).2 (mem_of_lt_firstFree le_firstFree hlt)) h1
  · exact heq
  · exact absurd ((h _).1 (mem_of_lt_firstFree le_firstFree hlt)) h2

/-- The first `n` numbers from `c` on that are not used. -/
def takeFree : Nat → List Int → Int → List Int
  | 0, _, _ => []
  | n + 1, used, c =>
    firstFree used used.length c :: takeFree n (firstFree used used.length c :: used)
      (firstFree used used.length c + 1)

theorem not_mem_of_mem_takeFree (h : x ∈ takeFree n used c) : x ∉ used := by
  induction n generalizing used c with
  | zero => cases h
  | succ n ih =>
    rcases List.mem_cons.1 h with rfl | h
    · exact firstFree_not_mem (le_refl _)
    · exact fun hx => ih h (List.mem_cons_of_mem _ hx)

theorem nodup_takeFree : (takeFree n used c).Nodup := by
  induction n generalizing used c with
  | zero => exact List.nodup_nil
  | succ n ih => exact List.nodup_cons.2 ⟨fun h => not_mem_of_mem_takeFree h List.mem_cons_self, ih⟩

theorem length_takeFree : (takeFree n used c).length = n := by
  induction n generalizing used c with
  | zero => rfl
  | succ n ih => exact congrArg (· + 1) ih

theorem takeFree_congr (h : ∀ y, y ∈ used ↔ y ∈ used') : takeFree n used c = takeFree n used' c := by
  induction n generalizing used used' c with
  | zero => rfl
  | succ n ih =>
    unfold takeFree
    have hcons : ∀ y, y ∈ firstFree used' used'.length c :: used ↔ y ∈ firstFree used' used'.length c :: used' := by
      intro y
      rw [List.mem_cons, List.mem_cons, h y]
    rw [firstFree_congr h, ih hcons]

end Base
