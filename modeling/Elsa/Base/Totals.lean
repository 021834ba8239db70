import Mathlib.Algebra.BigOperators.Group.Finset.Basic
import Mathlib.Algebra.BigOperators.Group.Finset.Piecewise
import Mathlib.Algebra.BigOperators.Group.List.Basic
import Mathlib.Algebra.Order.BigOperators.Group.List
import Mathlib.Algebra.Order.Ring.Int
import Mathlib.Data.List.Dedup

/-!
# Totals by key

`totalAt key val xs k` adds up `val` over the elements of a list whose key is `k`.  Totals are additive in the list
and in the values; with keys that are not repeated, a total is the value of one element.  Of positive values, a sum
is the one over the different elements exactly when none is repeated (`sum_eq_sum_dedup_iff`).
-/

namespace Base

/-- Names that are not repeated stay so when an element with a new name comes last. -/
theorem nodup_map_concat {α β : Type} {name : α → β} {xs : List α} {x : α} (h : (xs.map name).Nodup)
    (hx : name x ∉ xs.map name) : ((xs ++ [x]).map name).Nodup := by
  rw [List.map_append, List.map_singleton, List.nodup_append]
  refine ⟨h, List.pairwise_singleton _ _, ?_⟩
  rintro y hy z hz rfl
  rw [List.mem_singleton.1 hz] at hy
  exact hx hy

/-- Names that are not repeated: another name is not repeated among elements where it tells the first one. -/
theorem nodup_map_filter {α β γ : Type} {name : α → β} {f : α → γ} {p : α → Bool} {xs : List α}
    (h : (xs.map name).Nodup) (hf : ∀ x y, p x = true → p y = true → f x = f y → name x = name y) :
    ((xs.filter p).map f).Nodup := by
  refine ((h.of_map name).filter p).map_on fun x hx y hy heq => ?_
  obtain ⟨hx, hpx⟩ := List.mem_filter.1 hx
  obtain ⟨hy, hpy⟩ := List.mem_filter.1 hy
  exact List.inj_on_of_nodup_map h hx hy (hf x y hpx hpy heq)

/-- Names that are not repeated: an element is found by its name. -/
theorem find?_of_nodup_map {α β : Type} [DecidableEq β] {name : α → β} {xs : List α} {x : α} {b : β}
    (h : (xs.map name).Nodup) (hx : x ∈ xs) (hb : name x = b) : xs.find? (fun y => name y = b) = some x := by
  cases hfind : xs.find? fun y => name y = b with
  | none => exact absurd (decide_eq_true hb) (List.find?_eq_none.1 hfind x hx)
  | some y =>
    have hy : name y = b := by simpa using List.find?_some hfind
    rw [List.inj_on_of_nodup_map h (List.mem_of_find?_eq_some hfind) hx (hy.trans hb.symm)]

/-- Names that are not repeated: one element has the name of an element. -/
theorem filter_name_eq {α β : Type} [DecidableEq β] {name : α → β} {xs : List α} {x : α} (h : (xs.map name).Nodup)
    (hx : x ∈ xs) : xs.filter (fun y => decide (name y = name x)) = [x] := by
  induction xs with
  | nil => cases hx
  | cons y ys ih =>
    rw [List.map_cons, List.nodup_cons] at h
    rcases List.mem_cons.1 hx with rfl | hx
    · rw [List.filter_cons_of_pos (by simp), List.filter_eq_nil_iff.2 fun y hy heq => ?_]
      exact h.1 (of_decide_eq_true heq ▸ List.mem_map_of_mem hy)
    · rw [List.filter_cons_of_neg, ih h.2 hx]
      exact fun heq => h.1 (of_decide_eq_true heq ▸ List.mem_map_of_mem hx)

/-- Names that are not repeated: leaving out a name leaves out one element. -/
theorem filter_name_ne {α β : Type} [DecidableEq β] {name : α → β} {xs ys : List α} {x : α}
    (h : ((xs ++ x :: ys).map name).Nodup) :
    (xs ++ x :: ys).filter (fun y => decide (name y ≠ name x)) = xs ++ ys := by
  rw [List.map_append, List.map_cons, List.nodup_middle, List.nodup_cons, ← List.map_append] at h
  rw [List.filter_append, List.filter_cons_of_neg (by simp), ← List.filter_append]
  exact List.filter_eq_self.2 fun y hy => decide_eq_true fun heq => h.1 (heq ▸ List.mem_map_of_mem hy)

/-- If no two elements of a list have a property, at most one has it. -/
theorem length_filter_le_one {α : Type} {p : α → Bool} {xs : List α}
    (h : xs.Pairwise fun x y => p x = true → ¬ p y = true) : (xs.filter p).length ≤ 1 := by
  induction xs with
  | nil => exact Nat.zero_le 1
  | cons x xs ih =>
    obtain ⟨hx, hxs⟩ := List.pairwise_cons.1 h
    by_cases hp : p x = true
    · have hnone : xs.filter p = [] := List.filter_eq_nil_iff.2 fun y hy => hx y hy hp
      rw [List.filter_cons_of_pos hp, hnone]
      exact Nat.le_refl 1
    · rw [List.filter_cons_of_neg hp]
      exact ih hxs

/-- Counting repeated elements once makes no difference exactly when there are none. -/
theorem sum_eq_sum_dedup_iff {α M : Type} [DecidableEq α] [AddCommMonoid M] [PartialOrder M]
    [IsOrderedCancelAddMonoid M] {l : List α} {f : α → M} (hpos : ∀ a ∈ l, 0 < f a) :
    (l.map f).sum = (l.dedup.map f).sum ↔ l.Nodup := by
  constructor
  · intro h
    -- what is left out is worth nothing, so nothing is left out
    obtain ⟨rest, hperm⟩ := (List.dedup_sublist l).exists_perm_append
    have hsum : (l.map f).sum = (l.dedup.map f).sum + (rest.map f).sum := by
      rw [(hperm.map f).sum_eq, List.map_append, List.sum_append]
    have hzero : (rest.map f).sum = 0 := by
      rw [h] at hsum
      exact (left_eq_add.1 hsum)
    have hnil : rest = [] := by
      by_contra hne
      have hrest : ∀ x ∈ rest.map f, 0 < x := by
        intro x hx
        obtain ⟨a, ha, rfl⟩ := List.mem_map.1 hx
        exact hpos a (hperm.mem_iff.2 (List.mem_append_right _ ha))
      exact absurd hzero (List.sum_pos _ hrest (by simpa using hne)).ne'
    rw [hnil, List.append_nil] at hperm
    exact hperm.nodup_iff.2 (List.nodup_dedup l)
  · intro h
    rw [h.dedup]

variable {α β : Type} [DecidableEq β] (key : α → β) (val : α → Int)

def totalAt (xs : List α) (k : β) : Int := (xs.map fun x => if key x = k then val x else 0).sum

@[simp] theorem totalAt_nil (k : β) : totalAt key val [] k = 0 := rfl

theorem totalAt_cons (x : α) (xs : List α) (k : β) :
    totalAt key val (x :: xs) k = (if key x = k then val x else 0) + totalAt key val xs k := rfl

theorem totalAt_append (xs ys : List α) (k : β) :
    totalAt key val (xs ++ ys) k = totalAt key val xs k + totalAt key val ys k := by
  simp [totalAt]

theorem totalAt_map {γ : Type} (f : γ → α) (xs : List γ) (k : β) :
    totalAt key val (xs.map f) k = totalAt (fun x => key (f x)) (fun x => val (f x)) xs k := by
  simp [totalAt, Function.comp_def]

theorem totalAt_zipIdx (xs : List α) (n : Nat) (k : β) :
    totalAt (fun x => key x.1) (fun x => val x.1) (xs.zipIdx n) k = totalAt key val xs k := by
  rw [← totalAt_map key val Prod.fst, List.zipIdx_map_fst]

theorem totalAt_filter (p : α → Bool) (xs : List α) (k : β) :
    totalAt key val (xs.filter p) k = totalAt key (fun x => if p x then val x else 0) xs k := by
  induction xs with
  | nil => rfl
  | cons x xs ih =>
    rw [List.filter_cons, totalAt_cons, ← ih]
    cases p x
    · simp
    · rw [if_pos rfl, totalAt_cons, if_pos rfl]

variable {key val} {xs ys : List α} {k : β}

theorem totalAt_perm (h : xs.Perm ys) (k : β) : totalAt key val xs k = totalAt key val ys k :=
  (h.map _).sum_eq

theorem totalAt_eq_zero (h : ∀ x ∈ xs, key x ≠ k) : totalAt key val xs k = 0 := by
  refine List.sum_eq_zero fun v hv => ?_
  obtain ⟨x, hx, rfl⟩ := List.mem_map.1 hv
  exact if_neg (h x hx)

theorem totalAt_nonneg (h : ∀ x ∈ xs, 0 ≤ val x) (k : β) : 0 ≤ totalAt key val xs k := by
  refine List.sum_nonneg fun v hv => ?_
  obtain ⟨x, hx, rfl⟩ := List.mem_map.1 hv
  split
  · exact h x hx
  · exact le_refl 0

theorem totalAt_congr {val' : α → Int} (h : ∀ x ∈ xs, key x = k → val x = val' x) :
    totalAt key val xs k = totalAt key val' xs k := by
  refine congrArg List.sum (List.map_congr_left fun x hx => ?_)
  split
  · rename_i hk; exact h x hx hk
  · rfl

theorem totalAt_add (val val' : α → Int) (xs : List α) (k : β) :
    totalAt key (fun x => val x + val' x) xs k = totalAt key val xs k + totalAt key val' xs k := by
  induction xs with
  | nil => rfl
  | cons x xs ih =>
    rw [totalAt_cons, totalAt_cons, totalAt_cons, ih]
    split <;> omega

/-- A value at one element only, told by a name that is not repeated. -/
theorem totalAt_single {γ : Type} [DecidableEq γ] {name : α → γ} (hnd : (xs.map name).Nodup) {x : α} (hx : x ∈ xs)
    (k : β) :
    totalAt key (fun y => if name y = name x then val y else 0) xs k = if key x = k then val x else 0 := by
  induction xs with
  | nil => cases hx
  | cons y ys ih =>
    rw [List.map_cons, List.nodup_cons] at hnd
    rw [totalAt_cons]
    rcases List.mem_cons.1 hx with rfl | hx'
    · have hother : ∀ z ∈ ys, key z = k → (if name z = name x then val z else 0) = 0 := fun z hz _ =>
        if_neg fun he => hnd.1 (List.mem_map.2 ⟨z, hz, he⟩)
      have hzero : totalAt key (fun y => if name y = name x then val y else 0) ys k = 0 := by
        rw [totalAt_congr hother]
        simp [totalAt]
      rw [if_pos rfl, hzero, Int.add_zero]
    · have hne : name y ≠ name x := fun he => hnd.1 (List.mem_map.2 ⟨x, hx', he.symm⟩)
      rw [if_neg hne, ih hnd.2 hx', ite_self, Int.zero_add]

/-- With keys that are not repeated, a total is the value of one element. -/
theorem totalAt_of_mem (hnd : (xs.map key).Nodup) {x : α} (hx : x ∈ xs) : totalAt key val xs (key x) = val x := by
  have hval : ∀ y ∈ xs, key y = key x → val y = if key y = key x then val y else 0 := fun y _ hy => (if_pos hy).symm
  rw [totalAt_congr hval, totalAt_single hnd hx, if_pos rfl]

/-- Totals of totals: where each part names one element by a name that is not repeated, the parts can be added up
under the key of the element they name. -/
theorem totalAt_totalAt {γ δ : Type} [DecidableEq γ] {name : α → γ} {part : δ → γ} {owner : δ → β} {amount : δ → Int}
    {parts : List δ} (hnd : (xs.map name).Nodup) (h : ∀ p ∈ parts, ∃ x ∈ xs, name x = part p ∧ key x = owner p)
    (k : β) : totalAt key (fun x => totalAt part amount parts (name x)) xs k = totalAt owner amount parts k := by
  induction parts with
  | nil => simp [totalAt]
  | cons p parts ih =>
    obtain ⟨x, hx, hname, howner⟩ := h p (by simp)
    have hfirst : ∀ y ∈ xs, key y = k → totalAt part amount (p :: parts) (name y) =
        (if name y = name x then amount p else 0) + totalAt part amount parts (name y) := by
      intro y _ _
      rw [totalAt_cons, hname]
      simp only [eq_comm]
    rw [totalAt_congr hfirst, totalAt_add, totalAt_single hnd hx, ih fun q hq => h q (List.mem_cons_of_mem _ hq),
      totalAt_cons, howner]

theorem totalAt_const_zero (xs : List α) (k : β) : totalAt key (fun _ => 0) xs k = 0 := by
  simp [totalAt]

/-- The totals of all keys add up to the sum of the values. -/
theorem sum_totalAt {keys : Finset β} (h : ∀ x ∈ xs, key x ∈ keys) :
    ∑ k ∈ keys, totalAt key val xs k = (xs.map val).sum := by
  induction xs with
  | nil => exact Finset.sum_const_zero
  | cons x xs ih =>
    obtain ⟨hx, hxs⟩ := List.forall_mem_cons.1 h
    rw [Finset.sum_congr rfl fun k _ => totalAt_cons key val x xs k, Finset.sum_add_distrib, Finset.sum_ite_eq,
      if_pos hx, ih hxs, List.map_cons, List.sum_cons]

end Base
