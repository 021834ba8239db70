import Elsa.Base.Totals

/-!
# Greedy allotment

A demand `q` is met from a list of lots, front first: every lot is used up before the next one is touched.  `allot`
lists what is taken from which lot, `leftover` what remains of the list and `unmet` what remains of the demand.
`allot_cases` says once and for all what can happen: a prefix of the lots is used up, and after it at most one lot is
taken in part.  Everything else (the amounts taken, the lots that remain, concatenation) follows from it.
-/

namespace Base

/-- Lots with a size, a way to cut an amount off, and a name that cutting does not change. -/
structure Lots (α β : Type) where
  cap : α → Int
  cut : α → Int → α
  key : α → β
  cut_zero : ∀ x, cut x 0 = x
  cap_cut : ∀ x k, cap (cut x k) = cap x - k
  key_cut : ∀ x k, key (cut x k) = key x

namespace Lots

variable {α β : Type} (S : Lots α β)

def allot : Int → List α → List (α × Int)
  | _, [] => []
  | q, x :: xs => if q ≤ 0 then [] else if S.cap x ≤ q then (x, S.cap x) :: allot (q - S.cap x) xs else [(x, q)]

def unmet : Int → List α → Int
  | q, [] => q
  | q, x :: xs => if q ≤ 0 then q else if S.cap x ≤ q then unmet (q - S.cap x) xs else 0

def leftover : Int → List α → List α
  | _, [] => []
  | q, x :: xs => if q ≤ 0 then x :: xs else if S.cap x ≤ q then leftover (q - S.cap x) xs else S.cut x q :: xs

/-- A lot together with its whole size. -/
def whole (x : α) : α × Int := (x, S.cap x)

/-! ### No demand, and concatenation -/

theorem allot_of_nonpos {q : Int} (hq : q ≤ 0) (xs : List α) : S.allot q xs = [] := by
  cases xs with
  | nil => rfl
  | cons x xs => rw [allot, if_pos hq]

theorem unmet_of_nonpos {q : Int} (hq : q ≤ 0) (xs : List α) : S.unmet q xs = q := by
  cases xs with
  | nil => rfl
  | cons x xs => rw [unmet, if_pos hq]

theorem leftover_of_nonpos {q : Int} (hq : q ≤ 0) (xs : List α) : S.leftover q xs = xs := by
  cases xs with
  | nil => rfl
  | cons x xs => rw [leftover, if_pos hq]

theorem allot_append (q : Int) (xs ys : List α) :
    S.allot q (xs ++ ys) = S.allot q xs ++ S.allot (S.unmet q xs) ys := by
  induction xs generalizing q with
  | nil => rfl
  | cons x xs ih =>
    rw [List.cons_append, allot, allot, unmet]
    split
    · rename_i hq; rw [S.allot_of_nonpos hq]; rfl
    · split
      · rw [ih]; rfl
      · rw [S.allot_of_nonpos (le_refl 0)]; rfl

theorem unmet_append (q : Int) (xs ys : List α) : S.unmet q (xs ++ ys) = S.unmet (S.unmet q xs) ys := by
  induction xs generalizing q with
  | nil => rfl
  | cons x xs ih =>
    rw [List.cons_append, unmet, unmet]
    split
    · rename_i hq; rw [S.unmet_of_nonpos hq]
    · split
      · rw [ih]
      · rw [S.unmet_of_nonpos (le_refl 0)]

theorem leftover_append (q : Int) (xs ys : List α) :
    S.leftover q (xs ++ ys) = S.leftover q xs ++ S.leftover (S.unmet q xs) ys := by
  induction xs generalizing q with
  | nil => rfl
  | cons x xs ih =>
    rw [List.cons_append, leftover, leftover, unmet]
    split
    · rename_i hq; rw [S.leftover_of_nonpos hq]; rfl
    · split
      · rw [ih]
      · rw [S.leftover_of_nonpos (le_refl 0)]; rfl

/-! ### Lots under another description -/

section map

variable {α' β' : Type} (S' : Lots α' β') {h : α → α'} (hcap : ∀ x, S'.cap (h x) = S.cap x)

include hcap in
theorem allot_map (q : Int) (xs : List α) : S'.allot q (xs.map h) = (S.allot q xs).map (Prod.map h id) := by
  induction xs generalizing q with
  | nil => rfl
  | cons x xs ih =>
    rw [List.map_cons, allot, allot, hcap]
    split
    · rfl
    · split
      · rw [ih]; rfl
      · rfl

include hcap in
theorem unmet_map (q : Int) (xs : List α) : S'.unmet q (xs.map h) = S.unmet q xs := by
  induction xs generalizing q with
  | nil => rfl
  | cons x xs ih => rw [List.map_cons, unmet, unmet, hcap, ih]

include hcap in
theorem leftover_map (hcut : ∀ x k, S'.cut (h x) k = h (S.cut x k)) (q : Int) (xs : List α) :
    S'.leftover q (xs.map h) = (S.leftover q xs).map h := by
  induction xs generalizing q with
  | nil => rfl
  | cons x xs ih =>
    rw [List.map_cons, leftover, leftover, hcap]
    split
    · rfl
    · split
      · rw [ih]
      · rw [hcut]; rfl

end map

/-! ### What an allotment looks like -/

/-- A prefix of the lots is used up; then the demand is met, or the lots are at an end, or one more lot is cut. -/
theorem allot_cases {q : Int} (hq : 0 ≤ q) (xs : List α) :
    ∃ ys zs, xs = ys ++ zs ∧
      ((S.allot q xs = ys.map S.whole ∧ S.leftover q xs = zs ∧ (S.unmet q xs = 0 ∨ zs = [])) ∨
        ∃ z zs' k, zs = z :: zs' ∧ 0 < k ∧ k < S.cap z ∧ S.allot q xs = ys.map S.whole ++ [(z, k)] ∧
          S.leftover q xs = S.cut z k :: zs' ∧ S.unmet q xs = 0) := by
  induction xs generalizing q with
  | nil => exact ⟨[], [], rfl, Or.inl ⟨rfl, rfl, Or.inr rfl⟩⟩
  | cons x xs ih =>
    rw [allot, leftover, unmet]
    split
    · exact ⟨[], x :: xs, rfl, Or.inl ⟨rfl, rfl, Or.inl (by omega)⟩⟩
    · split
      · obtain ⟨ys, zs, rfl, h⟩ := ih (q := q - S.cap x) (by omega)
        refine ⟨x :: ys, zs, rfl, ?_⟩
        rcases h with ⟨h1, h2, h3⟩ | ⟨z, zs', k, h1, h2, h3, h4, h5, h6⟩
        · exact Or.inl ⟨by rw [h1]; rfl, h2, h3⟩
        · exact Or.inr ⟨z, zs', k, h1, h2, h3, by rw [h4]; rfl, h5, h6⟩
      · exact ⟨[], x :: xs, rfl, Or.inr ⟨x, xs, q, rfl, by omega, by omega, rfl, rfl, rfl⟩⟩

theorem unmet_nonneg {q : Int} (hq : 0 ≤ q) (xs : List α) : 0 ≤ S.unmet q xs := by
  induction xs generalizing q with
  | nil => exact hq
  | cons x xs ih =>
    rw [unmet]
    split
    · exact hq
    · split
      · exact ih (by omega)
      · exact le_refl 0

/-- The demand that remains is what exceeds the lots. -/
theorem unmet_eq {q : Int} (hq : 0 ≤ q) {xs : List α} (hpos : ∀ x ∈ xs, 0 < S.cap x) :
    S.unmet q xs = if (xs.map S.cap).sum ≤ q then q - (xs.map S.cap).sum else 0 := by
  induction xs generalizing q with
  | nil => rw [unmet, List.map_nil, List.sum_nil, if_pos hq, Int.sub_zero]
  | cons x xs ih =>
    have hx := hpos x (by simp)
    have hxs : ∀ y ∈ xs, 0 < S.cap y := fun y hy => hpos y (List.mem_cons_of_mem _ hy)
    have hsum : 0 ≤ (xs.map S.cap).sum :=
      List.sum_nonneg fun c hc => by
        obtain ⟨y, hy, rfl⟩ := List.mem_map.1 hc
        exact (hxs y hy).le
    rw [unmet, List.map_cons, List.sum_cons]
    split
    · rw [if_neg (by omega)]; omega
    · split
      · rw [ih (by omega) hxs]
        split <;> split <;> omega
      · rw [if_neg (by omega)]

/-- If some demand is left then every lot was used up. -/
theorem leftover_of_unmet_pos {q : Int} (hq : 0 ≤ q) {xs : List α} (h : 0 < S.unmet q xs) :
    S.leftover q xs = [] := by
  obtain ⟨ys, zs, -, h'⟩ := S.allot_cases hq xs
  rcases h' with ⟨-, h2, h3 | h3⟩ | ⟨z, zs', k, -, -, -, -, -, h6⟩
  · omega
  · rw [h2, h3]
  · omega

theorem sum_allot (q : Int) (xs : List α) : ((S.allot q xs).map Prod.snd).sum = q - S.unmet q xs := by
  induction xs generalizing q with
  | nil => simp [allot, unmet]
  | cons x xs ih =>
    rw [allot, unmet]
    split
    · simp
    · split
      · rw [List.map_cons, List.sum_cons, ih]; omega
      · simp

/-- At prices that are not negative, what is allotted costs at most what there is. -/
theorem cost_allot_le {price : α → Int} {xs : List α} (hprice : ∀ x ∈ xs, 0 ≤ price x)
    (hpos : ∀ x ∈ xs, 0 < S.cap x) (q : Int) :
    ((S.allot q xs).map fun f => price f.1 * f.2).sum ≤ (xs.map fun x => price x * S.cap x).sum := by
  induction xs generalizing q with
  | nil => exact Int.le_refl 0
  | cons x xs ih =>
    have hrest := ih (fun y hy => hprice y (List.mem_cons_of_mem _ hy))
        (fun y hy => hpos y (List.mem_cons_of_mem _ hy))
    have hzero := S.allot_of_nonpos (Int.le_refl 0) xs ▸ hrest 0
    have hx := hprice x List.mem_cons_self
    have hcap := hpos x List.mem_cons_self
    have hworth : 0 ≤ price x * S.cap x := Int.mul_nonneg hx hcap.le
    rw [List.map_cons, List.sum_cons, allot]
    simp only [List.map_nil, List.sum_nil] at hzero
    split
    · simp only [List.map_nil, List.sum_nil]
      omega
    split
    · simp only [List.map_cons, List.sum_cons]
      exact Int.add_le_add_left (hrest _) _
    · -- the last lot is not used up
      rename_i hlt
      have hpart : price x * q ≤ price x * S.cap x := Int.mul_le_mul_of_nonneg_left (by omega) hx
      simp only [List.map_cons, List.map_nil, List.sum_cons, List.sum_nil]
      omega

theorem allot_fst_prefix (q : Int) (xs : List α) : (S.allot q xs).map Prod.fst <+: xs := by
  induction xs generalizing q with
  | nil => exact List.prefix_rfl
  | cons x xs ih =>
    rw [allot]
    split
    · exact List.nil_prefix
    · split
      · rw [List.map_cons]; exact (List.prefix_cons_inj x).2 (ih _)
      · exact (List.prefix_cons_inj x).2 List.nil_prefix

theorem mem_allot {q : Int} (hq : 0 ≤ q) {xs : List α} (hpos : ∀ x ∈ xs, 0 < S.cap x) {f : α × Int}
    (hf : f ∈ S.allot q xs) : f.1 ∈ xs ∧ 0 < f.2 ∧ f.2 ≤ S.cap f.1 := by
  have hmem : f.1 ∈ xs := (S.allot_fst_prefix q xs).subset (List.mem_map.2 ⟨f, hf, rfl⟩)
  refine ⟨hmem, ?_⟩
  obtain ⟨ys, zs, rfl, h⟩ := S.allot_cases hq xs
  rcases h with ⟨h1, -, -⟩ | ⟨z, zs', k, -, h2, h3, h4, -, -⟩
  · rw [h1] at hf
    obtain ⟨y, -, rfl⟩ := List.mem_map.1 hf
    exact ⟨hpos y hmem, le_refl _⟩
  · rw [h4, List.mem_append] at hf
    rcases hf with hf | hf
    · obtain ⟨y, -, rfl⟩ := List.mem_map.1 hf
      exact ⟨hpos y hmem, le_refl _⟩
    · obtain rfl := List.mem_singleton.1 hf
      exact ⟨h2, h3.le⟩

theorem leftover_pos {q : Int} (hq : 0 ≤ q) {xs : List α} (hpos : ∀ x ∈ xs, 0 < S.cap x) {x' : α}
    (hx : x' ∈ S.leftover q xs) : 0 < S.cap x' := by
  obtain ⟨ys, zs, rfl, h⟩ := S.allot_cases hq xs
  rcases h with ⟨-, h2, -⟩ | ⟨z, zs', k, rfl, h2, h3, -, h5, -⟩
  · rw [h2] at hx; exact hpos x' (List.mem_append_right _ hx)
  · rw [h5] at hx
    rcases List.mem_cons.1 hx with rfl | hx
    · rw [S.cap_cut]; omega
    · exact hpos x' (by simp [hx])

/-- In all that cutting does not change, the lots that remain are a suffix of the lots. -/
theorem leftover_suffix {γ : Type} {g : α → γ} (hg : ∀ x k, g (S.cut x k) = g x) {q : Int} (hq : 0 ≤ q)
    (xs : List α) : (S.leftover q xs).map g <:+ xs.map g := by
  obtain ⟨ys, zs, rfl, h⟩ := S.allot_cases hq xs
  rcases h with ⟨-, h2, -⟩ | ⟨z, zs', k, rfl, -, -, -, h5, -⟩
  · rw [h2, List.map_append]; exact List.suffix_append _ _
  · rw [h5, List.map_append, List.map_cons, List.map_cons, hg]; exact List.suffix_append _ _

/-- A lot that remains is one of the lots, with something cut off. -/
theorem mem_leftover {q : Int} (hq : 0 ≤ q) {xs : List α} {x' : α} (hx : x' ∈ S.leftover q xs) :
    ∃ x ∈ xs, ∃ k, x' = S.cut x k := by
  obtain ⟨ys, zs, rfl, h⟩ := S.allot_cases hq xs
  rcases h with ⟨-, h2, -⟩ | ⟨z, zs', k, rfl, -, -, -, h5, -⟩
  · rw [h2] at hx
    exact ⟨x', List.mem_append_right _ hx, 0, (S.cut_zero x').symm⟩
  · rw [h5] at hx
    rcases List.mem_cons.1 hx with rfl | hx
    · exact ⟨z, by simp, k, rfl⟩
    · exact ⟨x', by simp [hx], 0, (S.cut_zero x').symm⟩

/-- What is cut off a lot that remains is not negative. -/
theorem mem_leftover_nonneg {q : Int} (hq : 0 ≤ q) {xs : List α} {x' : α} (hx : x' ∈ S.leftover q xs) :
    ∃ x ∈ xs, ∃ k, 0 ≤ k ∧ x' = S.cut x k := by
  obtain ⟨ys, zs, rfl, h⟩ := S.allot_cases hq xs
  rcases h with ⟨-, h2, -⟩ | ⟨z, zs', k, rfl, hk, -, -, h5, -⟩
  · rw [h2] at hx
    exact ⟨x', List.mem_append_right _ hx, 0, le_refl 0, (S.cut_zero x').symm⟩
  · rw [h5] at hx
    rcases List.mem_cons.1 hx with rfl | hx
    · exact ⟨z, by simp, k, hk.le, rfl⟩
    · exact ⟨x', by simp [hx], 0, le_refl 0, (S.cut_zero x').symm⟩

/-- Each lot is used up or remains, and one lot at most is taken from and remains; if some demand is left there is
none. -/
theorem length_allot_add_leftover {q : Int} (hq : 0 ≤ q) (xs : List α) :
    (S.allot q xs).length + (S.leftover q xs).length + (if 0 < S.unmet q xs then 1 else 0) ≤ xs.length + 1 := by
  obtain ⟨ys, zs, rfl, h⟩ := S.allot_cases hq xs
  rcases h with ⟨h1, h2, -⟩ | ⟨z, zs', k, rfl, -, -, h4, h5, h6⟩
  · rw [h1, h2, List.length_map, List.length_append]
    split <;> omega
  · rw [h4, h5, h6, if_neg (lt_irrefl 0)]
    simp only [List.length_append, List.length_map, List.length_cons, List.length_nil]
    omega

/-! ### Amounts by name -/

variable [DecidableEq β]

private theorem totalAt_whole (xs : List α) (i : β) :
    totalAt (fun f => S.key f.1) Prod.snd (xs.map S.whole) i = totalAt S.key S.cap xs i :=
  totalAt_map ..

/-- What is taken under a name is missing from what the name holds. -/
theorem totalAt_leftover {q : Int} (hq : 0 ≤ q) (xs : List α) (i : β) :
    totalAt S.key S.cap (S.leftover q xs) i =
      totalAt S.key S.cap xs i - totalAt (fun f => S.key f.1) Prod.snd (S.allot q xs) i := by
  obtain ⟨ys, zs, rfl, h⟩ := S.allot_cases hq xs
  rw [totalAt_append]
  rcases h with ⟨h1, h2, -⟩ | ⟨z, zs', k, rfl, -, -, h4, h5, -⟩
  · rw [h1, h2, totalAt_whole]
    omega
  · simp only [h4, h5, totalAt_append, totalAt_whole, totalAt_cons, totalAt_nil, S.key_cut, S.cap_cut]
    split <;> omega

end Lots

end Base
