import Mathlib.Algebra.BigOperators.Group.List.Basic
import Mathlib.Algebra.Order.Ring.Int

/-!
# Averages that are kept up to date

A weighted average can be kept as a rounded value and a weight: with each new entry the product of the two is taken
for the sum so far, and the new value is rounded again.  What the divisions lose adds up (`Average.lost`).  It never
decreases, and it is congruent to the exact sum so far modulo the weight so far; of all sequences of numbers with
these two properties (`Carry`) it is the least (`Carry.lost_le`).  So the value at the end is the rounded average of
all entries exactly when there is such a sequence that ends below the total weight (`addAll_value_eq_iff`).
-/

namespace Base

/-- A rounded value and the weight it stands for. -/
structure Average where
  value : Int
  weight : Int
deriving DecidableEq, Repr

/-- The sum of the values of a list of entries, each times its weight. -/
def weightedSum (es : List (Int × Int)) : Int := (es.map fun e => e.1 * e.2).sum

def totalWeight (es : List (Int × Int)) : Int := (es.map Prod.snd).sum

private theorem weightedSum_cons (e : Int × Int) (es : List (Int × Int)) :
    weightedSum (e :: es) = e.1 * e.2 + weightedSum es := rfl

private theorem totalWeight_cons (e : Int × Int) (es : List (Int × Int)) :
    totalWeight (e :: es) = e.2 + totalWeight es := rfl

private theorem totalWeight_nonneg {es : List (Int × Int)} (h : ∀ e ∈ es, 0 < e.2) : 0 ≤ totalWeight es := by
  induction es with
  | nil => exact Int.le_refl 0
  | cons e es ih =>
    have he := h e List.mem_cons_self
    have hes := ih fun x hx => h x (List.mem_cons_of_mem _ hx)
    rw [totalWeight_cons]
    omega

theorem totalWeight_pos {es : List (Int × Int)} (hne : es ≠ []) (h : ∀ e ∈ es, 0 < e.2) : 0 < totalWeight es := by
  obtain ⟨e, rest, rfl⟩ := List.exists_cons_of_ne_nil hne
  have he := h e List.mem_cons_self
  have hrest := totalWeight_nonneg fun x hx => h x (List.mem_cons_of_mem _ hx)
  rw [totalWeight_cons]
  omega

namespace Average

def zero : Average := ⟨0, 0⟩

/-- What is divided when an entry comes in. -/
def numerator (a : Average) (e : Int × Int) : Int := a.value * a.weight + e.1 * e.2

def add (a : Average) (e : Int × Int) : Average := ⟨(a.numerator e).tdiv (e.2 + a.weight), a.weight + e.2⟩

/-- The remainder of the division. -/
def dropped (a : Average) (e : Int × Int) : Int := (a.numerator e).tmod (e.2 + a.weight)

def addAll (a : Average) (es : List (Int × Int)) : Average := es.foldl add a

/-- The remainders of all divisions. -/
def lost : Average → List (Int × Int) → Int
  | _, [] => 0
  | a, e :: es => a.dropped e + lost (a.add e) es

@[simp] theorem addAll_nil (a : Average) : a.addAll [] = a := rfl

@[simp] theorem addAll_cons (a : Average) (e : Int × Int) (es : List (Int × Int)) :
    a.addAll (e :: es) = (a.add e).addAll es := rfl

theorem addAll_append (a : Average) (es fs : List (Int × Int)) : a.addAll (es ++ fs) = (a.addAll es).addAll fs :=
  List.foldl_append

private theorem add_mul (a : Average) (e : Int × Int) :
    (a.add e).value * (a.add e).weight + a.dropped e = a.value * a.weight + e.1 * e.2 := by
  have h := Int.mul_tdiv_add_tmod (a.numerator e) (e.2 + a.weight)
  show (a.numerator e).tdiv (e.2 + a.weight) * (a.weight + e.2) + (a.numerator e).tmod (e.2 + a.weight) =
      a.numerator e
  rw [Int.mul_comm, Int.add_comm a.weight]
  exact h

/-- What is lost is what the product of value and weight misses. -/
private theorem addAll_mul (a : Average) (es : List (Int × Int)) :
    (a.addAll es).value * (a.addAll es).weight + a.lost es = a.value * a.weight + weightedSum es := by
  induction es generalizing a with
  | nil => rfl
  | cons e es ih =>
    have hstep := a.add_mul e
    have hrest := ih (a.add e)
    rw [addAll_cons, lost, weightedSum_cons]
    omega

theorem addAll_weight (a : Average) (es : List (Int × Int)) : (a.addAll es).weight = a.weight + totalWeight es := by
  induction es generalizing a with
  | nil => exact (Int.add_zero _).symm
  | cons e es ih =>
    rw [addAll_cons, ih, totalWeight_cons]
    exact Int.add_assoc _ _ _

/-- Averages of positive entries do not become negative. -/
structure Nonneg (a : Average) : Prop where
  value_nonneg : 0 ≤ a.value
  weight_nonneg : 0 ≤ a.weight

variable {a : Average} {e : Int × Int} {es : List (Int × Int)}

private theorem Nonneg.numerator (h : a.Nonneg) (he : 0 < e.1 ∧ 0 < e.2) : 0 ≤ a.numerator e :=
  Int.add_nonneg (Int.mul_nonneg h.value_nonneg h.weight_nonneg) (Int.mul_nonneg he.1.le he.2.le)

private theorem Nonneg.add (h : a.Nonneg) (he : 0 < e.1 ∧ 0 < e.2) : (a.add e).Nonneg := by
  have hw := h.weight_nonneg
  refine ⟨Int.tdiv_nonneg (h.numerator he) (by omega), ?_⟩
  show 0 ≤ a.weight + e.2
  omega

private theorem Nonneg.lost (h : a.Nonneg) (hes : ∀ e ∈ es, 0 < e.1 ∧ 0 < e.2) : 0 ≤ a.lost es := by
  induction es generalizing a with
  | nil => exact Int.le_refl 0
  | cons e es ih =>
    have he := hes e List.mem_cons_self
    have hfirst : 0 ≤ a.dropped e := Int.tmod_nonneg _ (h.numerator he)
    have hrest := ih (h.add he) fun x hx => hes x (List.mem_cons_of_mem _ hx)
    rw [Average.lost]
    omega

private theorem lost_append (a : Average) (es fs : List (Int × Int)) :
    a.lost (es ++ fs) = a.lost es + (a.addAll es).lost fs := by
  induction es generalizing a with
  | nil => exact (Int.zero_add _).symm
  | cons e es ih =>
    rw [List.cons_append, lost, ih, lost, addAll_cons]
    exact (Int.add_assoc _ _ _).symm

end Average

/-! ### What the exact sums allow to be lost -/

/-- Numbers that never decrease, each congruent to the exact sum of the first entries modulo their weight.  The
first number is zero, since no entry has no weight. -/
structure Carry (es : List (Int × Int)) (l : Nat → Int) : Prop where
  mono : ∀ i < es.length, l i ≤ l (i + 1)
  dvd : ∀ i ≤ es.length, totalWeight (es.take i) ∣ weightedSum (es.take i) - l i

/-- The remainders of the exact sums, where they never decrease. -/
theorem Carry.of_remainders {es : List (Int × Int)}
    (h : ∀ i < es.length, weightedSum (es.take i) % totalWeight (es.take i) ≤
      weightedSum (es.take (i + 1)) % totalWeight (es.take (i + 1))) :
    Carry es fun i => weightedSum (es.take i) % totalWeight (es.take i) :=
  ⟨h, fun _ _ => Int.dvd_self_sub_emod⟩

namespace Average

variable {es : List (Int × Int)} {l : Nat → Int}

private theorem zero_nonneg : zero.Nonneg := ⟨Int.le_refl 0, Int.le_refl 0⟩

private theorem Nonneg.addAll {a : Average} (h : a.Nonneg) (hes : ∀ e ∈ es, 0 < e.1 ∧ 0 < e.2) :
    (a.addAll es).Nonneg := by
  induction es generalizing a with
  | nil => exact h
  | cons e es ih => exact ih (h.add (hes e List.mem_cons_self)) fun x hx => hes x (List.mem_cons_of_mem _ hx)

/-- What is lost, and the product of value and weight, make up the exact sum. -/
private theorem zero_addAll_mul (es : List (Int × Int)) :
    (zero.addAll es).value * totalWeight es + zero.lost es = weightedSum es := by
  have hmul := zero.addAll_mul es
  have hweight : (zero.addAll es).weight = totalWeight es := (zero.addAll_weight es).trans (Int.zero_add _)
  rw [hweight] at hmul
  exact hmul.trans (Int.zero_add _)

/-- With one entry more at least nothing and less than the new weight is lost. -/
private theorem lost_take_succ (hes : ∀ e ∈ es, 0 < e.1 ∧ 0 < e.2) {i : Nat} (hi : i < es.length) :
    zero.lost (es.take i) ≤ zero.lost (es.take (i + 1)) ∧
      zero.lost (es.take (i + 1)) < zero.lost (es.take i) + totalWeight (es.take (i + 1)) := by
  have he := hes es[i] (List.getElem_mem hi)
  have hnonneg : (zero.addAll (es.take i)).Nonneg :=
    zero_nonneg.addAll fun e h => hes e (List.mem_of_mem_take h)
  have hweight : (zero.addAll (es.take i)).weight = totalWeight (es.take i) :=
    (zero.addAll_weight _).trans (Int.zero_add _)
  have hlost : zero.lost (es.take (i + 1)) =
      zero.lost (es.take i) + (zero.addAll (es.take i)).dropped es[i] := by
    rw [List.take_succ_eq_append_getElem hi, lost_append]
    exact congrArg (_ + ·) (Int.add_zero _)
  have htotal : totalWeight (es.take (i + 1)) = es[i].2 + totalWeight (es.take i) := by
    rw [List.take_succ_eq_append_getElem hi, totalWeight, List.map_append, List.sum_append, Int.add_comm]
    exact congrArg (· + _) (Int.add_zero _)
  have hpos : 0 < es[i].2 + (zero.addAll (es.take i)).weight := by
    have := hnonneg.weight_nonneg
    omega
  have hle : 0 ≤ (zero.addAll (es.take i)).dropped es[i] := Int.tmod_nonneg _ (hnonneg.numerator he)
  have hlt : (zero.addAll (es.take i)).dropped es[i] < es[i].2 + (zero.addAll (es.take i)).weight :=
    Int.tmod_lt_of_pos _ hpos
  rw [hlost, htotal, ← hweight]
  omega

private theorem carry_lost (hes : ∀ e ∈ es, 0 < e.1 ∧ 0 < e.2) : Carry es fun i => zero.lost (es.take i) where
  mono _ hi := (lost_take_succ hes hi).1
  dvd i _ := by
    have hmul := zero_addAll_mul (es.take i)
    exact ⟨(zero.addAll (es.take i)).value, by rw [Int.mul_comm]; omega⟩

end Average

/-- No such sequence lies below what is lost: the next number that is lost is the least one that is not smaller than
the last and has the right remainder. -/
theorem Carry.lost_le {es : List (Int × Int)} {l : Nat → Int} (h : Carry es l)
    (hes : ∀ e ∈ es, 0 < e.1 ∧ 0 < e.2) : ∀ i ≤ es.length, Average.zero.lost (es.take i) ≤ l i := by
  intro i
  induction i with
  | zero =>
    intro _
    have hzero : (0 : Int) - l 0 = 0 := Int.zero_dvd.1 (h.dvd 0 (Nat.zero_le _))
    show (0 : Int) ≤ l 0
    omega
  | succ i ih =>
    intro hi
    have hprev := ih (Nat.le_of_lt hi)
    have hmono := h.mono i hi
    obtain ⟨hle, hlt⟩ := Average.lost_take_succ hes hi
    have hdvd : totalWeight (es.take (i + 1)) ∣ Average.zero.lost (es.take (i + 1)) - l (i + 1) := by
      have hsub := Int.dvd_sub (h.dvd (i + 1) hi) ((Average.carry_lost hes).dvd (i + 1) hi)
      rwa [sub_sub_sub_cancel_left] at hsub
    -- a smaller number with this remainder would be smaller by the whole weight, and so below the last one
    by_contra hgt
    have hweight := Int.le_of_dvd (by omega) hdvd
    omega

namespace Average

/-- The value that is kept is the rounded average exactly when the exact sums allow that less than the whole weight
is lost. -/
theorem addAll_value_eq_iff {es : List (Int × Int)} (hne : es ≠ []) (hes : ∀ e ∈ es, 0 < e.1 ∧ 0 < e.2) :
    (zero.addAll es).value = weightedSum es / totalWeight es ↔
      ∃ l, Carry es l ∧ l es.length < totalWeight es := by
  have hpos : 0 < totalWeight es := totalWeight_pos hne fun e he => (hes e he).2
  have hlost : 0 ≤ zero.lost es := zero_nonneg.lost hes
  have hmul := zero_addAll_mul es
  -- the value is the quotient if and only if what is lost is the remainder
  rw [eq_comm, Int.ediv_eq_iff_of_pos hpos]
  constructor
  · rintro ⟨-, hlt⟩
    refine ⟨_, carry_lost hes, ?_⟩
    show zero.lost (es.take es.length) < totalWeight es
    rw [List.take_length]
    omega
  · rintro ⟨l, hcarry, hlt⟩
    have hle := hcarry.lost_le hes es.length (Nat.le_refl _)
    rw [List.take_length] at hle
    omega

end Average

end Base
