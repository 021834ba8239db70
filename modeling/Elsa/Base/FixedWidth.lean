import Mathlib.Algebra.Order.Ring.Int

/-!
# Exact and fixed-width integers

An `Arith` says what the 32-bit and the 64-bit operations of a program do with their exact result.  Any arithmetic
keeps a result that fits its width; `Arith.exact` keeps every result, `Arith.machine` wraps the others around, as
two's complement does.
-/

namespace Base

/-- The range of a signed 32-bit integer. -/
def IsInt32 (x : Int) : Prop := -2147483648 ≤ x ∧ x ≤ 2147483647

instance (x : Int) : Decidable (IsInt32 x) := inferInstanceAs (Decidable (_ ∧ _))

/-- The range of a signed 64-bit integer. -/
def IsInt64 (x : Int) : Prop := -9223372036854775808 ≤ x ∧ x ≤ 9223372036854775807

instance (x : Int) : Decidable (IsInt64 x) := inferInstanceAs (Decidable (_ ∧ _))

theorem IsInt32.isInt64 {x : Int} (h : IsInt32 x) : IsInt64 x := by
  unfold IsInt32 at h
  unfold IsInt64
  omega

/-- What the operations of width 32 and 64 make of an exact result. -/
structure Arith where
  int : Int → Int
  int64 : Int → Int
  int_eq : ∀ x, IsInt32 x → int x = x
  int64_eq : ∀ x, IsInt64 x → int64 x = x

namespace Arith

/-- Exact integers. -/
def exact : Arith := ⟨id, id, fun _ _ => rfl, fun _ _ => rfl⟩

@[simp] theorem exact_int (x : Int) : exact.int x = x := rfl

@[simp] theorem exact_int64 (x : Int) : exact.int64 x = x := rfl

/-- Two's complement. -/
def machine : Arith where
  int x := Int.bmod x 4294967296
  int64 x := Int.bmod x 18446744073709551616
  int_eq x h := by
    unfold IsInt32 at h
    apply Int.bmod_eq_of_le_mul_two <;> push_cast <;> omega
  int64_eq x h := by
    unfold IsInt64 at h
    apply Int.bmod_eq_of_le_mul_two <;> push_cast <;> omega

theorem isInt32_machine (x : Int) : IsInt32 (machine.int x) := by
  have h1 := Int.le_bmod (x := x) (m := 4294967296) (by decide)
  have h2 := Int.bmod_lt (x := x) (m := 4294967296) (by decide)
  exact ⟨by simpa [machine] using h1, Int.le_of_lt_add_one (by simpa [machine] using h2)⟩

theorem machine_int_of_le {x : Int} (h0 : 0 ≤ x) (h1 : x ≤ 2147483647) : machine.int x = x :=
  machine.int_eq x ⟨by omega, h1⟩

theorem isInt64_machine (x : Int) : IsInt64 (machine.int64 x) := by
  have h1 := Int.le_bmod (x := x) (m := 18446744073709551616) (by decide)
  have h2 := Int.bmod_lt (x := x) (m := 18446744073709551616) (by decide)
  exact ⟨by simpa [machine] using h1, Int.le_of_lt_add_one (by simpa [machine] using h2)⟩

/-- Two's complement, but for the 32-bit operations, which are exact. -/
def machine64 : Arith := ⟨id, machine.int64, fun _ _ => rfl, machine.int64_eq⟩

end Arith

end Base
