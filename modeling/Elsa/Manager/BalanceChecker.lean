import Elsa.Base.Steps
import Elsa.Core.Containers

/-!
# The balance checker

`BalanceChecker` holds what each user may still spend: a record for each broker, with a balance for each ticker.
Contracts that call other functions see their bodies only, since a contract that is being checked switches the
others off.

`updateBalance` is the only function that changes a balance.  It succeeds exactly when the entry it changes, if
there is one, is not negative before and after the change (`updateBalance_eq_ok_iff`), and then the entry alone is
changed (`entry_updated`).
-/

namespace Elsa

open Base

/-- `balance_map`. -/
abbrev BalanceChecker := String → Option (String → Option Int)

namespace BalanceChecker

/-- The balance stored for a broker and a ticker. -/
def entry (bc : BalanceChecker) (brokerId ticker : String) :
    Option Int := (bc brokerId).bind fun record => record ticker

def brokerIdExists (bc : BalanceChecker) (brokerId : String) : Bool := (bc brokerId).isSome

def brokerOwnsTicker (bc : BalanceChecker) (brokerId ticker : String) : Except Fault Bool := do
  require (bc.brokerIdExists brokerId = true ∧ ticker ≠ "") (.contract .brokerOwnsTicker)
  return (bc.entry brokerId ticker).isSome

def getBalance (bc : BalanceChecker) (brokerId ticker : String) : Except Fault Int := do
  require (bc.brokerIdExists brokerId = true ∧ (bc.entry brokerId ticker).isSome = true) (.contract .getBalance)
  let rtn ← orFail (bc.entry brokerId ticker) .outOfRange
  require (0 ≤ rtn) (.contract .getBalance)
  return rtn

def hasSufficientBalance (A : Arith) (bc : BalanceChecker) (brokerId ticker : String) (delta : Int) :
    Except Fault Bool := do
  require (bc.brokerIdExists brokerId = true ∧ (bc.entry brokerId ticker).isSome = true)
    (.contract .hasSufficientBalance)
  let balance ← bc.getBalance brokerId ticker
  return decide (0 ≤ A.int64 (balance + delta))

/-- Store a balance. -/
def put (bc : BalanceChecker) (brokerId ticker : String) (balance : Int) : BalanceChecker :=
  Function.update bc brokerId (some (Function.update ((bc brokerId).getD fun _ => none) ticker (some balance)))

def updateBalance (A : Arith) (bc : BalanceChecker) (brokerId ticker : String) (delta : Int) :
    Except Fault BalanceChecker := do
  require (ticker ≠ "") (.contract .updateBalance)
  match bc brokerId with
  | some record =>
    match record ticker with
    | some balance => do
      let sufficient ← bc.hasSufficientBalance A brokerId ticker delta
      require (sufficient = true) .assertion
      return bc.put brokerId ticker (A.int64 (balance + delta))
    | none => return bc.put brokerId ticker delta
  | none => return bc.put brokerId ticker delta

/-! ### What an update does -/

theorem exists_of_entry {bc : BalanceChecker} {brokerId ticker : String} {x : Int}
    (h : bc.entry brokerId ticker = some x) : bc.brokerIdExists brokerId = true := by
  unfold entry at h
  unfold brokerIdExists
  cases hb : bc brokerId with
  | none => rw [hb] at h; cases h
  | some r => rfl

theorem getBalance_eq {bc : BalanceChecker} {brokerId ticker : String} {x : Int}
    (h : bc.entry brokerId ticker = some x) (hx : 0 ≤ x) : bc.getBalance brokerId ticker = .ok x := by
  rw [getBalance, require_of ⟨exists_of_entry h, by rw [h]; rfl⟩, h]
  simp only [ok_bind, orFail_some, require_of hx]
  rfl

theorem hasSufficientBalance_eq {A : Arith} {bc : BalanceChecker} {brokerId ticker : String} {x : Int}
    (h : bc.entry brokerId ticker = some x) (hx : 0 ≤ x) (delta : Int) :
    bc.hasSufficientBalance A brokerId ticker delta = .ok (decide (0 ≤ A.int64 (x + delta))) := by
  rw [hasSufficientBalance, require_of ⟨exists_of_entry h, by rw [h]; rfl⟩, getBalance_eq h hx]
  rfl

/-- Asking for a balance needs an entry that is not negative. -/
theorem hasSufficientBalance_ok {A : Arith} {bc : BalanceChecker} {brokerId ticker : String} {delta : Int} {r : Bool}
    (h : bc.hasSufficientBalance A brokerId ticker delta = .ok r) :
    ∃ x, bc.entry brokerId ticker = some x ∧ 0 ≤ x ∧ r = decide (0 ≤ A.int64 (x + delta)) := by
  simp only [hasSufficientBalance, getBalance, bind_eq_ok, require_eq_ok, orFail_eq_ok] at h
  obtain ⟨-, -, x, ⟨-, -, y, hy, -, hpos, hxy⟩, hr⟩ := h
  cases hxy
  cases hr
  exact ⟨x, hy, hpos, rfl⟩

/-- The value an update leaves. -/
def newBalance (A : Arith) (bc : BalanceChecker) (brokerId ticker : String) (delta : Int) : Int :=
  match bc.entry brokerId ticker with
  | some x => A.int64 (x + delta)
  | none => delta

/-- The balances after an update. -/
def updated (A : Arith) (bc : BalanceChecker) (brokerId ticker : String) (delta : Int) : BalanceChecker :=
  bc.put brokerId ticker (bc.newBalance A brokerId ticker delta)

private theorem entry_put (bc : BalanceChecker) (brokerId ticker : String) (v : Int) (u tk : String) :
    (bc.put brokerId ticker v).entry u tk = if u = brokerId ∧ tk = ticker then some v else bc.entry u tk := by
  unfold entry put
  rw [Function.update_apply]
  by_cases hu : u = brokerId
  · subst hu
    rw [if_pos rfl, Option.bind_some, Function.update_apply]
    by_cases ht : tk = ticker
    · rw [if_pos ht, if_pos ⟨rfl, ht⟩]
    · rw [if_neg ht, if_neg (fun h => ht h.2)]
      cases bc u <;> rfl
  · rw [if_neg hu, if_neg (fun h => hu h.1)]

theorem entry_updated (A : Arith) (bc : BalanceChecker) (brokerId ticker : String) (delta : Int) (u tk : String) :
    (bc.updated A brokerId ticker delta).entry u tk =
      if u = brokerId ∧ tk = ticker then some (bc.newBalance A brokerId ticker delta) else bc.entry u tk :=
  entry_put ..

theorem updateBalance_eq_ok_iff {A : Arith} {bc bc' : BalanceChecker} {brokerId ticker : String} {delta : Int} :
    bc.updateBalance A brokerId ticker delta = .ok bc' ↔
      ticker ≠ "" ∧ (∀ x, bc.entry brokerId ticker = some x → 0 ≤ x ∧ 0 ≤ A.int64 (x + delta)) ∧
        bc' = bc.updated A brokerId ticker delta := by
  unfold updateBalance
  simp only [bind_eq_ok, require_eq_ok, exists_const]
  refine and_congr_right fun _ => ?_
  -- two branches of the source create an entry: no record of the user, and no entry in the record
  have hnone : bc.entry brokerId ticker = none →
      (Except.ok (ε := Fault) (bc.put brokerId ticker delta) = .ok bc' ↔
        (∀ x, bc.entry brokerId ticker = some x → 0 ≤ x ∧ 0 ≤ A.int64 (x + delta)) ∧
          bc' = bc.updated A brokerId ticker delta) := by
    intro he
    simp only [updated, newBalance, he, Except.ok.injEq]
    exact ⟨fun h => ⟨fun _ hx => (by cases hx), h.symm⟩, fun h => h.2.symm⟩
  cases hb : bc brokerId with
  | none => exact hnone (by rw [entry, hb]; rfl)
  | some record =>
    cases hr : record ticker with
    | none =>
      simp only [hr]
      exact hnone (by rw [entry, hb]; exact hr)
    | some x =>
      have he : bc.entry brokerId ticker = some x := by rw [entry, hb]; exact hr
      simp only [hr, bind_eq_ok, require_eq_ok, updated, newBalance, he]
      constructor
      · rintro ⟨r, hs, -, hrt, hput⟩
        obtain ⟨y, hy, hy0, rfl⟩ := hasSufficientBalance_ok hs
        rw [he] at hy
        cases hy
        cases hput
        refine ⟨fun z hz => ?_, rfl⟩
        cases hz
        exact ⟨hy0, by simpa using hrt⟩
      · rintro ⟨hpos, rfl⟩
        obtain ⟨h1, h2⟩ := hpos x rfl
        exact ⟨true, by rw [hasSufficientBalance_eq he h1]; simp [h2], (), rfl, rfl⟩

theorem entry_updated_self (A : Arith) (bc : BalanceChecker) (brokerId ticker : String) (delta : Int) :
    (bc.updated A brokerId ticker delta).entry brokerId ticker = some (bc.newBalance A brokerId ticker delta) := by
  rw [entry_updated, if_pos ⟨rfl, rfl⟩]

/-- An update removes no entry. -/
theorem entry_updated_ne_none {bc : BalanceChecker} {u tk : String} (h : bc.entry u tk ≠ none) {A : Arith}
    {brokerId ticker : String} {delta : Int} : (bc.updated A brokerId ticker delta).entry u tk ≠ none := by
  rw [entry_updated]
  split
  · exact Option.some_ne_none _
  · exact h

/-! ### Balances that are not negative -/

def Nonneg (bc : BalanceChecker) : Prop := ∀ u tk x, bc.entry u tk = some x → 0 ≤ x

theorem Nonneg.updated {A : Arith} {bc : BalanceChecker} (h : bc.Nonneg) {brokerId ticker : String} {delta : Int}
    (hnew : 0 ≤ bc.newBalance A brokerId ticker delta) : (bc.updated A brokerId ticker delta).Nonneg := by
  intro u tk x hx
  rw [entry_updated] at hx
  split at hx
  · cases hx; exact hnew
  · exact h u tk x hx

theorem Nonneg.newBalance {bc : BalanceChecker} (h : bc.Nonneg) {brokerId ticker : String} {delta : Int}
    (hd : 0 ≤ delta) : 0 ≤ bc.newBalance .exact brokerId ticker delta := by
  unfold BalanceChecker.newBalance
  split
  · rename_i x hx
    have := h _ _ x hx
    show 0 ≤ x + delta
    omega
  · exact hd

/-- A credit always succeeds. -/
theorem Nonneg.credit {bc : BalanceChecker} (h : bc.Nonneg) {brokerId ticker : String} (htk : ticker ≠ "")
    {delta : Int} (hd : 0 ≤ delta) :
    bc.updateBalance .exact brokerId ticker delta = .ok (bc.updated .exact brokerId ticker delta) := by
  refine updateBalance_eq_ok_iff.2 ⟨htk, fun x hx => ?_, rfl⟩
  have := h _ _ x hx
  exact ⟨this, show 0 ≤ x + delta by omega⟩

end BalanceChecker

end Elsa
