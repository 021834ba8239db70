import Elsa.Manager.Process

/-!
# Orders whose forwarding fails

`forward_and_reply` sends an accepted order to the matching engine and only logs a send that fails.  `Forwarding` is
the order manager with what has been delivered to the engine, for any outcome of each send; the numbers are those of
the machine and what arrives has values of `int` in it.

The balances after an order that could not be delivered are those before it only if nothing was reserved, which
happens only to a market bid whose fill cost is zero (`balances_restored_iff`).
-/

namespace Elsa

open Base

/-- The balances are values of `std::int64_t`. -/
def BalanceChecker.Fits (bc : BalanceChecker) : Prop := ∀ u tk x, bc.entry u tk = some x → IsInt64 x

/-- What arrives has values of `int` in it. -/
def Input.Fits : Input → Prop
  | .request c _ _ _ => c.Fits
  | .answer c _ => c.Fits
  | .response c _ => c.Fits

instance (i : Input) : Decidable i.Fits := by
  cases i <;> exact inferInstanceAs (Decidable (Container.Fits _))

section

variable (cfg : Config) (A : Arith)

/-- The messages that a step hands to the send towards the engine. -/
def Manager.forwards (m : Manager) : Input → List Container
  | .request c gw sent ids =>
    match m.waiting, handleRequest cfg A sent gw ids m.om c with
    | none, .ok (_, .done out) => out.forwarded
    | _, _ => []
  | .answer c ids =>
    match m.waiting with
    | some (o, gw) =>
      match completeRequest cfg A gw ids m.om o c with
      | .ok (_, out) => out.forwarded
      | .error _ => []
    | none => []
  | .response _ _ => []

/-- The order manager, and what the engine has received. -/
structure Forwarding where
  manager : Manager
  delivered : List Container

def Forwarding.start (balances : BalanceChecker) : Forwarding := ⟨⟨.init balances, none, []⟩, []⟩

/-- A step and whether its send succeeds. -/
def Forwarding.step (s : Forwarding) (e : Input × Bool) : Option Forwarding :=
  (s.manager.step cfg A e.1).map fun m =>
    ⟨m, s.delivered ++ if e.2 then s.manager.forwards cfg A e.1 else []⟩

/-- The states that runs pass through, whatever the sends return. -/
abbrev Forwarding.Reachable (balances : BalanceChecker) : Forwarding → Prop :=
  Reach (Forwarding.step cfg .machine) (fun _ e => e.1.Fits) (start balances)

end

variable {cfg : Config} {A : Arith}

/-! ### Numbers stay in range -/

theorem BalanceChecker.Fits.updated {bc : BalanceChecker} (h : bc.Fits) {u tk : String} {delta : Int}
    (hd : IsInt64 delta) : (bc.updated .machine u tk delta).Fits := by
  intro u' tk' x hx
  rw [entry_updated] at hx
  split at hx
  · cases hx
    unfold newBalance
    split
    · exact Arith.isInt64_machine _
    · exact hd
  · exact h u' tk' x hx

theorem BalanceChecker.Fits.updateBalance {bc bc' : BalanceChecker} (h : bc.Fits) {u tk : String} {delta : Int}
    (hd : IsInt64 delta) (hu : bc.updateBalance .machine u tk delta = .ok bc') : bc'.Fits := by
  obtain ⟨-, -, rfl⟩ := updateBalance_eq_ok_iff.1 hu
  exact h.updated hd

theorem Reservation.isInt64 {cost : Option Int} {o : NewOrderSingle} {tk : String} {delta : Int}
    (h : Reservation .machine cost o tk delta) : IsInt64 delta := by
  cases h with
  | limitBid => exact Arith.isInt64_machine _
  | marketBid => exact (Arith.isInt32_machine _).isInt64
  | ask => exact (Arith.isInt32_machine _).isInt64

theorem Validated.fits {bc bc' : BalanceChecker} {cost : Option Int} {o : NewOrderSingle}
    (hv : Validated cfg .machine bc cost o bc') (h : bc.Fits) : bc'.Fits := by
  obtain ⟨tk, delta, x, hr, -, -, -, -, rfl⟩ := hv.reserved
  exact h.updated hr.isInt64

/-- Balances, open quantities and the order that waits are in range. -/
structure Manager.InRange (m : Manager) : Prop where
  balances : m.om.balanceChecker.Fits
  leaves : ∀ id info, m.om.orderInfoMap id = some info → IsInt32 info.leavesQty
  waiting : ∀ o gw, m.waiting = some (o, gw) → IsInt32 o.orderQty ∧ ∀ p ∈ o.price, IsInt32 p

private theorem leaves_emplace {infos : Int → Option OrderInfo} {id : Int} {info : OrderInfo}
    (h : ∀ id info, infos id = some info → IsInt32 info.leavesQty) (hinfo : IsInt32 info.leavesQty) :
    ∀ id' info', emplace infos id info id' = some info' → IsInt32 info'.leavesQty := by
  intro id' info' he
  cases hid : infos id with
  | some w =>
    rw [emplace_of_bound hid] at he
    exact h id' info' he
  | none =>
    rw [emplace_of_free hid] at he
    split at he
    · cases he
      exact hinfo
    · exact h id' info' he

private theorem leaves_applyTrade {infos infos' : Int → Option OrderInfo} {id price quantity : Int}
    (h : ∀ id info, infos id = some info → IsInt32 info.leavesQty)
    (ht : applyTradeTo .machine infos id price quantity = .ok infos') :
    ∀ id' info', infos' id' = some info' → IsInt32 info'.leavesQty := by
  obtain ⟨info, -, -, rfl⟩ := applyTradeTo_eq_ok_iff.1 ht
  intro id' info' he
  rw [Function.update_apply] at he
  split at he
  · cases he
    exact Arith.isInt32_machine _
  · exact h id' info' he

/-- Responses keep the numbers in range. -/
private theorem updateInternalData_inRange {om om' : OrderManager} {c : Container} (hc : c.Fits)
    (hb : om.balanceChecker.Fits) (hl : ∀ id info, om.orderInfoMap id = some info → IsInt32 info.leavesQty)
    (h : updateInternalData .machine om c = .ok om') :
    om'.balanceChecker.Fits ∧ ∀ id info, om'.orderInfoMap id = some info → IsInt32 info.leavesQty := by
  cases c with
  | trade t =>
    simp only [updateInternalData, bind_eq_ok, require_eq_ok, orFail_eq_ok] at h
    obtain ⟨-, -, infos₁, h1, infos₂, h2, bc₁, hb1, buyer, -, bc₂, hb2, bc₃, hb3, h⟩ := h
    cases h
    refine ⟨?_, leaves_applyTrade (leaves_applyTrade hl h1) h2⟩
    have hf1 := hb.updateBalance hc.2.1.isInt64 hb1
    have hf2 : bc₂.Fits := by
      rw [refundImprovement_ok hb2]
      unfold refunded
      split
      · exact hf1
      · split
        · exact hf1.updated (Arith.isInt32_machine _).isInt64
        · exact hf1
    exact hf2.updateBalance (Arith.isInt32_machine _).isInt64 hb3
  | cancelOrderResponse r =>
    obtain ⟨id, clOrdId, success⟩ := r
    cases success with
    | false => cases h; exact ⟨hb, hl⟩
    | true =>
      obtain ⟨info, price, bc, hinfo, -, hbc, rfl⟩ := updateInternalData_cancel.1 h
      refine ⟨hb.updateBalance ?_ hbc, hl⟩
      unfold OrderInfo.released
      split
      · exact (Arith.isInt32_machine _).isInt64
      · exact (hl id info hinfo).isInt64
  | newOrderSingle => cases h
  | cancelOrderRequest => cases h
  | executionReport => cases h
  | fillCostQuery => cases h
  | fillCostResponse => cases h

theorem Manager.InRange.step {m m' : Manager} {i : Input} (h : m.InRange) (hi : i.Fits)
    (hs : m.step cfg .machine i = some m') : m'.InRange := by
  cases i with
  | request c gw sent ids =>
    obtain ⟨-, om, res, waiting, hr, rfl, hw⟩ := Manager.step_request hs
    cases c with
    | newOrderSingle o =>
      have hleaves : ∀ id, IsInt32 (OrderInfo.ofNewOrder (o.assigned id) gw).leavesQty := fun _ => hi.2.2.1
      -- an order that waits is the one that came in
      have hwaits : ∀ o' gw', waiting = some (o', gw') → IsInt32 o'.orderQty ∧ ∀ p ∈ o'.price, IsInt32 p := by
        rintro o' gw' rfl
        rcases hw with ⟨out, -, he⟩ | ⟨o'', q, rfl, he⟩
        · cases he
        · cases he
          rcases handleRequest_newOrder hr with ⟨-, -, out, he, -⟩ | ⟨userId, -, -, hrest⟩
          · cases he
          · rcases hrest with ⟨-, out, he, -⟩ | ⟨-, bc, out, -, -, he, -⟩ | ⟨-, -, -, -, he⟩ <;> cases he
            exact ⟨hi.2.2.1, hi.2.2.2⟩
      rcases handleRequest_newOrder hr with ⟨-, rfl, -⟩ | ⟨userId, -, -, hrest⟩
      · exact ⟨h.balances, h.leaves, hwaits⟩
      · rcases hrest with ⟨rfl, -⟩ | ⟨-, bc, out, hv, rfl, -⟩ | ⟨-, -, -, rfl, -⟩
        · exact ⟨h.balances, leaves_emplace h.leaves (hleaves _), hwaits⟩
        · exact ⟨hv.fits h.balances, leaves_emplace h.leaves (hleaves _), hwaits⟩
        · exact ⟨h.balances, leaves_emplace h.leaves (hleaves _), hwaits⟩
    | cancelOrderRequest c =>
      obtain ⟨rfl, out, rfl, -⟩ := handleRequest_cancel hr
      obtain ⟨-, -, rfl⟩ | ⟨o, q, he, -⟩ := hw
      · exact ⟨h.balances, h.leaves, fun _ _ he => by cases he⟩
      · cases he
    | executionReport => cases hr
    | fillCostQuery => cases hr
    | fillCostResponse => cases hr
    | trade => cases hr
    | cancelOrderResponse => cases hr
  | answer c ids =>
    obtain ⟨o, gw, om, out, -, hr, rfl⟩ := Manager.step_answer hs
    obtain ⟨cost, -, ⟨rfl, -⟩ | ⟨bc, hv, rfl, -⟩⟩ := completeRequest_ok hr
    · exact ⟨h.balances, h.leaves, fun _ _ he => by cases he⟩
    · exact ⟨hv.fits h.balances, h.leaves, fun _ _ he => by cases he⟩
  | response c ids =>
    obtain ⟨-, om, hu, rfl⟩ := Manager.step_response hs
    obtain ⟨hb, hl⟩ := updateInternalData_inRange hi h.balances h.leaves hu
    exact ⟨hb, hl, fun _ _ he => by cases he⟩

namespace Forwarding

variable {s s' : Forwarding} {balances : BalanceChecker}

private theorem inRange_of_reachable (hb : balances.Fits) (h : Reachable cfg balances s) : s.manager.InRange := by
  refine h.invariant (I := fun s => s.manager.InRange) ⟨hb, fun _ _ he => (by cases he),
    fun _ _ he => (by cases he)⟩ ?_
  rintro s ⟨i, sent⟩ s' hi hfit hs
  obtain ⟨m, hm, rfl⟩ := Option.map_eq_some_iff.1 hs
  exact hi.step hfit hm

end Forwarding

/-! ### Accepted orders -/

/-- A step that forwards a new order has validated it: at once, or with the answer to its query. -/
private theorem Manager.validated_of_forwards {m m' : Manager} {i : Input} {o : NewOrderSingle}
    (hf : m.forwards cfg A i = [.newOrderSingle o]) (hs : m.step cfg A i = some m') :
    (Validated cfg A m.om.balanceChecker none o m'.om.balanceChecker ∧
        ∃ o₀ id gw sent ids, i = .request (.newOrderSingle o₀) gw sent ids ∧ o = o₀.assigned id) ∨
      ∃ cost ids gw, Validated cfg A m.om.balanceChecker cost o m'.om.balanceChecker ∧ m.waiting = some (o, gw) ∧
        i = .answer (.fillCostResponse ⟨cost⟩) ids := by
  cases i with
  | request c gw sent ids =>
    obtain ⟨hnone, om, res, waiting, hr, rfl, -⟩ := Manager.step_request hs
    simp only [Manager.forwards, hnone, hr] at hf
    cases c with
    | newOrderSingle o₀ =>
      rcases handleRequest_newOrder hr with ⟨-, -, out, rfl, hfw⟩ | ⟨userId, -, -, hrest⟩
      · simp [hfw] at hf
      · rcases hrest with ⟨-, out, rfl, hfw⟩ | ⟨-, bc, out, hv, rfl, rfl, hfw⟩ | ⟨-, -, -, -, rfl⟩
        · simp [hfw] at hf
        · cases hfw.symm.trans hf
          exact Or.inl ⟨hv, o₀, _, gw, sent, ids, rfl, rfl⟩
        · cases hf
    | cancelOrderRequest c =>
      obtain ⟨-, out, rfl, hfw | ⟨id, -, -, hfw⟩⟩ := handleRequest_cancel hr <;> simp [hfw] at hf
    | executionReport => cases hr
    | fillCostQuery => cases hr
    | fillCostResponse => cases hr
    | trade => cases hr
    | cancelOrderResponse => cases hr
  | answer c ids =>
    obtain ⟨o₁, gw, om, out, hw, hr, rfl⟩ := Manager.step_answer hs
    simp only [Manager.forwards, hw, hr] at hf
    obtain ⟨cost, rfl, ⟨-, hfw⟩ | ⟨bc, hv, rfl, hfw⟩⟩ := completeRequest_ok hr
    · simp [hfw] at hf
    · cases hfw.symm.trans hf
      exact Or.inr ⟨cost, ids, gw, hv, hw, rfl⟩
  | response c ids => cases hf

/-- A change that leaves a balance that is not negative did not overflow. -/
private theorem machine_int64_add {x delta : Int} (hx : IsInt64 x) (h0 : 0 ≤ x) (hd : -4611686018427387904 ≤ delta)
    (hd' : delta ≤ 4611686018427387904) (hpos : 0 ≤ Arith.machine.int64 (x + delta)) :
    Arith.machine.int64 (x + delta) = x + delta := by
  by_contra hne
  have hlarge : 9223372036854775807 < x + delta := by
    by_contra hle
    exact hne (Arith.machine.int64_eq _ ⟨by omega, by omega⟩)
  unfold IsInt64 at hx
  -- the sum is less than a full turn beyond the range, so it wraps to a negative number
  have hwrap : Arith.machine.int64 (x + delta) = x + delta - 18446744073709551616 := by
    have hturn : Arith.machine.int64 (x + delta - 18446744073709551616) = Arith.machine.int64 (x + delta) :=
      Int.sub_bmod_right (x + delta) 18446744073709551616
    rw [← hturn]
    exact Arith.machine.int64_eq _ ⟨by omega, by omega⟩
  omega

/-- An update leaves the balances as they were exactly when the entry it changes keeps its value. -/
private theorem BalanceChecker.updated_unchanged_iff {bc : BalanceChecker} {u tk : String} {delta x : Int}
    (hx : bc.entry u tk = some x) :
    (∀ u' tk', (bc.updated A u tk delta).entry u' tk' = bc.entry u' tk') ↔ A.int64 (x + delta) = x := by
  have hnew : bc.newBalance A u tk delta = A.int64 (x + delta) := by rw [newBalance, hx]
  constructor
  · intro hall
    have hself := hall u tk
    rw [entry_updated_self, hnew, hx, Option.some_inj] at hself
    exact hself
  · intro heq u' tk'
    rw [entry_updated]
    split
    · rename_i hut
      rw [hut.1, hut.2, hx, hnew, heq]
    · rfl

private theorem machine_int_neg_eq_zero_iff {x : Int} (hx : IsInt32 x) : Arith.machine.int (-x) = 0 ↔ x = 0 := by
  constructor
  · intro hz
    by_contra hne
    unfold IsInt32 at hx
    -- the least `int` is its own negation
    by_cases hmin : x = -2147483648
    · rw [hmin] at hz
      exact absurd hz (by decide)
    · rw [Arith.machine.int_eq _ ⟨by omega, by omega⟩] at hz
      omega
  · rintro rfl
    rfl

/-- The amount reserved for a valid order: it is far from the ends of the range, and zero only for a market bid that
costs nothing. -/
theorem Reservation.amount {cost : Option Int} {o : NewOrderSingle} {tk : String} {delta : Int}
    (h : Reservation .machine cost o tk delta) (hqty : 0 < o.orderQty) (hq : IsInt32 o.orderQty)
    (hpos : ∀ p, o.price = some p → 0 < p) (hp : ∀ p ∈ o.price, IsInt32 p) (hcost : ∀ c ∈ cost, IsInt32 c) :
    (-4611686018427387904 ≤ delta ∧ delta ≤ 4611686018427387904) ∧
      (delta = 0 ↔ o.side = .bid ∧ o.ordType = .market ∧ cost = some 0) := by
  unfold IsInt32 at hq
  cases h with
  | limitBid price hside htype hprice =>
    have hpp := hpos price hprice
    have hpr := hp price hprice
    unfold IsInt32 at hpr
    -- the product of two values of `int` fits
    have hmul : price * o.orderQty ≤ 2147483647 * 2147483647 := Int.mul_le_mul hpr.2 hq.2 (by omega) (by omega)
    have hmul0 : 0 < price * o.orderQty := Int.mul_pos hpp hqty
    have h1 : Arith.machine.int64 (-price) = -price := Arith.machine.int64_eq _ ⟨by omega, by omega⟩
    have h2 : Arith.machine.int64 (-price * o.orderQty) = -(price * o.orderQty) := by
      rw [Int.neg_mul]
      exact Arith.machine.int64_eq _ ⟨by omega, by omega⟩
    rw [h1, h2]
    refine ⟨⟨by omega, by omega⟩, iff_of_false (by omega) ?_⟩
    rintro ⟨-, hm, -⟩
    rw [htype] at hm
    cases hm
  | marketBid fillCost hside htype hc =>
    have hrange := Arith.isInt32_machine (-fillCost)
    unfold IsInt32 at hrange
    refine ⟨⟨by omega, by omega⟩, ?_⟩
    rw [machine_int_neg_eq_zero_iff (hcost fillCost hc), hc, Option.some_inj]
    exact ⟨fun h0 => ⟨hside, htype, h0⟩, fun h0 => h0.2.2⟩
  | ask hside =>
    have h1 : Arith.machine.int (-o.orderQty) = -o.orderQty := Arith.machine.int_eq _ ⟨by omega, by omega⟩
    rw [h1]
    refine ⟨⟨by omega, by omega⟩, iff_of_false (by omega) ?_⟩
    rintro ⟨hm, -⟩
    rw [hside] at hm
    cases hm

/-- The balances are the same after a reservation exactly when the reserved amount is zero. -/
private theorem Validated.unchanged_iff {bc bc' : BalanceChecker} {cost : Option Int} {o : NewOrderSingle}
    (hv : Validated cfg .machine bc cost o bc') (hb : bc.Fits) (hq : IsInt32 o.orderQty)
    (hp : ∀ p ∈ o.price, IsInt32 p) (hcost : ∀ c ∈ cost, IsInt32 c) :
    (∀ u tk, bc'.entry u tk = bc.entry u tk) ↔ o.side = .bid ∧ o.ordType = .market ∧ cost = some 0 := by
  obtain ⟨tk, delta, x, hr, -, hx, hx0, hpos, rfl⟩ := hv.reserved
  obtain ⟨⟨hlow, hhigh⟩, hzero⟩ := hr.amount hv.qty_pos hq hv.price_pos hp hcost
  rw [BalanceChecker.updated_unchanged_iff hx, machine_int64_add (hb _ _ x hx) hx0 hlow hhigh hpos, ← hzero]
  omega

/-- An accepted order that is not delivered leaves the balances as they were exactly when it is a market bid whose
fill cost is zero. -/
theorem Forwarding.balances_restored_iff {balances : BalanceChecker} {s s' : Forwarding} {i : Input}
    {o : NewOrderSingle} (hb : balances.Fits) (h : Reachable cfg balances s) (hi : i.Fits)
    (ho : s.manager.forwards cfg .machine i = [.newOrderSingle o]) (hs : s.step cfg .machine (i, false) = some s') :
    (∀ u tk, s'.manager.om.balanceChecker.entry u tk = s.manager.om.balanceChecker.entry u tk) ↔
      o.side = .bid ∧ o.ordType = .market ∧ ∃ ids, i = .answer (.fillCostResponse ⟨some 0⟩) ids := by
  have hrange := inRange_of_reachable hb h
  obtain ⟨m, hm, rfl⟩ := Option.map_eq_some_iff.1 hs
  rcases Manager.validated_of_forwards ho hm with ⟨hv, o₀, id, gw, sent, ids, rfl, rfl⟩ | ⟨cost, ids, gw, hv, hw, rfl⟩
  · rw [hv.unchanged_iff hrange.balances hi.2.2.1 hi.2.2.2 (fun _ hc => by cases hc)]
    refine and_congr_right fun _ => and_congr_right fun _ => iff_of_false (by simp) ?_
    rintro ⟨ids', he⟩
    cases he
  · obtain ⟨hq, hp⟩ := hrange.waiting o gw hw
    rw [hv.unchanged_iff hrange.balances hq hp hi]
    refine and_congr_right fun _ => and_congr_right fun _ => ⟨?_, ?_⟩
    · rintro rfl
      exact ⟨ids, rfl⟩
    · rintro ⟨ids', he⟩
      cases he
      rfl

namespace Forwarding

/-- `ann` bids for four shares at the market. -/
def marketBid : Input :=
  .request (.newOrderSingle ⟨"ann", "GME_SERVER", none, 1, "GME", .bid, 4, .market, none, .day⟩) 0 true fun _ => ""

/-- `bob` asks for ten shares. -/
def limitAsk : Input :=
  .request (.newOrderSingle ⟨"bob", "GME_SERVER", none, 1, "GME", .ask, 10, .limit, some 100, .day⟩) 0 true fun _ =>
    ""

theorem twoBalances_fits : twoBalances.Fits := by
  intro u tk x hx
  rcases twoBalances_entry hx with rfl | rfl <;> decide

/-- A market bid at no cost leaves the balances alone, delivered or not. -/
theorem balances_restored_marketBid : ∃ s s' : Forwarding, ∃ o, Reachable twoUsers twoBalances s ∧
    s.manager.forwards twoUsers .machine (.answer (.fillCostResponse ⟨some 0⟩) fun _ => "") = [.newOrderSingle o] ∧
    s.step twoUsers .machine (.answer (.fillCostResponse ⟨some 0⟩) fun _ => "", false) = some s' ∧ s'.delivered = [] ∧
    ∀ u tk, s'.manager.om.balanceChecker.entry u tk = s.manager.om.balanceChecker.entry u tk := by
  have hrun : (execIf (Forwarding.step twoUsers .machine) (fun _ e => e.1.Fits) (start twoBalances)
      [(marketBid, true)]).any
      (fun s => decide (s.manager.forwards twoUsers .machine (.answer (.fillCostResponse ⟨some 0⟩) fun _ => "") =
        [.newOrderSingle ⟨"ann", "GME_SERVER", some 0, 1, "GME", .bid, 4, .market, none, .day⟩]) &&
        (s.step twoUsers .machine (.answer (.fillCostResponse ⟨some 0⟩) fun _ => "", false)).any
          (fun s' => decide (s'.delivered = []))) = true := by decide +kernel
  obtain ⟨s, hreach, h⟩ := Reach.exists_of_execIf hrun
  rw [Bool.and_eq_true, decide_eq_true_eq, Option.any_eq_true] at h
  obtain ⟨hf, s', hs', hd⟩ := h
  have hfit : Input.Fits (.answer (.fillCostResponse ⟨some 0⟩) fun _ => "") := by decide
  exact ⟨s, s', _, hreach, hf, hs', of_decide_eq_true hd,
    (balances_restored_iff twoBalances_fits hreach hfit hf hs').2 ⟨rfl, rfl, _, rfl⟩⟩

/-- `bob`'s ask is accepted and the send fails: the engine has received nothing, and ten of the fifty shares are
gone. -/
theorem reservation_without_delivery : ∃ s' : Forwarding,
    (start twoBalances).manager.forwards twoUsers .machine limitAsk =
      [.newOrderSingle ⟨"bob", "GME_SERVER", some 0, 1, "GME", .ask, 10, .limit, some 100, .day⟩] ∧
    (start twoBalances).step twoUsers .machine (limitAsk, false) = some s' ∧ s'.delivered = [] ∧
    (start twoBalances).manager.om.balanceChecker.entry "bob" "GME" = some 50 ∧
    s'.manager.om.balanceChecker.entry "bob" "GME" = some 40 := by
  have hrun : ((start twoBalances).step twoUsers .machine (limitAsk, false)).any (fun s' =>
      decide (s'.delivered = [] ∧ s'.manager.om.balanceChecker.entry "bob" "GME" = some 40)) = true := by
        decide +kernel
  obtain ⟨s', hs', h⟩ := (Option.any_eq_true _ _).1 hrun
  obtain ⟨h1, h2⟩ := of_decide_eq_true h
  exact ⟨s', by decide +kernel, hs', h1, by decide +kernel, h2⟩

end Forwarding

end Elsa
