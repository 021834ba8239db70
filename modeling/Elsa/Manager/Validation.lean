import Elsa.Manager.Requests
import Elsa.Manager.Forwarding

/-!
# What validation accepts and reserves

`validate_container` asks for an active symbol, a positive price and quantity, and a balance that covers what the
order may cost.  An order that meets these conditions (`Acceptable`) is accepted and the balance is reduced by that
amount; nothing else is changed by any container.  The arithmetic of the checks is any `Arith`: no result leaves its
range (`int64Values_fit`), so that it does not matter what an overflow would do.
-/

namespace Elsa

open Base

variable {cfg : Config} {A : Arith} {bc : BalanceChecker} {cost : Option Int} {o : NewOrderSingle}

/-- The ticker whose balance has to cover a new order, and the amount. -/
def NewOrderSingle.required (o : NewOrderSingle) (cost : Option Int) : Option (String × Int) :=
  match o.side, o.ordType with
  | .bid, .limit => o.price.map fun price => (usdSymbol, price * o.orderQty)
  | .bid, .market => cost.map fun fillCost => (usdSymbol, fillCost)
  | .ask, _ => some (o.symbol, o.orderQty)

/-- The conditions for a new order. -/
structure Acceptable (cfg : Config) (bc : BalanceChecker) (cost : Option Int) (o : NewOrderSingle) : Prop where
  symbol_active : o.symbol ∈ cfg.activeSymbols
  price_pos : ∀ p, o.price = some p → 0 < p
  qty_pos : 0 < o.orderQty
  covered : ∃ ticker amount x, o.required cost = some (ticker, amount) ∧ bc.entry o.senderCompId ticker = some x ∧
    amount ≤ x

/-- The exact values of the 64-bit expressions that are evaluated for a new order once the balances are read: the
negated price, the change, and the balance with the change. -/
def int64Values (bc : BalanceChecker) (cost : Option Int) (o : NewOrderSingle) : List Int :=
  o.price.toList.map (fun price => -price) ++
    (o.required cost).toList.flatMap fun r => -r.2 :: (bc.entry o.senderCompId r.1).toList.map fun x => x + -r.2

/-- The numbers of the order and the fill cost are values of `int`, and those that matter are positive. -/
structure IntOrder (cost : Option Int) (o : NewOrderSingle) : Prop where
  qty_int : IsInt32 o.orderQty
  price_int : ∀ p ∈ o.price, IsInt32 p
  cost_int : ∀ c ∈ cost, 0 < c ∧ IsInt32 c
  price_pos : ∀ p, o.price = some p → 0 < p
  qty_pos : 0 < o.orderQty

/-- What an order requires is positive and far from the end of the 64-bit range. -/
private theorem IntOrder.required_bounds (h : IntOrder cost o) {ticker : String} {amount : Int}
    (hr : o.required cost = some (ticker, amount)) : 0 < amount ∧ amount ≤ 4611686014132420609 := by
  have hq := h.qty_int
  have hq0 := h.qty_pos
  unfold IsInt32 at hq
  unfold NewOrderSingle.required at hr
  split at hr
  · obtain ⟨p, hp, hr⟩ := Option.map_eq_some_iff.1 hr
    cases hr
    have hp0 := h.price_pos p hp
    have hpi := h.price_int p hp
    unfold IsInt32 at hpi
    have hmul : p * o.orderQty ≤ 2147483647 * 2147483647 := Int.mul_le_mul hpi.2 hq.2 (by omega) (by omega)
    exact ⟨Int.mul_pos hp0 hq0, by omega⟩
  · obtain ⟨c, hc, hr⟩ := Option.map_eq_some_iff.1 hr
    cases hr
    obtain ⟨hc0, hci⟩ := h.cost_int amount hc
    unfold IsInt32 at hci
    exact ⟨hc0, by omega⟩
  · cases hr
    exact ⟨hq0, by omega⟩

theorem int64Values_fit (h : IntOrder cost o) (hbc : bc.Nonneg) (hfits : bc.Fits) :
    ∀ v ∈ int64Values bc cost o, IsInt64 v := by
  intro v hv
  rcases List.mem_append.1 hv with hv | hv
  · obtain ⟨p, hp, rfl⟩ := List.mem_map.1 hv
    have hpi := h.price_int p (Option.mem_toList.1 hp)
    unfold IsInt32 at hpi
    exact ⟨by omega, by omega⟩
  · obtain ⟨⟨ticker, amount⟩, hr, hv⟩ := List.mem_flatMap.1 hv
    obtain ⟨h0, h1⟩ := h.required_bounds (Option.mem_toList.1 hr)
    rcases List.mem_cons.1 hv with rfl | hv
    · exact ⟨by show _ ≤ -amount; omega, by show -amount ≤ _; omega⟩
    · obtain ⟨x, hx, rfl⟩ := List.mem_map.1 hv
      have hx0 := hbc _ _ x (Option.mem_toList.1 hx)
      have hx1 := hfits _ _ x (Option.mem_toList.1 hx)
      unfold IsInt64 at hx1
      exact ⟨by show _ ≤ x + -amount; omega, by show x + -amount ≤ _; omega⟩

/-- A reservation is what the order requires, with the sign turned. -/
private theorem IntOrder.reservation_iff (h : IntOrder cost o) {ticker : String} {delta : Int} :
    Reservation A cost o ticker delta ↔ ∃ amount, o.required cost = some (ticker, amount) ∧ delta = -amount := by
  have hq := h.qty_int
  have hq0 := h.qty_pos
  unfold IsInt32 at hq
  -- the 32-bit and the 64-bit operations are exact here
  have hneg : A.int (-o.orderQty) = -o.orderQty := A.int_eq _ ⟨by omega, by omega⟩
  have hlimit : ∀ p, o.side = .bid → o.ordType = .limit → o.price = some p →
      A.int64 (A.int64 (-p) * o.orderQty) = -(p * o.orderQty) := by
    intro p hside htype hp
    have hpi := h.price_int p hp
    unfold IsInt32 at hpi
    have hb := h.required_bounds (show o.required cost = some (usdSymbol, p * o.orderQty) by
      simp [NewOrderSingle.required, hside, htype, hp])
    rw [A.int64_eq (-p) ⟨by omega, by omega⟩, Int.neg_mul]
    exact A.int64_eq _ ⟨by omega, by omega⟩
  have hmarket : ∀ c, cost = some c → A.int (-c) = -c := by
    intro c hc
    obtain ⟨hc0, hci⟩ := h.cost_int c hc
    unfold IsInt32 at hci
    exact A.int_eq _ ⟨by omega, by omega⟩
  constructor
  · rintro (⟨p, hside, htype, hp⟩ | ⟨c, hside, htype, hc⟩ | hside)
    · exact ⟨p * o.orderQty, by simp [NewOrderSingle.required, hside, htype, hp], hlimit p hside htype hp⟩
    · exact ⟨c, by simp [NewOrderSingle.required, hside, htype, hc], hmarket c hc⟩
    · exact ⟨o.orderQty, by simp [NewOrderSingle.required, hside], hneg⟩
  · rintro ⟨amount, hr, rfl⟩
    unfold NewOrderSingle.required at hr
    split at hr
    · rename_i hside htype
      obtain ⟨p, hp, hr⟩ := Option.map_eq_some_iff.1 hr
      cases hr
      rw [← hlimit p hside htype hp]
      exact .limitBid p hside htype hp
    · rename_i hside htype
      obtain ⟨c, hc, hr⟩ := Option.map_eq_some_iff.1 hr
      cases hr
      rw [← hmarket amount hc]
      exact .marketBid amount hside htype hc
    · rename_i hside
      cases hr
      rw [← hneg]
      exact .ask hside

private theorem IntOrder.int64_add (h : IntOrder cost o) (hbc : bc.Nonneg) (hfits : bc.Fits) {ticker : String}
    {amount x : Int} (hr : o.required cost = some (ticker, amount)) (hx : bc.entry o.senderCompId ticker = some x) :
    A.int64 (x + -amount) = x - amount := by
  have hmem : x + -amount ∈ int64Values bc cost o := by
    refine List.mem_append_right _ (List.mem_flatMap.2 ⟨(ticker, amount), Option.mem_toList.2 hr, ?_⟩)
    exact List.mem_cons_of_mem _ (List.mem_map.2 ⟨x, Option.mem_toList.2 hx, rfl⟩)
  exact A.int64_eq _ (int64Values_fit h hbc hfits _ hmem)

/-- An order that passes validation is accepted. -/
private theorem Validated.validateNewOrder_eq {bc' : BalanceChecker} (h : Validated cfg A bc cost o bc') :
    validateNewOrder cfg A bc cost o = .ok ("ok", bc') := by
  obtain ⟨ticker, delta, x, hr, htk, hx, h0, hd, rfl⟩ := h.reserved
  have hbroker := BalanceChecker.exists_of_entry hx
  unfold validateNewOrder
  rw [if_neg (not_not.2 h.symbol_active), if_neg (price_checked h.price_pos), if_neg (not_le.2 h.qty_pos),
    if_neg (by rw [hbroker]; decide)]
  cases hr with
  | limitBid price hside htype hp =>
    simp only [hside, htype, hp, BalanceChecker.brokerOwnsTicker, require_of (And.intro hbroker htk), hx, ok_bind,
      pure_bind, Option.isSome_some, Bool.true_eq_false, if_false, orFail_some]
    exact reserve_eq_ok htk hx h0 hd
  | marketBid fillCost hside htype hc =>
    simp only [hside, htype, hc, BalanceChecker.brokerOwnsTicker, require_of (And.intro hbroker htk), hx, ok_bind,
      pure_bind, Option.isSome_some, Bool.true_eq_false, if_false]
    exact reserve_eq_ok htk hx h0 hd
  | ask hside =>
    simp only [hside, BalanceChecker.brokerOwnsTicker, require_of (And.intro hbroker htk), hx, ok_bind, pure_bind,
      Option.isSome_some, Bool.true_eq_false, if_false]
    exact reserve_eq_ok htk hx h0 hd

/-- What a validated order takes from the balances. -/
private theorem IntOrder.updated_entry (h : IntOrder cost o) (hbc : bc.Nonneg) (hfits : bc.Fits) {ticker : String}
    {amount x : Int} (hr : o.required cost = some (ticker, amount)) (hx : bc.entry o.senderCompId ticker = some x)
    (u tk : String) :
    (bc.updated A o.senderCompId ticker (-amount)).entry u tk =
      if u = o.senderCompId ∧ tk = ticker then some (x - amount) else bc.entry u tk := by
  rw [BalanceChecker.entry_updated, BalanceChecker.newBalance, hx]
  simp only [h.int64_add hbc hfits hr hx]

private theorem validated_iff_acceptable (hsym : ∀ s ∈ cfg.activeSymbols, s ≠ "") (hbc : bc.Nonneg) (hfits : bc.Fits)
    (h : IntOrder cost o) : (∃ bc', Validated cfg A bc cost o bc') ↔ Acceptable cfg bc cost o := by
  constructor
  · rintro ⟨bc', hv⟩
    obtain ⟨ticker, delta, x, hr, -, hx, -, hd, -⟩ := hv.reserved
    obtain ⟨amount, hreq, rfl⟩ := h.reservation_iff.1 hr
    rw [h.int64_add hbc hfits hreq hx] at hd
    exact ⟨hv.symbol_active, hv.price_pos, hv.qty_pos, ticker, amount, x, hreq, hx, by omega⟩
  · intro ha
    obtain ⟨ticker, amount, x, hreq, hx, hle⟩ := ha.covered
    have htk : ticker ≠ "" := by
      unfold NewOrderSingle.required at hreq
      split at hreq
      · obtain ⟨p, -, hp⟩ := Option.map_eq_some_iff.1 hreq
        cases hp
        exact usdSymbol_ne
      · obtain ⟨c, -, hc⟩ := Option.map_eq_some_iff.1 hreq
        cases hc
        exact usdSymbol_ne
      · cases hreq
        exact hsym _ ha.symbol_active
    have hpos : 0 ≤ A.int64 (x + -amount) := by rw [h.int64_add hbc hfits hreq hx]; omega
    exact ⟨_, ha.symbol_active, ha.price_pos, ha.qty_pos, ticker, -amount, x,
      h.reservation_iff.2 ⟨amount, hreq, rfl⟩, htk, hx, hbc _ _ x hx, hpos, rfl⟩

/-- Validation accepts exactly the acceptable orders.  It then reduces one balance by what the order requires, and
changes nothing for any other container. -/
theorem validateContainer_reserves (cfg : Config) (A : Arith) (bc : BalanceChecker) (cost : Option Int)
    (hsym : ∀ s ∈ cfg.activeSymbols, s ≠ "") (hbc : bc.Nonneg) (hfits : bc.Fits)
    (hcost : ∀ c ∈ cost, 0 < c ∧ IsInt32 c) :
    (∀ o, (Container.newOrderSingle o).Fits → (o.ordType = .limit → o.price ≠ none) →
      (ReachesBalance cfg bc o → ∀ v ∈ int64Values bc cost o, IsInt64 v) ∧
      ∃ verdict bc', validateContainer cfg A bc cost (.newOrderSingle o) = .ok (verdict, bc') ∧ bc'.Nonneg ∧
        (verdict = "ok" ↔ Acceptable cfg bc cost o) ∧ (verdict ≠ "ok" → bc' = bc) ∧
        (verdict = "ok" → ∃ ticker amount x, o.required cost = some (ticker, amount) ∧ 0 < amount ∧
          bc.entry o.senderCompId ticker = some x ∧ ∀ u tk, bc'.entry u tk =
            if u = o.senderCompId ∧ tk = ticker then some (x - amount) else bc.entry u tk)) ∧
    ∀ c, ∃ verdict, validateContainer cfg A bc cost (.cancelOrderRequest c) = .ok (verdict, bc) := by
  refine ⟨fun o hint hlimit => ?_, fun c => ⟨_, rfl⟩⟩
  obtain ⟨-, -, hq, hp⟩ := hint
  have hread : ReachesBalance cfg bc o → Readable bc o := by
    intro hb
    unfold Readable
    split
    · exact hbc _ _
    · exact ⟨hsym _ hb.symbol_active, hbc _ _⟩
  refine ⟨fun hb => int64Values_fit ⟨hq, hp, hcost, hb.price_pos, hb.qty_pos⟩ hbc hfits, ?_⟩
  obtain ⟨⟨verdict, bc'⟩, heq⟩ : ∃ r, validateNewOrder cfg A bc cost o = .ok r :=
    validateNewOrder_total (fun ht => Option.isSome_iff_ne_none.2 (hlimit ht)) hread
  refine ⟨verdict, bc', heq, ?_⟩
  rcases validateNewOrder_ok heq with ⟨hne, rfl⟩ | ⟨rfl, hv⟩
  · refine ⟨hbc, ⟨fun hok => absurd hok hne, fun ha => ?_⟩, fun _ => rfl, fun hok => absurd hok hne⟩
    -- an acceptable order is validated, so the verdict is the other one
    have h : IntOrder cost o := ⟨hq, hp, hcost, ha.price_pos, ha.qty_pos⟩
    obtain ⟨bc₁, hv⟩ := (validated_iff_acceptable (A := A) hsym hbc hfits h).2 ha
    cases heq.symm.trans hv.validateNewOrder_eq
    rfl
  · have h : IntOrder cost o := ⟨hq, hp, hcost, hv.price_pos, hv.qty_pos⟩
    have ha := (validated_iff_acceptable hsym hbc hfits h).1 ⟨_, hv⟩
    obtain ⟨ticker, delta, x, hr, -, hx, -, hd, rfl⟩ := hv.reserved
    obtain ⟨amount, hreq, rfl⟩ := h.reservation_iff.1 hr
    have hentry := h.updated_entry (A := A) hbc hfits hreq hx
    refine ⟨fun u tk y hy => ?_, iff_of_true rfl ha, fun hne => absurd rfl hne, fun _ => ?_⟩
    · rw [hentry] at hy
      split at hy
      · cases hy
        rw [h.int64_add hbc hfits hreq hx] at hd
        exact hd
      · exact hbc u tk y hy
    · exact ⟨ticker, amount, x, hreq, (h.required_bounds hreq).1, hx, hentry⟩

/-- `bob` asks for ten of fifty shares: the balance covers them, and they are taken from it. -/
theorem validateContainer_reserves_ask :
    let o : NewOrderSingle := ⟨"bob", "GME_SERVER", some 0, 1, "GME", .ask, 10, .limit, some 100, .day⟩
    twoBalances.Nonneg ∧ twoBalances.Fits ∧ (Container.newOrderSingle o).Fits ∧
      ∃ bc', validateContainer twoUsers .machine twoBalances (some 7) (.newOrderSingle o) = .ok ("ok", bc') ∧
        bc'.Nonneg ∧ Acceptable twoUsers twoBalances (some 7) o ∧ bc'.entry "bob" "GME" = some 40 := by
  intro o
  have hint : (Container.newOrderSingle o).Fits := ⟨by decide, by decide, by decide, by decide⟩
  have h := (validateContainer_reserves twoUsers .machine twoBalances (some 7) (by decide) twoBalances_nonneg
    Forwarding.twoBalances_fits (by decide)).1 o hint (by decide)
  obtain ⟨-, verdict, bc', heq, hpos, hiff, -, hentry⟩ := h
  have ha : Acceptable twoUsers twoBalances (some 7) o :=
    ⟨by decide, fun p hp => by cases hp; decide, by decide, "GME", 10, 50, rfl, rfl, by decide⟩
  obtain rfl := hiff.2 ha
  refine ⟨twoBalances_nonneg, Forwarding.twoBalances_fits, hint, bc', heq, hpos, ha, ?_⟩
  obtain ⟨ticker, amount, x, hreq, -, hx, hall⟩ := hentry rfl
  cases hreq
  cases hx
  exact hall "bob" "GME"

end Elsa
