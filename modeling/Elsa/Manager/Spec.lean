import Elsa.Manager.OrderManager

/-!
# What requests and responses do to the order manager

One inversion lemma for each half of the loop: what a new order that is handled leaves behind
(`handleRequest_newOrder`), what a cancellation does (`handleRequest_cancel`), what the answer to a query does
(`completeRequest_ok`), and what a trade or a confirmed cancellation changes (`updateInternalData_trade`,
`updateInternalData_cancel`).
-/

namespace Elsa

open Base

variable {cfg : Config} {A : Arith}

/-! ### Validation -/

/-- The balance that an accepted order reserves, and by how much it changes. -/
inductive Reservation (A : Arith) (cost : Option Int) (o : NewOrderSingle) : String → Int → Prop
  | limitBid (price : Int) (hside : o.side = .bid) (htype : o.ordType = .limit) (hprice : o.price = some price) :
    Reservation A cost o usdSymbol (A.int64 (A.int64 (-price) * o.orderQty))
  | marketBid (fillCost : Int) (hside : o.side = .bid) (htype : o.ordType = .market) (hcost : cost = some fillCost) :
    Reservation A cost o usdSymbol (A.int (-fillCost))
  | ask (hside : o.side = .ask) : Reservation A cost o o.symbol (A.int (-o.orderQty))

/-- The order passed validation and its reservation was taken. -/
structure Validated (cfg : Config) (A : Arith) (bc : BalanceChecker) (cost : Option Int) (o : NewOrderSingle)
    (bc' : BalanceChecker) : Prop where
  symbol_active : o.symbol ∈ cfg.activeSymbols
  price_pos : ∀ p, o.price = some p → 0 < p
  qty_pos : 0 < o.orderQty
  reserved : ∃ ticker delta x, Reservation A cost o ticker delta ∧ ticker ≠ "" ∧
    bc.entry o.senderCompId ticker = some x ∧ 0 ≤ x ∧ 0 ≤ A.int64 (x + delta) ∧
    bc' = bc.updated A o.senderCompId ticker delta

private theorem reserve_ok {bc bc' : BalanceChecker} {u ticker insufficient verdict : String} {delta : Int}
    (hne : insufficient ≠ "ok") (h : reserve A bc u ticker delta insufficient = .ok (verdict, bc')) :
    (verdict ≠ "ok" ∧ bc' = bc) ∨
      (verdict = "ok" ∧ ticker ≠ "" ∧ ∃ x, bc.entry u ticker = some x ∧ 0 ≤ x ∧ 0 ≤ A.int64 (x + delta) ∧
        bc' = bc.updated A u ticker delta) := by
  rw [reserve, bind_eq_ok] at h
  obtain ⟨r, hr, h⟩ := h
  obtain ⟨x, hx, hx0, rfl⟩ := BalanceChecker.hasSufficientBalance_ok hr
  by_cases hd : 0 ≤ A.int64 (x + delta)
  · simp only [hd, decide_true, if_true, bind_eq_ok] at h
    obtain ⟨bc₁, hupd, h⟩ := h
    cases h
    obtain ⟨htk, -, rfl⟩ := BalanceChecker.updateBalance_eq_ok_iff.1 hupd
    exact Or.inr ⟨rfl, htk, x, hx, hx0, hd, rfl⟩
  · simp only [hd, decide_false] at h
    cases h
    exact Or.inl ⟨hne, rfl⟩

/-- A text with a long beginning is not the verdict of an accepted order. -/
private theorem append_ne_ok {s t u : String} (hs : 2 < s.length) : s ++ t ++ u ≠ "ok" := by
  intro h
  have := congrArg String.length h
  rw [String.length_append, String.length_append] at this
  have hok : "ok".length = 2 := by decide
  omega

theorem validateNewOrder_ok {bc bc' : BalanceChecker} {cost : Option Int} {o : NewOrderSingle} {verdict : String}
    (h : validateNewOrder cfg A bc cost o = .ok (verdict, bc')) :
    (verdict ≠ "ok" ∧ bc' = bc) ∨ (verdict = "ok" ∧ Validated cfg A bc cost o bc') := by
  unfold validateNewOrder at h
  split at h
  · cases h; exact Or.inl ⟨by decide, rfl⟩
  rename_i hsym
  split at h
  · cases h; exact Or.inl ⟨by decide, rfl⟩
  rename_i hprice
  split at h
  · cases h; exact Or.inl ⟨by decide, rfl⟩
  rename_i hqty
  split at h
  · cases h; exact Or.inl ⟨by decide, rfl⟩
  -- the four checks that do not read a balance have passed
  have hp : ∀ p, o.price = some p → 0 < p := by
    intro p hop
    rw [hop] at hprice
    simpa using hprice
  have hv : ∀ {ticker delta x}, Reservation A cost o ticker delta → ticker ≠ "" →
      bc.entry o.senderCompId ticker = some x → 0 ≤ x → 0 ≤ A.int64 (x + delta) →
      Validated cfg A bc cost o (bc.updated A o.senderCompId ticker delta) :=
    fun hr htk hx h0 h1 => ⟨not_not.1 hsym, hp, not_le.1 hqty, _, _, _, hr, htk, hx, h0, h1, rfl⟩
  cases hside : o.side with
  | bid =>
    simp only [hside, bind_eq_ok] at h
    obtain ⟨owns, -, h⟩ := h
    split at h
    · cases h; exact Or.inl ⟨by decide, rfl⟩
    cases htype : o.ordType with
    | limit =>
      simp only [htype, bind_eq_ok, orFail_eq_ok] at h
      obtain ⟨price, hpr, h⟩ := h
      rcases reserve_ok (by decide) h with hl | ⟨hv1, htk, x, hx, h0, h1, rfl⟩
      · exact Or.inl hl
      · exact Or.inr ⟨hv1, hv (.limitBid price hside htype hpr) htk hx h0 h1⟩
    | market =>
      simp only [htype] at h
      cases hcost : cost with
      | none => rw [hcost] at h; cases h; exact Or.inl ⟨by decide, rfl⟩
      | some c =>
        rw [hcost] at h
        rcases reserve_ok (by decide) h with hl | ⟨hv1, htk, x, hx, h0, h1, rfl⟩
        · exact Or.inl hl
        · exact Or.inr ⟨hv1, hcost ▸ hv (.marketBid c hside htype hcost) htk hx h0 h1⟩
  | ask =>
    simp only [hside, bind_eq_ok] at h
    obtain ⟨owns, -, h⟩ := h
    split at h
    · cases h; exact Or.inl ⟨append_ne_ok (by decide), rfl⟩
    rcases reserve_ok (append_ne_ok (by decide)) h with hl | ⟨hv1, htk, x, hx, h0, h1, rfl⟩
    · exact Or.inl hl
    · exact Or.inr ⟨hv1, hv (.ask hside) htk hx h0 h1⟩

/-! ### The rest of a request -/

private theorem forwardAndReply_forwarded {valid : Bool} {c : Container} {infos : Int → Option OrderInfo} {gw : Int}
    {reason : Option String} {execId : String} {out : Output}
    (h : forwardAndReply cfg valid c infos gw reason execId = .ok out) :
    out.forwarded = if valid then [c] else [] := by
  rw [forwardAndReply, bind_eq_ok] at h
  obtain ⟨-, -, h⟩ := h
  cases valid with
  | true =>
    simp only [if_true, bind_eq_ok] at h
    obtain ⟨r, -, h⟩ := h
    cases h
    rfl
  | false =>
    simp only [Bool.false_eq_true, if_false, bind_eq_ok] at h
    obtain ⟨a, -, r, -, h⟩ := h
    cases h
    rfl

private theorem finishRequest_error {gw : Int} {ids : Nat → String} {om om' : OrderManager} {c : Container}
    {err : String} {out : Output} (h : finishRequest cfg A gw ids om c (.error err) = .ok (om', out)) :
    om' = om ∧ out.forwarded = [] := by
  simp only [finishRequest, bind_eq_ok] at h
  obtain ⟨out₁, hf, db, -, h⟩ := h
  cases h
  exact ⟨rfl, forwardAndReply_forwarded hf⟩

private theorem finishRequest_newOrder {gw : Int} {ids : Nat → String} {om om' : OrderManager} {o : NewOrderSingle}
    {cost : Option Int} {out : Output}
    (h : finishRequest cfg A gw ids om (.newOrderSingle o) (.ok cost) = .ok (om', out)) :
    (om' = om ∧ out.forwarded = []) ∨
      ∃ bc', Validated cfg A om.balanceChecker cost o bc' ∧ om' = { om with balanceChecker := bc' } ∧
        out.forwarded = [.newOrderSingle o] := by
  simp only [finishRequest, validateContainer, bind_eq_ok] at h
  obtain ⟨⟨verdict, bc'⟩, hval, out₁, hf, db, -, h⟩ := h
  cases h
  have hfw := forwardAndReply_forwarded hf
  rcases validateNewOrder_ok hval with ⟨hne, hbc⟩ | ⟨hv, hvalid⟩
  · left
    simp only [decide_eq_true_eq, hne, if_false] at hfw
    exact ⟨by rw [hbc], hfw⟩
  · right
    simp only [decide_eq_true_eq, hv, if_true] at hfw
    exact ⟨bc', hvalid, rfl, hfw⟩

private theorem finishRequest_cancel {gw : Int} {ids : Nat → String} {om om' : OrderManager} {c : CancelOrderRequest}
    {cost : Option Int} {out : Output}
    (h : finishRequest cfg A gw ids om (.cancelOrderRequest c) (.ok cost) = .ok (om', out)) :
    om' = om ∧ ((c.orderId = none ∧ out.forwarded = []) ∨
      ∃ id, c.orderId = some id ∧ om.orderInfoMap id ≠ none ∧ out.forwarded = [.cancelOrderRequest c]) := by
  simp only [finishRequest, validateContainer, bind_eq_ok] at h
  obtain ⟨⟨verdict, bc'⟩, hval, out₁, hf, db, -, h⟩ := h
  cases h
  cases hval
  refine ⟨rfl, ?_⟩
  have hfw := forwardAndReply_forwarded hf
  cases hid : c.orderId with
  | none => left; simpa [hid] using hfw
  | some id =>
    right
    simp only [hid, Option.isSome_some, if_true, decide_true] at hfw hf
    refine ⟨id, rfl, ?_, hfw⟩
    simp only [forwardAndReply, generateSuccessReportContainer, hid, bind_eq_ok, if_true, orFail_eq_ok] at hf
    obtain ⟨-, -, r, ⟨id', hid', info, hinfo, -⟩, -⟩ := hf
    cases hid'
    rw [hinfo]
    exact Option.some_ne_none info

/-! ### Requests -/

/-- A new order under the id that the order manager gives it. -/
def NewOrderSingle.assigned (o : NewOrderSingle) (id : Int) : NewOrderSingle := { o with orderId := some id }

/-- What a new order leaves behind: the counter moves; if the user is known and the packed key is free, the order is
registered; then it is rejected, or forwarded with its reservation taken, or it waits for a fill cost. -/
theorem handleRequest_newOrder {sent : Bool} {gw : Int} {ids : Nat → String} {om om' : OrderManager}
    {o : NewOrderSingle} {res : Outcome}
    (h : handleRequest cfg A sent gw ids om (.newOrderSingle o) = .ok (om', res)) :
    let id := A.int (om.latestAssignedOrderId + 1)
    let om₁ := { om with latestAssignedOrderId := id }
    ((∀ userId, cfg.usernameUserIdMap o.senderCompId = some userId →
        om.orderIdMap.right (transformedClOrdId A o.clOrdId userId) ≠ none) ∧
        om' = om₁ ∧ ∃ out, res = .done out ∧ out.forwarded = []) ∨
      ∃ userId, cfg.usernameUserIdMap o.senderCompId = some userId ∧
        om.orderIdMap.right (transformedClOrdId A o.clOrdId userId) = none ∧
        let om₂ := om₁.register id (transformedClOrdId A o.clOrdId userId) (.ofNewOrder (o.assigned id) gw)
        ((om' = om₂ ∧ ∃ out, res = .done out ∧ out.forwarded = []) ∨
          (¬ (o.ordType = .market ∧ o.side = .bid) ∧
            ∃ bc' out, Validated cfg A om.balanceChecker none (o.assigned id) bc' ∧
              om' = { om₂ with balanceChecker := bc' } ∧ res = .done out ∧
              out.forwarded = [.newOrderSingle (o.assigned id)]) ∨
          (o.ordType = .market ∧ o.side = .bid ∧ sent = true ∧ om' = om₂ ∧
            res = .waiting (o.assigned id) ⟨o.symbol, o.orderQty, .ask⟩)) := by
  intro id om₁
  simp only [handleRequest, preprocessContainer, ok_bind] at h
  unfold preprocessNewOrder at h
  -- three ways out of preprocessing: an unknown user, a key in use, and an order that is entered
  cases hu : cfg.usernameUserIdMap o.senderCompId with
  | none =>
    simp only [hu, bind_eq_ok] at h
    obtain ⟨⟨om₃, out⟩, hf, h⟩ := h
    cases h
    obtain ⟨rfl, hfw⟩ := finishRequest_error hf
    exact Or.inl ⟨fun _ he => (by cases he), rfl, out, rfl, hfw⟩
  | some userId =>
    simp only [hu] at h
    by_cases hk : om.orderIdMap.right (transformedClOrdId A o.clOrdId userId) = none
    · right
      refine ⟨userId, rfl, hk, ?_⟩
      simp only [if_pos hk] at h
      by_cases hm : o.ordType = .market ∧ o.side = .bid
      · simp only [if_pos hm] at h
        cases sent with
        | true =>
          cases h
          exact Or.inr (Or.inr ⟨hm.1, hm.2, rfl, rfl, rfl⟩)
        | false =>
          simp only [Bool.false_eq_true, if_false, bind_eq_ok] at h
          obtain ⟨⟨om₃, out⟩, hf, h⟩ := h
          cases h
          obtain ⟨rfl, hfw⟩ := finishRequest_error hf
          exact Or.inl ⟨rfl, out, rfl, hfw⟩
      · simp only [if_neg hm, bind_eq_ok] at h
        obtain ⟨⟨om₃, out⟩, hf, h⟩ := h
        cases h
        rcases finishRequest_newOrder hf with ⟨rfl, hfw⟩ | ⟨bc', hv, rfl, hfw⟩
        · exact Or.inl ⟨rfl, out, rfl, hfw⟩
        · exact Or.inr (Or.inl ⟨hm, bc', out, hv, rfl, rfl, hfw⟩)
    · left
      simp only [if_neg hk, bind_eq_ok] at h
      obtain ⟨⟨om₃, out⟩, hf, h⟩ := h
      cases h
      obtain ⟨rfl, hfw⟩ := finishRequest_error hf
      exact ⟨fun _ he => (by cases he; exact hk), rfl, out, rfl, hfw⟩

/-- The cancellation as `preprocess_container` leaves it. -/
def preprocessedCancel (cfg : Config) (A : Arith) (om : OrderManager) (c : CancelOrderRequest) : CancelOrderRequest :=
  (preprocessCancelRequest cfg A om c).1

theorem preprocessedCancel_symbol (om : OrderManager) (c : CancelOrderRequest) :
    (preprocessedCancel cfg A om c).symbol = c.symbol := by
  unfold preprocessedCancel preprocessCancelRequest
  split
  · rfl
  · split <;> rfl

/-- A cancellation changes nothing in the order manager; it is forwarded only with the id of a registered order. -/
theorem handleRequest_cancel {sent : Bool} {gw : Int} {ids : Nat → String} {om om' : OrderManager}
    {c : CancelOrderRequest} {res : Outcome}
    (h : handleRequest cfg A sent gw ids om (.cancelOrderRequest c) = .ok (om', res)) :
    om' = om ∧ ∃ out, res = .done out ∧ (out.forwarded = [] ∨
      ∃ id, (preprocessedCancel cfg A om c).orderId = some id ∧ om.orderInfoMap id ≠ none ∧
        out.forwarded = [.cancelOrderRequest (preprocessedCancel cfg A om c)]) := by
  simp only [handleRequest, preprocessContainer, ok_bind] at h
  cases hr : (preprocessCancelRequest cfg A om c).2 with
  | error err =>
    simp only [hr, bind_eq_ok] at h
    obtain ⟨⟨om₃, out⟩, hf, h⟩ := h
    cases h
    obtain ⟨rfl, hfw⟩ := finishRequest_error hf
    exact ⟨rfl, out, rfl, Or.inl hfw⟩
  | ok cost =>
    simp only [hr, bind_eq_ok] at h
    obtain ⟨⟨om₃, out⟩, hf, h⟩ := h
    cases h
    obtain ⟨rfl, ⟨-, hfw⟩ | ⟨id, hid, hinfo, hfw⟩⟩ := finishRequest_cancel hf
    · exact ⟨rfl, out, rfl, Or.inl hfw⟩
    · exact ⟨rfl, out, rfl, Or.inr ⟨id, hid, hinfo, hfw⟩⟩

/-- The answer to a query: the market bid is rejected, or forwarded with the answered cost reserved. -/
theorem completeRequest_ok {gw : Int} {ids : Nat → String} {om om' : OrderManager} {o : NewOrderSingle}
    {answer : Container} {out : Output} (h : completeRequest cfg A gw ids om o answer = .ok (om', out)) :
    ∃ cost, answer = .fillCostResponse ⟨cost⟩ ∧
      ((om' = om ∧ out.forwarded = []) ∨
        ∃ bc', Validated cfg A om.balanceChecker cost o bc' ∧ om' = { om with balanceChecker := bc' } ∧
          out.forwarded = [.newOrderSingle o]) := by
  rw [completeRequest, bind_eq_ok] at h
  obtain ⟨cost, hcost, h⟩ := h
  cases answer <;> cases hcost
  rename_i r
  exact ⟨r.totalCost, rfl, finishRequest_newOrder h⟩

/-! ### Responses -/

/-- An order after a trade. -/
def OrderInfo.filled (A : Arith) (info : OrderInfo) (price quantity : Int) : OrderInfo :=
  { info with
    avgPx := A.int (Int.tdiv (A.int (A.int (info.avgPx * info.cumQty) + A.int (price * quantity)))
      (A.int (quantity + info.cumQty)))
    leavesQty := A.int (info.leavesQty - quantity)
    cumQty := A.int (info.cumQty + quantity) }

theorem applyTradeTo_eq_ok_iff {infos infos' : Int → Option OrderInfo} {id price quantity : Int} :
    applyTradeTo A infos id price quantity = .ok infos' ↔
      ∃ info, infos id = some info ∧ A.int (quantity + info.cumQty) ≠ 0 ∧
        infos' = Function.update infos id (some (info.filled A price quantity)) := by
  simp only [applyTradeTo, OrderInfo.applyTrade, bind_eq_ok, orFail_eq_ok, require_eq_ok]
  constructor
  · rintro ⟨info, hinfo, info', ⟨-, hne, h1⟩, h2⟩
    cases h1; cases h2
    exact ⟨info, hinfo, hne, rfl⟩
  · rintro ⟨info, hinfo, hne, rfl⟩
    exact ⟨info, hinfo, _, ⟨(), hne, rfl⟩, rfl⟩

/-- The orders after a trade. -/
def infosAfter (A : Arith) (infos : Int → Option OrderInfo) (t : TradeContainer) (taker maker : OrderInfo) :
    Int → Option OrderInfo :=
  Function.update (Function.update infos t.takerOrderId (some (taker.filled A t.price t.quantity))) t.makerOrderId
    (some (maker.filled A t.price t.quantity))

theorem infosAfter_price {infos : Int → Option OrderInfo} {t : TradeContainer} {taker maker info' : OrderInfo}
    {id : Int} (h1 : infos t.takerOrderId = some taker) (h2 : infos t.makerOrderId = some maker)
    (h : infosAfter A infos t taker maker id = some info') :
    ∃ info, infos id = some info ∧ info'.price = info.price := by
  simp only [infosAfter, Function.update_apply] at h
  split at h
  · rename_i he; cases h; exact ⟨maker, he ▸ h2, rfl⟩
  · split at h
    · rename_i he; cases h; exact ⟨taker, he ▸ h1, rfl⟩
    · exact ⟨info', h, rfl⟩

/-- A trade between two different orders: both are filled, the buyer gets the shares and the price improvement, the
seller the money. -/
theorem updateInternalData_trade {om om' : OrderManager} {t : TradeContainer}
    (hne : t.takerOrderId ≠ t.makerOrderId) :
    updateInternalData A om (.trade t) = .ok om' ↔
      ∃ taker maker buyer bc₁ bc₂ bc₃, om.orderInfoMap t.takerOrderId = some taker ∧
        om.orderInfoMap t.makerOrderId = some maker ∧ A.int (t.quantity + taker.cumQty) ≠ 0 ∧
        A.int (t.quantity + maker.cumQty) ≠ 0 ∧ om.orderInfoMap t.buyerOrderId = some buyer ∧
        om.balanceChecker.updateBalance A t.buyerId t.ticker t.quantity = .ok bc₁ ∧
        refundImprovement A bc₁ buyer.price t = .ok bc₂ ∧
        bc₂.updateBalance A t.sellerId usdSymbol (A.int (t.price * t.quantity)) = .ok bc₃ ∧
        om' = { om with orderInfoMap := infosAfter A om.orderInfoMap t taker maker, balanceChecker := bc₃ } := by
  have hbuyer : ∀ {taker maker buyer : OrderInfo}, om.orderInfoMap t.takerOrderId = some taker →
      om.orderInfoMap t.makerOrderId = some maker → om.orderInfoMap t.buyerOrderId = some buyer →
      ∃ buyer', infosAfter A om.orderInfoMap t taker maker t.buyerOrderId = some buyer' ∧
      buyer'.price = buyer.price := by
    intro taker maker buyer h1 h2 h3
    unfold TradeContainer.buyerOrderId infosAfter at *
    cases hb : t.isTakerBuyer <;> rw [hb] at h3
    · simp only [Bool.false_eq_true, if_false] at h3 ⊢
      rw [Function.update_self]
      rw [h2] at h3; cases h3
      exact ⟨_, rfl, rfl⟩
    · simp only [if_true] at h3 ⊢
      rw [Function.update_of_ne hne, Function.update_self]
      rw [h1] at h3; cases h3
      exact ⟨_, rfl, rfl⟩
  simp only [updateInternalData, bind_eq_ok, require_eq_ok, applyTradeTo_eq_ok_iff, orFail_eq_ok]
  constructor
  · rintro ⟨-, ⟨h1, h2⟩, infos₁, ⟨taker, ht, htd, rfl⟩, infos₂, ⟨maker, hm, hmd, rfl⟩, bc₁, hb₁, b', hb', bc₂, hb₂,
      bc₃, hb₃, h⟩
    cases h
    rw [Function.update_of_ne (Ne.symm hne)] at hm
    obtain ⟨buyer, hbuy⟩ : ∃ buyer, om.orderInfoMap t.buyerOrderId = some buyer := by
      unfold TradeContainer.buyerOrderId
      split
      · exact ⟨taker, ht⟩
      · exact ⟨maker, hm⟩
    obtain ⟨b'', hb'', hp⟩ := hbuyer ht hm hbuy
    rw [infosAfter, hb'] at hb''
    cases hb''
    exact ⟨taker, maker, buyer, bc₁, bc₂, bc₃, ht, hm, htd, hmd, hbuy, hb₁, hp ▸ hb₂, hb₃, rfl⟩
  · rintro ⟨taker, maker, buyer, bc₁, bc₂, bc₃, ht, hm, htd, hmd, hbuy, hb₁, hb₂, hb₃, rfl⟩
    obtain ⟨b', hb', hp⟩ := hbuyer ht hm hbuy
    exact ⟨(), ⟨by simp [ht], by simp [hm]⟩, _, ⟨taker, ht, htd, rfl⟩, _,
      ⟨maker, by rw [Function.update_of_ne (Ne.symm hne)]; exact hm, hmd, rfl⟩, bc₁, hb₁, b', hb', bc₂, hp ▸ hb₂,
      bc₃, hb₃, rfl⟩

/-- The balances after the refund for a limit buyer. -/
def refunded (A : Arith) (bc : BalanceChecker) (limit : Option Int) (t : TradeContainer) : BalanceChecker :=
  match limit with
  | none => bc
  | some price =>
    if 0 < A.int (price - t.price) then
      bc.updated A t.buyerId usdSymbol (A.int (A.int (price - t.price) * t.quantity))
    else bc

/-- The balances after a trade. -/
def tradeBalances (A : Arith) (bc : BalanceChecker) (limit : Option Int) (t : TradeContainer) : BalanceChecker :=
  (refunded A (bc.updated A t.buyerId t.ticker t.quantity) limit t).updated A t.sellerId usdSymbol
    (A.int (t.price * t.quantity))

theorem refundImprovement_ok {bc bc' : BalanceChecker} {limit : Option Int} {t : TradeContainer}
    (h : refundImprovement A bc limit t = .ok bc') : bc' = refunded A bc limit t := by
  unfold refundImprovement at h
  unfold refunded
  cases limit with
  | none => cases h; rfl
  | some price =>
    simp only [bind_eq_ok, require_eq_ok] at h
    obtain ⟨-, -, h⟩ := h
    simp only
    split at h
    · rename_i hpos
      rw [if_pos hpos]
      exact (BalanceChecker.updateBalance_eq_ok_iff.1 h).2.2
    · rename_i hpos
      rw [if_neg hpos]
      cases h
      rfl

/-- What a trade that is processed leaves behind. -/
theorem updateInternalData_trade_ok {om om' : OrderManager} {t : TradeContainer}
    (hne : t.takerOrderId ≠ t.makerOrderId) (h : updateInternalData A om (.trade t) = .ok om') :
    ∃ taker maker buyer, om.orderInfoMap t.takerOrderId = some taker ∧ om.orderInfoMap t.makerOrderId = some maker ∧
      om.orderInfoMap t.buyerOrderId = some buyer ∧
      om' = { om with orderInfoMap := infosAfter A om.orderInfoMap t taker maker
                      balanceChecker := tradeBalances A om.balanceChecker buyer.price t } := by
  obtain ⟨taker, maker, buyer, bc₁, bc₂, bc₃, h1, h2, -, -, h3, hb₁, hb₂, hb₃, rfl⟩ :=
    (updateInternalData_trade hne).1 h
  obtain ⟨-, -, rfl⟩ := BalanceChecker.updateBalance_eq_ok_iff.1 hb₁
  obtain rfl := refundImprovement_ok hb₂
  obtain ⟨-, -, rfl⟩ := BalanceChecker.updateBalance_eq_ok_iff.1 hb₃
  exact ⟨taker, maker, buyer, h1, h2, h3, rfl⟩

/-- Where a cancelled order gives back its reservation, and how much. -/
def OrderInfo.released (A : Arith) (info : OrderInfo) (price : Int) : String × Int :=
  match info.side with
  | .bid => (usdSymbol, A.int (price * info.leavesQty))
  | .ask => (info.symbol, info.leavesQty)

/-- A confirmed cancellation gives back what the order still reserves. -/
theorem updateInternalData_cancel {om om' : OrderManager} {id clOrdId : Int} :
    updateInternalData A om (.cancelOrderResponse ⟨id, clOrdId, true⟩) = .ok om' ↔
      ∃ info price bc', om.orderInfoMap id = some info ∧ info.price = some price ∧
        om.balanceChecker.updateBalance A info.senderCompId (info.released A price).1 (info.released A price).2 =
          .ok bc' ∧ om' = { om with balanceChecker := bc' } := by
  simp only [updateInternalData, if_true, bind_eq_ok, orFail_eq_ok]
  constructor
  · rintro ⟨info, hinfo, price, hprice, h⟩
    cases hside : info.side <;> simp only [hside, bind_eq_ok] at h <;> obtain ⟨bc', hbc, h⟩ := h <;> cases h <;>
      exact ⟨info, price, bc', hinfo, hprice, by simpa [OrderInfo.released, hside] using hbc, rfl⟩
  · rintro ⟨info, price, bc', hinfo, hprice, hbc, rfl⟩
    refine ⟨info, hinfo, price, hprice, ?_⟩
    cases hside : info.side <;> simp only [OrderInfo.released, hside] at hbc <;> simp only [hbc] <;> exact rfl

theorem updateInternalData_refused {om : OrderManager} {id clOrdId : Int} :
    updateInternalData A om (.cancelOrderResponse ⟨id, clOrdId, false⟩) = .ok om := rfl

theorem handleResponse_eq_ok_iff {ids : Nat → String} {om om' : OrderManager} {c : Container} {out : Output} :
    handleResponse cfg A ids om c = .ok (om', out) ↔
      updateInternalData A om c = .ok om' ∧ ∃ reports database, returnExecutionReport cfg om' ids c = .ok reports ∧
        updateDatabase cfg om' none c = .ok database ∧ out = ⟨[], reports, database⟩ := by
  simp only [handleResponse, bind_eq_ok]
  constructor
  · rintro ⟨om₁, h1, reports, h2, database, h3, h⟩
    cases h
    exact ⟨h1, reports, database, h2, h3, rfl⟩
  · rintro ⟨h1, reports, database, h2, h3, rfl⟩
    exact ⟨om', h1, reports, h2, database, h3, rfl⟩

end Elsa
