import Elsa.System.Agreement

/-!
# Responses never stop the order manager

With exact integers and balances that are not negative at the start, no balance ever becomes negative, and the order
manager processes every response that the engine sends: the orders of a trade are registered, a limit buyer never
pays more than the limit, a cancelled order has a price, and the balances that are written to the database exist.

`Solvent` is the invariant of the balances; the facts about the response come from `Agrees`.
-/

namespace Elsa

open Base

/-- The ticker in which an order reserves. -/
def NewOrderSingle.reservedTicker (o : NewOrderSingle) : String :=
  match o.side with
  | .bid => usdSymbol
  | .ask => o.symbol

theorem Reservation.ticker_eq {A : Arith} {cost : Option Int} {o : NewOrderSingle} {ticker : String} {delta : Int}
    (h : Reservation A cost o ticker delta) : o.reservedTicker = ticker := by
  cases h with
  | limitBid price hside => rw [NewOrderSingle.reservedTicker, hside]
  | marketBid fillCost hside => rw [NewOrderSingle.reservedTicker, hside]
  | ask hside => rw [NewOrderSingle.reservedTicker, hside]

/-- No balance is negative, and there is a balance for each reservation. -/
structure BalanceChecker.Solvent (bc : BalanceChecker) (accepted : List NewOrderSingle) : Prop where
  nonneg : bc.Nonneg
  owns : ∀ o ∈ accepted, bc.entry o.senderCompId o.reservedTicker ≠ none

theorem BalanceChecker.Solvent.updated {bc : BalanceChecker} {accepted : List NewOrderSingle}
    (h : bc.Solvent accepted) {A : Arith} {u tk : String} {delta : Int} (hnew : 0 ≤ bc.newBalance A u tk delta) :
    (bc.updated A u tk delta).Solvent accepted :=
  ⟨h.nonneg.updated hnew, fun o ho => entry_updated_ne_none (h.owns o ho)⟩

private theorem BalanceChecker.Solvent.credited {bc : BalanceChecker} {accepted : List NewOrderSingle}
    (h : bc.Solvent accepted) {u tk : String} {delta : Int} (hd : 0 ≤ delta) :
    (bc.updated .exact u tk delta).Solvent accepted :=
  h.updated (h.nonneg.newBalance hd)

/-- A reservation leaves the balances solvent, the new order included. -/
theorem Validated.solvent {cfg : Config} {bc bc' : BalanceChecker} {cost : Option Int} {o : NewOrderSingle}
    {accepted : List NewOrderSingle} (hv : Validated cfg .exact bc cost o bc') (h : bc.Solvent accepted) :
    bc'.Solvent (accepted ++ [o]) := by
  obtain ⟨ticker, delta, x, hr, -, hx, -, hpos, rfl⟩ := hv.reserved
  have hnew : bc.newBalance .exact o.senderCompId ticker delta = x + delta := by
    rw [BalanceChecker.newBalance, hx]; rfl
  have hs := h.updated (hnew ▸ hpos : 0 ≤ bc.newBalance .exact o.senderCompId ticker delta)
  refine ⟨hs.nonneg, fun o' ho' => ?_⟩
  rcases List.mem_append.1 ho' with ho' | ho'
  · exact hs.owns o' ho'
  · rw [List.mem_singleton.1 ho', hr.ticker_eq, BalanceChecker.entry_updated_self]
    exact Option.some_ne_none _

private theorem persistBalance_ok {cfg : Config} {bc : BalanceChecker} {u tk : String}
    (hu : cfg.usernameUserIdMap u ≠ none) (hn : bc.Nonneg) (he : bc.entry u tk ≠ none) :
    ∃ call, persistBalance cfg bc u tk = .ok call := by
  obtain ⟨userId, hu⟩ := Option.ne_none_iff_exists'.1 hu
  obtain ⟨x, hx⟩ := Option.ne_none_iff_exists'.1 he
  rw [persistBalance, hu, orFail_some, ok_bind, BalanceChecker.getBalance_eq hx (hn u tk x hx)]
  exact ⟨_, rfl⟩

/-! ### Trades -/

section trade

variable {bc : BalanceChecker} {accepted : List NewOrderSingle} {t : TradeContainer} {limit : Option Int}
  (hq : 0 < t.quantity) (hlimit : ∀ p, limit = some p → t.price ≤ p)

include hq hlimit

private theorem refundImprovement_succeeds (h : bc.Solvent accepted) :
    refundImprovement .exact bc limit t = .ok (refunded .exact bc limit t) ∧
      (refunded .exact bc limit t).Solvent accepted := by
  cases limit with
  | none => exact ⟨rfl, h⟩
  | some p =>
    have hle := hlimit p rfl
    have hnn : 0 ≤ Arith.exact.int (p - t.price) := by show 0 ≤ p - t.price; omega
    simp only [refundImprovement, refunded, require_of hnn, ok_bind]
    by_cases hpos : 0 < Arith.exact.int (p - t.price)
    · have hmul : 0 ≤ Arith.exact.int (Arith.exact.int (p - t.price) * t.quantity) := Int.mul_nonneg hnn hq.le
      rw [if_pos hpos, if_pos hpos]
      exact ⟨h.nonneg.credit usdSymbol_ne hmul, h.credited hmul⟩
    · rw [if_neg hpos, if_neg hpos]
      exact ⟨rfl, h⟩

omit hq hlimit in
/-- The refund removes no entry. -/
private theorem entry_refunded_ne_none {u tk : String} (h : bc.entry u tk ≠ none) :
    (refunded .exact bc limit t).entry u tk ≠ none := by
  unfold refunded
  split
  · exact h
  · split
    · exact BalanceChecker.entry_updated_ne_none h
    · exact h

/-- The three updates of a trade succeed. -/
private theorem tradeBalances_succeeds (h : bc.Solvent accepted) (htk : t.ticker ≠ "") (hp : 0 < t.price) :
    ∃ bc₁ bc₂, bc.updateBalance .exact t.buyerId t.ticker t.quantity = .ok bc₁ ∧
      refundImprovement .exact bc₁ limit t = .ok bc₂ ∧
      bc₂.updateBalance .exact t.sellerId usdSymbol (Arith.exact.int (t.price * t.quantity)) =
        .ok (tradeBalances .exact bc limit t) ∧
      (tradeBalances .exact bc limit t).Solvent accepted := by
  have hmul : 0 ≤ Arith.exact.int (t.price * t.quantity) := (Int.mul_pos hp hq).le
  have h₁ : (bc.updated .exact t.buyerId t.ticker t.quantity).Solvent accepted := h.credited hq.le
  obtain ⟨hrun, h₂⟩ := refundImprovement_succeeds hq hlimit h₁
  exact ⟨_, _, h.nonneg.credit htk hq.le, hrun, h₂.nonneg.credit usdSymbol_ne hmul, h₂.credited hmul⟩

end trade

namespace Exchange

variable {cfg : Config} {s : Exchange}

/-- The order manager's part of a trade: both orders are filled and the balances stay solvent. -/
private theorem Agrees.trade_succeeds (h : s.Agrees cfg) (hs : s.om.balanceChecker.Solvent s.history.accepted)
    {t : TradeContainer} {responses : List Container} (hr : s.responses = .trade t :: responses) :
    ∃ om, updateInternalData .exact s.om (.trade t) = .ok om ∧ om.balanceChecker.Solvent s.history.accepted ∧
      om.balanceChecker.entry t.buyerId t.ticker ≠ none ∧ om.balanceChecker.entry t.sellerId usdSymbol ≠ none := by
  obtain ⟨tk, htk, mk, hmk, hb⟩ := h.trade_between hr
  obtain ⟨taker, ht, htrec⟩ := h.recorded tk htk
  obtain ⟨maker, hm, hmrec⟩ := h.recorded mk hmk
  have hcum : ∀ {info : OrderInfo} {o}, o ∈ s.history.accepted → info.Records o (amountOf s.history.processed o.id) →
      Arith.exact.int (t.quantity + info.cumQty) ≠ 0 := by
    intro info o ho hrec
    have h1 := (h.trade_le hr ho).1
    have h2 := hrec.cum_eq
    have h3 := hb.quantity_pos
    show t.quantity + info.cumQty ≠ 0
    omega
  -- the buyer is one of the two orders
  obtain ⟨buyer, hbuyer, hlimit, hne⟩ : ∃ buyer, s.om.orderInfoMap t.buyerOrderId = some buyer ∧
      (∀ p, buyer.price = some p → t.price ≤ p) ∧ t.ticker ≠ "" := by
    obtain ⟨bo, hbo, so, hso, hp⟩ := h.trade_parties hr
    obtain ⟨info, hinfo, hrec⟩ := h.recorded bo hbo
    refine ⟨info, hp.buyer_id ▸ hinfo, fun p hpr => hp.limit_le p (hrec.price_eq ▸ hpr), ?_⟩
    exact hp.seller_symbol ▸ (h.placed.admitted so hso).symbol_ne hp.seller_side
  obtain ⟨bc₁, bc₂, h₁, h₂, h₃, hsolv⟩ := tradeBalances_succeeds hb.quantity_pos hlimit hs hne hb.price_pos
  rw [hb.taker_id] at ht
  rw [hb.maker_id] at hm
  refine ⟨_, (updateInternalData_trade hb.ids_ne).2 ⟨taker, maker, buyer, bc₁, bc₂, _, ht, hm, hcum htk htrec,
    hcum hmk hmrec, hbuyer, h₁, h₂, h₃, rfl⟩, hsolv, ?_, ?_⟩
  · refine BalanceChecker.entry_updated_ne_none (entry_refunded_ne_none ?_)
    rw [BalanceChecker.entry_updated_self]
    exact Option.some_ne_none _
  · show (tradeBalances _ _ _ _).entry _ _ ≠ none
    rw [tradeBalances, BalanceChecker.entry_updated_self]
    exact Option.some_ne_none _

/-- The order manager's part of a successful cancellation: what is left of the reservation is given back. -/
theorem Agrees.cancel_succeeds (h : s.Agrees cfg) (hs : s.om.balanceChecker.Solvent s.history.accepted)
    {id clOrdId : Int} {responses : List Container}
    (hr : s.responses = .cancelOrderResponse ⟨id, clOrdId, true⟩ :: responses) :
    ∃ om info o, updateInternalData .exact s.om (.cancelOrderResponse ⟨id, clOrdId, true⟩) = .ok om ∧
      om.balanceChecker.Solvent s.history.accepted ∧ om.orderInfoMap id = some info ∧ info.price ≠ none ∧
      o ∈ s.history.accepted ∧ info.Records o (amountOf s.history.processed o.id) := by
  obtain ⟨-, -, o, ho, rfl, hprice⟩ := h.placed.closed _ (Agrees.mem_stream hr) id rfl
  obtain ⟨info, hinfo, hrec⟩ := h.recorded o ho
  obtain ⟨price, hp⟩ := Option.ne_none_iff_exists'.1 hprice
  have hadm := h.placed.admitted o ho
  have hpos := (hadm.price_range price hp).1
  have hleaves := (h.leaves_range ho hrec).1
  have hticker : (info.released .exact price).1 = o.reservedTicker ∧ 0 ≤ (info.released .exact price).2 := by
    unfold OrderInfo.released NewOrderSingle.reservedTicker
    rw [hrec.side_eq]
    cases o.side with
    | bid => exact ⟨rfl, Int.mul_nonneg hpos.le hleaves⟩
    | ask => exact ⟨hrec.symbol_eq, hleaves⟩
  have hne : o.reservedTicker ≠ "" := by
    unfold NewOrderSingle.reservedTicker
    cases hside : o.side with
    | bid => exact usdSymbol_ne
    | ask => exact hadm.symbol_ne hside
  refine ⟨_, info, o, updateInternalData_cancel.2 ⟨info, price, _, hinfo, hrec.price_eq.trans hp,
    hs.nonneg.credit (hticker.1.symm ▸ hne) hticker.2, rfl⟩, hs.credited hticker.2, hinfo, ?_, ho, hrec⟩
  rw [hrec.price_eq]
  exact hprice

/-! ### Reports and the database -/

private theorem matchedOrderReport_ok (cfg : Config) {om : OrderManager} (t : TradeContainer) {id : Int}
    (hkey : om.orderIdMap.left id ≠ none) (hinfo : om.orderInfoMap id ≠ none) (target : String) (side : Side)
    (execId : String) : ∃ r, generateMatchedOrderReport cfg om t target id side execId = .ok r := by
  obtain ⟨key, hk⟩ := Option.ne_none_iff_exists'.1 hkey
  obtain ⟨info, hi⟩ := Option.ne_none_iff_exists'.1 hinfo
  rw [generateMatchedOrderReport, hk, hi]
  exact ⟨_, rfl⟩

private theorem cancelResponseReport_ok (cfg : Config) {om : OrderManager} (r : CancelOrderResponse)
    (hkey : om.orderIdMap.left r.orderId ≠ none) (hinfo : om.orderInfoMap r.orderId ≠ none) (execId : String) :
    ∃ rep, generateCancelResponseReportContainer cfg om r execId = .ok rep := by
  obtain ⟨key, hk⟩ := Option.ne_none_iff_exists'.1 hkey
  obtain ⟨info, hi⟩ := Option.ne_none_iff_exists'.1 hinfo
  rw [generateCancelResponseReportContainer, hk, hi]
  exact ⟨_, rfl⟩

/-- Registered orders stay registered when a response is processed. -/
private theorem Agrees.known_after (h : s.Agrees cfg) {A : Arith} {c : Container} {om : OrderManager}
    (hu : updateInternalData A s.om c = .ok om) {id : Int} (hid : s.om.orderInfoMap id ≠ none) :
    om.orderIdMap.left id ≠ none ∧ om.orderInfoMap id ≠ none := by
  obtain ⟨hleft, -, hfixed⟩ := updateInternalData_fixed hu
  refine ⟨by rw [hleft]; exact mt (h.domain id).1 hid, fun hn => hid ?_⟩
  rw [← Option.map_eq_none_iff (f := OrderInfo.fixed), ← hfixed, hn]
  rfl

theorem Agrees.handleResponse_trade (h : s.Agrees cfg) (hs : s.om.balanceChecker.Solvent s.history.accepted)
    {t : TradeContainer} {responses : List Container} (hr : s.responses = .trade t :: responses)
    (ids : Nat → String) : ∃ r, handleResponse cfg .exact ids s.om (.trade t) = .ok r := by
  obtain ⟨om, hu, hsolv, hbuy, hsell⟩ := h.trade_succeeds hs hr
  obtain ⟨tk, htk, mk, hmk, hb⟩ := h.trade_between hr
  have hknown : ∀ {o}, o ∈ s.history.accepted → om.orderIdMap.left o.id ≠ none ∧ om.orderInfoMap o.id ≠ none :=
    fun ho => h.known_after hu (h.accepted_known (List.mem_map.2 ⟨_, ho, rfl⟩))
  obtain ⟨htl, hti⟩ := hb.taker_id ▸ hknown htk
  obtain ⟨hml, hmi⟩ := hb.maker_id ▸ hknown hmk
  obtain ⟨r₁, hr₁⟩ := matchedOrderReport_ok cfg t htl hti t.takerId (if t.isTakerBuyer then .bid else .ask)
    (ids 0)
  obtain ⟨r₂, hr₂⟩ := matchedOrderReport_ok cfg t hml hmi t.makerId (if t.isTakerBuyer then .ask else .bid)
    (ids 1)
  -- the buyer and the seller, who reserved in dollars and in the symbol
  obtain ⟨buyer, hbo, seller, hso, hp⟩ := h.trade_parties hr
  have hbu := hp.buyer_sender ▸ (h.placed.admitted buyer hbo).user
  have hsu := hp.seller_sender ▸ (h.placed.admitted seller hso).user
  have hbusd : om.balanceChecker.entry t.buyerId usdSymbol ≠ none := by
    have := hsolv.owns buyer hbo
    rwa [NewOrderSingle.reservedTicker, hp.buyer_side, hp.buyer_sender] at this
  have hssym : om.balanceChecker.entry t.sellerId t.ticker ≠ none := by
    have := hsolv.owns seller hso
    rwa [NewOrderSingle.reservedTicker, hp.seller_side, hp.seller_sender, hp.seller_symbol] at this
  obtain ⟨d₁, hd₁⟩ := persistBalance_ok hbu hsolv.nonneg hbusd
  obtain ⟨d₂, hd₂⟩ := persistBalance_ok hbu hsolv.nonneg hbuy
  obtain ⟨d₃, hd₃⟩ := persistBalance_ok hsu hsolv.nonneg hsell
  obtain ⟨d₄, hd₄⟩ := persistBalance_ok hsu hsolv.nonneg hssym
  refine ⟨(om, ⟨[], [r₁, r₂], [.insertTrade t, d₁, d₂, d₃, d₄]⟩), handleResponse_eq_ok_iff.2 ⟨hu, _, _, ?_, ?_, rfl⟩⟩
  · simp only [returnExecutionReport, generateMatchedOrderReportContainers, hr₁, hr₂, ok_bind]
    rfl
  · simp only [updateDatabase, hd₁, hd₂, hd₃, hd₄, ok_bind]
    rfl

theorem Agrees.handleResponse_cancel (h : s.Agrees cfg) (hs : s.om.balanceChecker.Solvent s.history.accepted)
    {r : CancelOrderResponse} {responses : List Container} (hr : s.responses = .cancelOrderResponse r :: responses)
    (hid : s.om.orderInfoMap r.orderId ≠ none) (ids : Nat → String) :
    ∃ res, handleResponse cfg .exact ids s.om (.cancelOrderResponse r) = .ok res := by
  obtain ⟨id, clOrdId, success⟩ := r
  cases success with
  | false =>
    obtain ⟨hl, hi⟩ := h.known_after (A := .exact) (c := .cancelOrderResponse ⟨id, clOrdId, false⟩)
      updateInternalData_refused hid
    obtain ⟨rep, hrep⟩ := cancelResponseReport_ok cfg ⟨id, clOrdId, false⟩ hl hi (ids 0)
    refine ⟨(s.om, ⟨[], [rep], [.insertCancelResponse ⟨id, clOrdId, false⟩]⟩),
      handleResponse_eq_ok_iff.2 ⟨updateInternalData_refused, _, _, ?_, rfl, rfl⟩⟩
    simp only [returnExecutionReport, hrep, ok_bind]
    rfl
  | true =>
    obtain ⟨om, info, o, hu, hsolv, hinfo, hprice, ho, hrec⟩ := h.cancel_succeeds hs hr
    obtain ⟨hl, hi⟩ := h.known_after hu hid
    obtain ⟨rep, hrep⟩ := cancelResponseReport_ok cfg ⟨id, clOrdId, true⟩ hl hi (ids 0)
    have hown : om.balanceChecker.entry info.senderCompId
        (match info.side with | .bid => usdSymbol | .ask => info.symbol) ≠ none := by
      have := hsolv.owns o ho
      rw [NewOrderSingle.reservedTicker] at this
      rw [hrec.sender_eq, hrec.side_eq, hrec.symbol_eq]
      exact this
    obtain ⟨d, hd⟩ := persistBalance_ok (hrec.sender_eq.symm ▸ (h.placed.admitted o ho).user) hsolv.nonneg hown
    refine ⟨(om, ⟨[], [rep], [.insertCancelResponse ⟨id, clOrdId, true⟩, d]⟩),
      handleResponse_eq_ok_iff.2 ⟨hu, _, _, ?_, ?_, rfl⟩⟩
    · simp only [returnExecutionReport, hrep, ok_bind]
      rfl
    · simp only [updateDatabase, if_true, hinfo, orFail_some, ok_bind, require_of hprice]
      exact bind_eq_ok.2 ⟨d, hd, rfl⟩

/-! ### Solvency along runs -/

/-- A move keeps the balances solvent. -/
theorem Agrees.solvent_move (h : s.Agrees cfg) (hs : s.om.balanceChecker.Solvent s.history.accepted) {e : Event}
    {s' : Exchange} (hm : Move cfg .exact s e s') : s'.om.balanceChecker.Solvent s'.history.accepted := by
  cases hm with
  | forwarded o gw ids userId bc hr hnm hv => exact hv.solvent hs
  | answerAccepted o gw cost answers ids bc hw ha hv => exact hv.solvent hs
  | settled t responses ids om hw hr hu =>
    obtain ⟨om', hu', hs', -⟩ := h.trade_succeeds hs hr
    rw [hu'] at hu
    cases hu
    exact hs'
  | confirmed id clOrdId responses ids om hw hr hu =>
    obtain ⟨om', info, o, hu', hs', -⟩ := h.cancel_succeeds hs hr
    rw [hu'] at hu
    cases hu
    exact hs'
  | refused => exact hs
  | rejected => exact hs
  | queried => exact hs
  | cancelRefused => exact hs
  | cancelForwarded => exact hs
  | answerRefused => exact hs
  | matched => exact hs
  | cancelled => exact hs
  | cancelMissed => exact hs
  | quoted => exact hs
  | cancelFailed => exact hs

private theorem solvent_of_reachable {balances : BalanceChecker} (h₀ : balances.Nonneg)
    (h : Reachable cfg balances s) : s.Agrees cfg ∧ s.om.balanceChecker.Solvent s.history.accepted :=
  invariant_of_moves (I := fun s => s.om.balanceChecker.Solvent s.history.accepted)
    (fun s e hfed => ⟨hfed, counterFits_exact s e⟩) h ⟨h₀, fun _ ho => (by cases ho)⟩
    fun _ _ _ ha hs _ hm => ha.solvent_move hs hm

/-- No balance is ever negative, and the order manager processes every response of the engine. -/
theorem responses_processed {balances : BalanceChecker} (h₀ : ∀ u tk x, balances.entry u tk = some x → 0 ≤ x)
    (h : Reachable cfg balances s) :
    (∀ u tk x, s.om.balanceChecker.entry u tk = some x → 0 ≤ x) ∧
      ∀ c responses ids, s.responses = c :: responses → ∃ r, handleResponse cfg .exact ids s.om c = .ok r := by
  obtain ⟨ha, hs⟩ := solvent_of_reachable h₀ h
  refine ⟨hs.nonneg, fun c responses ids hr => ?_⟩
  rcases ha.answered c (by rw [hr]; simp) with ⟨t, rfl⟩ | ⟨r, rfl, hid⟩
  · exact ha.handleResponse_trade hs hr ids
  · exact ha.handleResponse_cancel hs hr hid ids

/-- In the small run the trade on its way is processed. -/
theorem responses_processed_sampleTrading : ∃ (s : Exchange) (t : TradeContainer), Reachable twoUsers twoBalances s ∧
    s.responses = [.trade t] ∧ ∃ r, handleResponse twoUsers .exact noIds s.om (.trade t) = .ok r := by
  have hrun : (execIf (step twoUsers .exact) (fun _ e => Fed e) (start twoUsers twoBalances) sampleTrading).any
      (fun s =>
      decide (s.responses = [.trade ⟨"GME", 100, 4, Stamp.zero.tradeId, "ann", "bob", 1, 0, true⟩])) = true := by
    decide +kernel
  obtain ⟨s, hreach, h⟩ := Reach.exists_of_execIf hrun
  rw [decide_eq_true_eq] at h
  exact ⟨s, _, hreach, h, (responses_processed twoBalances_nonneg hreach).2 _ _ noIds h⟩

end Exchange

end Elsa
