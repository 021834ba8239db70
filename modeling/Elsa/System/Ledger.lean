import Elsa.System.Agreement
import Elsa.System.Quotes

/-!
# The ledger of the exchange

What a user owns in a ticker is the balance, plus what open orders hold back in this ticker, plus what market bids
have reserved and not yet paid; trades that were processed move it.  With these parts put together, `worth` is the
same in every state of a run with exact integers (`worth_move`): money and shares move in six places of two
processes, and none of them creates or loses any.

The ledgers in dollars and in shares are read off it.
-/

namespace Elsa

open Base LimitOrderBook

/-- What a trade is paid. -/
def TradeContainer.cost (t : TradeContainer) : Int := t.price * t.quantity

/-- What a trade brings a user in a ticker. -/
def TradeContainer.flow (t : TradeContainer) (u tk : String) : Int :=
  (if t.buyerId = u then (if t.ticker = tk then t.quantity else 0) - (if usdSymbol = tk then t.cost else 0) else 0) +
    (if t.sellerId = u then (if usdSymbol = tk then t.cost else 0) - (if t.ticker = tk then t.quantity else 0) else 0)

def netFlow (ts : List TradeContainer) (u tk : String) : Int := (ts.map fun t => t.flow u tk).sum

/-- What an order with the given open quantity holds back in a ticker; the reservation of a market bid is not here. -/
def NewOrderSingle.holds (o : NewOrderSingle) (tk : String) (leaves : Int) : Int :=
  match o.side, o.price with
  | .ask, _ => if o.symbol = tk then leaves else 0
  | .bid, some price => if usdSymbol = tk then price * leaves else 0
  | .bid, none => 0

private theorem NewOrderSingle.holds_add (o : NewOrderSingle) (tk : String) (a b : Int) :
    o.holds tk (a + b) = o.holds tk a + o.holds tk b := by
  unfold holds
  split
  · split <;> omega
  · split
    · rw [Int.mul_add]
    · omega
  · omega

private theorem NewOrderSingle.holds_neg (o : NewOrderSingle) (tk : String) (a : Int) :
    o.holds tk (-a) = -o.holds tk a := by
  unfold holds
  split
  · split <;> omega
  · split
    · rw [Int.mul_neg]
    · omega
  · omega

private theorem NewOrderSingle.holds_zero (o : NewOrderSingle) (tk : String) : o.holds tk 0 = 0 := by
  have := o.holds_add tk 0 0
  rw [Int.add_zero] at this
  omega

/-- The trade is one of an accepted market bid. -/
def TradeContainer.OfMarketBid (accepted : List NewOrderSingle) (t : TradeContainer) : Prop :=
  ∃ o ∈ accepted, o.id = t.takerOrderId ∧ o.IsMarketBid

instance (accepted : List NewOrderSingle) (t : TradeContainer) : Decidable (t.OfMarketBid accepted) :=
  inferInstanceAs (Decidable (∃ o ∈ accepted, _))

/-- A trade is one of a market bid just when its taker is one. -/
theorem Placed.ofMarketBid_iff {cfg : Config} {accepted : List NewOrderSingle} {requests : List Container}
    {me : MatchingEngine} {stream : List Container} (h : Placed cfg accepted requests me stream) {t : TradeContainer}
    {taker maker : NewOrderSingle} (ht : taker ∈ accepted) (hb : t.Between taker maker) :
    t.OfMarketBid accepted ↔ taker.IsMarketBid := by
  constructor
  · rintro ⟨o, ho, hid, hm⟩
    rwa [h.eq_of_id ho ht (hid.trans hb.taker_id.symm)] at hm
  · intro hm
    exact ⟨taker, ht, hb.taker_id, hm⟩

/-- What an order pays if the engine takes it now. -/
def MatchingEngine.costToFill (me : MatchingEngine) (o : NewOrderSingle) : Int :=
  match me.limitOrderBooks o.symbol with
  | some b => costOf (b.fills (o.taker o.id) o.orderQty)
  | none => 0

namespace BalanceChecker

/-- The balance in a ticker, zero where there is no entry. -/
def balance (bc : BalanceChecker) (u tk : String) : Int := (bc.entry u tk).getD 0

theorem balance_updated (bc : BalanceChecker) (u₀ tk₀ : String) (delta : Int) (u tk : String) :
    (bc.updated .exact u₀ tk₀ delta).balance u tk = bc.balance u tk + if u₀ = u ∧ tk₀ = tk then delta else 0 := by
  unfold balance
  rw [entry_updated]
  by_cases h : u₀ = u ∧ tk₀ = tk
  · obtain ⟨rfl, rfl⟩ := h
    rw [if_pos ⟨rfl, rfl⟩, if_pos ⟨rfl, rfl⟩, newBalance]
    cases bc.entry u₀ tk₀ with
    | none => simp
    | some x => rfl
  · rw [if_neg h, if_neg fun hc => h ⟨hc.1.symm, hc.2.symm⟩, Int.add_zero]

end BalanceChecker

namespace Exchange

/-- `leaves_qty` of an order. -/
def leaves (s : Exchange) (id : Int) : Int := (s.om.orderInfoMap id).elim 0 OrderInfo.leavesQty

/-- What the accepted orders of a user hold back, unless their cancellation was confirmed. -/
def held (s : Exchange) (u tk : String) : Int :=
  totalAt NewOrderSingle.senderCompId
    (fun o => if o.id ∈ s.history.confirmed then 0 else o.holds tk (s.leaves o.id)) s.history.accepted u

/-- What trades on their way make the market bids of a user pay. -/
def inFlightCost (s : Exchange) (u : String) : Int :=
  totalAt TradeContainer.buyerId TradeContainer.cost
    ((s.responses.filterMap Container.trade?).filter (fun t => t.OfMarketBid s.history.accepted)) u

/-- What the market bids of a user that the engine has not taken yet will pay. -/
def pendingCost (s : Exchange) (u : String) : Int :=
  totalAt NewOrderSingle.senderCompId s.me.costToFill ((requested s.requests).filter (fun o => o.IsMarketBid)) u

/-- What the accepted market bids of a user pay in trades that the order manager has not processed. -/
def unpaid (s : Exchange) (u : String) : Int := s.inFlightCost u + s.pendingCost u

/-- All that a user owns in a ticker, had no trade been made. -/
def worth (s : Exchange) (u tk : String) : Int :=
  s.om.balanceChecker.balance u tk - netFlow s.history.settled u tk + s.held u tk + if usdSymbol = tk then
    s.unpaid u else 0

variable {cfg : Config} {s s' : Exchange} {u tk : String}

/-! ### Moves that leave balances and history alone -/

theorem Agrees.leaves_eq (h : s.Agrees cfg) {o : NewOrderSingle} (ho : o ∈ s.history.accepted) :
    s.leaves o.id = o.orderQty - amountOf s.history.processed o.id := by
  obtain ⟨info, hinfo, hrec⟩ := h.recorded o ho
  rw [leaves, hinfo]
  exact hrec.leaves_eq

/-- What is held back can be read off the history. -/
private theorem Agrees.held_eq (h : s.Agrees cfg) : s.held u tk = totalAt NewOrderSingle.senderCompId
    (fun o => if o.id ∈ s.history.confirmed then 0 else o.holds tk (o.orderQty - amountOf s.history.processed o.id))
    s.history.accepted u :=
  totalAt_congr fun o ho _ => by rw [h.leaves_eq ho]

private theorem worth_of_unpaid (h : s.Agrees cfg) (h' : s'.Agrees cfg)
    (hbc : s'.om.balanceChecker = s.om.balanceChecker) (hh : s'.history = s.history)
    (hun : s'.unpaid u = s.unpaid u) : s'.worth u tk = s.worth u tk := by
  rw [worth, worth, h.held_eq, h'.held_eq, hbc, hh, hun]

/-- No market bid is on its way behind the first request. -/
private theorem QuoteProtocol.pendingCost_tail {A : Arith} (h : s.QuoteProtocol A) {c : Container}
    {requests : List Container} (hr : s.requests = c :: requests) (val : NewOrderSingle → Int) :
    totalAt NewOrderSingle.senderCompId val ((requested requests).filter (fun o => o.IsMarketBid)) u = 0 := by
  have hnil : (requested requests).filter (fun o => o.IsMarketBid) = [] := by
    rw [List.filter_eq_nil_iff]
    intro o ho
    have := h.first o (by rw [hr]; exact mem_requested.1 ho)
    simpa using this
  rw [hnil]
  rfl

/-- The engine takes a request that is not a new order: what is unpaid stays. -/
private theorem unpaid_of_take {A : Arith} (h : s.QuoteProtocol A) {c : Container} {requests : List Container}
    (hr : s.requests = c :: requests) (hc : c.newOrder? = none) (hr' : s'.requests = requests)
    (hresp : s'.responses.filterMap Container.trade? = s.responses.filterMap Container.trade?)
    (hh : s'.history = s.history) : s'.unpaid u = s.unpaid u := by
  have hreq : requested s.requests = requested requests := by rw [hr, requested, List.filterMap_cons, hc]; rfl
  rw [unpaid, unpaid, inFlightCost, inFlightCost, hresp, hh, pendingCost, pendingCost, hreq, hr',
    h.pendingCost_tail hr, h.pendingCost_tail hr]

/-! ### Trades on their way -/

private theorem trade?_append (cs : List Container) (ts : List TradeContainer) :
    (cs ++ ts.map Container.trade).filterMap Container.trade? = cs.filterMap Container.trade? ++ ts := by
  rw [List.filterMap_append, List.filterMap_map]
  congr 1
  exact List.filterMap_some

theorem mem_trades {cs : List Container} {t : TradeContainer} :
    t ∈ cs.filterMap Container.trade? ↔ .trade t ∈ cs := by
  rw [List.mem_filterMap]
  constructor
  · rintro ⟨c, hc, h⟩
    cases c <;> cases h
    exact hc
  · intro h
    exact ⟨_, h, rfl⟩

/-- What the trades of a bid make its sender pay. -/
private theorem cost_fillTrades {cfg : Config} {o : NewOrderSingle} (ho : o.Admitted cfg) (hside : o.side = .bid)
    (draw : Nat → Stamp) (id : Int) (fs : List (Node × Int)) :
    totalAt TradeContainer.buyerId TradeContainer.cost (fillTrades draw o.symbol (o.taker id) fs) u =
      if o.senderCompId = u then costOf fs else 0 := by
  have hbuyer : ∀ f : Node × Int, (fillTrade o.symbol (o.taker id) f).buyerId = o.senderCompId := by
    intro f
    have hbid : (fillTrade o.symbol (o.taker id) f).isTakerBuyer = decide (o.side = .bid) := rfl
    rw [TradeContainer.buyerId, hbid, hside]
    exact ho.upToNul_sender
  rw [totalAt, map_fillTrades (fun t => if t.buyerId = u then t.cost else 0) (fun _ _ => rfl)]
  simp only [hbuyer]
  split
  · rfl
  · simp

/-- Matching turns what a market bid will pay into what its trades make it pay. -/
private theorem unpaid_matched (h : s.Agrees cfg) {A : Arith} (hq : s.QuoteProtocol A) {o : NewOrderSingle} {id : Int}
    {b : LimitOrderBook} {requests : List Container} {draw : Nat → Stamp} {me : MatchingEngine}
    (hr : s.requests = .newOrderSingle o :: requests) (hid : o.orderId = some id)
    (hb : s.me.limitOrderBooks o.symbol = some b) (hqty : 0 < o.orderQty) :
    unpaid { s with
      me
      requests
      responses := s.responses ++
        (fillTrades draw o.symbol (o.taker id) (b.fills (o.taker id) o.orderQty)).map .trade } u = s.unpaid u := by
  have hp := h.placed
  rw [hr] at hp
  have hid' : o.id = id := by rw [NewOrderSingle.id, hid]; rfl
  have ho := hp.mem_accepted (o := o) (by simp)
  have hof : ∀ t ∈ fillTrades draw o.symbol (o.taker id) (b.fills (o.taker id) o.orderQty),
      (t.OfMarketBid s.history.accepted ↔ o.IsMarketBid) := by
    intro t ht
    obtain ⟨maker, -, hbt, -⟩ := hp.fillTrades_between ho hid' hb (hp.requested_absent o (by simp)) hqty ht
    exact hp.ofMarketBid_iff ho hbt
  -- no other market bid is on its way, so what is pending is the cost of this one
  have hpend : s.pendingCost u = if o.IsMarketBid ∧ o.senderCompId = u then s.me.costToFill o else 0 := by
    rw [pendingCost, hr, requested_cons_newOrder, List.filter_cons]
    by_cases hm : o.IsMarketBid
    · rw [if_pos (decide_eq_true hm), totalAt_cons, hq.pendingCost_tail hr]
      simp [hm]
    · rw [if_neg (by simpa using hm), hq.pendingCost_tail hr, if_neg fun hc => hm hc.1]
  have hnew : totalAt TradeContainer.buyerId TradeContainer.cost
      ((fillTrades draw o.symbol (o.taker id) (b.fills (o.taker id) o.orderQty)).filter
        (fun t => t.OfMarketBid s.history.accepted)) u =
      if o.IsMarketBid ∧ o.senderCompId = u then s.me.costToFill o else 0 := by
    by_cases hm : o.IsMarketBid
    · rw [List.filter_eq_self.2 fun t ht => decide_eq_true ((hof t ht).2 hm), cost_fillTrades (hp.admitted o ho) hm.2]
      simp only [hm, true_and, MatchingEngine.costToFill, hb, hid']
    · rw [List.filter_eq_nil_iff.2 fun t ht hc => hm ((hof t ht).1 (of_decide_eq_true hc)), if_neg fun hc => hm hc.1]
      rfl
  rw [unpaid, unpaid, hpend]
  simp only [inFlightCost, pendingCost, trade?_append, List.filter_append, totalAt_append, hnew,
    hq.pendingCost_tail hr]
  omega

/-! ### Reservations -/

theorem mem_confirmed {h : History} {id : Int} : id ∈ h.confirmed ↔ ∃ c ∈ h.processed, c.closed? = some id :=
  List.mem_filterMap

section accept

variable {o : NewOrderSingle} {bc : BalanceChecker}

private theorem held_accept (h : s.Agrees cfg) (h' : (s.accept o bc).Agrees cfg)
    (hnew : o.id ∉ s.history.accepted.map NewOrderSingle.id) :
    (s.accept o bc).held u tk = s.held u tk + if o.senderCompId = u then o.holds tk o.orderQty else 0 := by
  have hun : ∀ c ∈ s.history.processed, ¬ c.Touches o.id := fun c hc ht =>
    hnew (h.placed.accepted_of_touches (List.mem_append_left _ hc) ht)
  have hconf : o.id ∉ s.history.confirmed := by
    intro hm
    obtain ⟨c, hc, hcl⟩ := mem_confirmed.1 hm
    exact hun c hc (Or.inl hcl)
  rw [h'.held_eq, h.held_eq]
  show totalAt _ (fun o' => if o'.id ∈ s.history.confirmed then 0 else
    o'.holds tk (o'.orderQty - amountOf s.history.processed o'.id)) (s.history.accepted ++ [o]) u = _
  rw [totalAt_append, totalAt_cons, totalAt_nil, if_neg hconf, amountOf_eq_zero hun, Int.sub_zero, Int.add_zero]

private theorem inFlightCost_accept (h : s.Agrees cfg) (hnew : o.id ∉ s.history.accepted.map NewOrderSingle.id) :
    (s.accept o bc).inFlightCost u = s.inFlightCost u := by
  have hof : ∀ t ∈ s.responses.filterMap Container.trade?,
      decide (t.OfMarketBid (s.history.accepted ++ [o])) = decide (t.OfMarketBid s.history.accepted) := by
    intro t ht
    refine decide_eq_decide.2 ⟨?_, fun ⟨o', ho', hrest⟩ => ⟨o', List.mem_append_left _ ho', hrest⟩⟩
    rintro ⟨o', ho', hid, hm⟩
    rcases List.mem_append.1 ho' with ho' | ho'
    · exact ⟨o', ho', hid, hm⟩
    · obtain ⟨taker, htk, maker, -, hb⟩ := h.placed.trades t (List.mem_append_right _ (mem_trades.1 ht))
      rw [List.mem_singleton.1 ho'] at hid
      exact absurd (List.mem_map.2 ⟨taker, htk, hb.taker_id.trans hid.symm⟩) hnew
  show totalAt _ _ ((s.responses.filterMap Container.trade?).filter
    (fun t => t.OfMarketBid (s.history.accepted ++ [o]))) u = _
  rw [List.filter_congr hof]
  rfl

private theorem pendingCost_accept : (s.accept o bc).pendingCost u =
    s.pendingCost u + if o.IsMarketBid ∧ o.senderCompId = u then s.me.costToFill o else 0 := by
  show totalAt _ s.me.costToFill ((requested (s.requests ++ [.newOrderSingle o])).filter (fun o => o.IsMarketBid))
      u = _
  rw [requested_append, List.filter_append, totalAt_append]
  congr 1
  by_cases hm : o.IsMarketBid
  · simp [hm, totalAt]
  · simp [hm]

/-- An order is accepted: its reservation moves from the balance to what is held back or unpaid. -/
private theorem worth_accept (h : s.Agrees cfg) {cost : Option Int} (h' : (s.accept o bc).Agrees cfg)
    (hv : Validated cfg .exact s.om.balanceChecker cost o bc) (hnew : o.id ∉ s.history.accepted.map NewOrderSingle.id)
    (hshape : o.ordType = .limit ↔ o.price.isSome = true)
    (hcost : o.IsMarketBid → ∀ c, cost = some c → c = s.me.costToFill o) :
    (s.accept o bc).worth u tk = s.worth u tk := by
  obtain ⟨ticker, delta, x, hres, -, -, -, -, hbc⟩ := hv.reserved
  have hbal : (s.accept o bc).om.balanceChecker.balance u tk =
      s.om.balanceChecker.balance u tk + if o.senderCompId = u ∧ ticker = tk then delta else 0 :=
    hbc ▸ BalanceChecker.balance_updated ..
  have hset : (s.accept o bc).history.settled = s.history.settled := rfl
  rw [worth, worth, held_accept h h' hnew, unpaid, unpaid, inFlightCost_accept h hnew, pendingCost_accept, hbal, hset]
  -- what the balance loses is held back, or will be paid by a market bid
  cases hres with
  | limitBid price hside htype hprice =>
    have hm : ¬ o.IsMarketBid := fun hm => by rw [hm.1] at htype; cases htype
    simp only [NewOrderSingle.holds, hside, hprice, hm, false_and, if_false, Int.add_zero, Arith.exact_int64]
    by_cases h1 : o.senderCompId = u <;> by_cases h2 : usdSymbol = tk <;> simp [h1, h2]
    omega
  | marketBid fillCost hside htype hc =>
    have hm : o.IsMarketBid := ⟨htype, hside⟩
    have hp : o.price = none := by
      cases hp : o.price with
      | none => rfl
      | some p =>
        have := hshape.2 (by rw [hp]; rfl)
        rw [htype] at this
        cases this
    simp only [NewOrderSingle.holds, hside, hp, hm, true_and, hcost hm fillCost hc, Arith.exact_int]
    by_cases h1 : o.senderCompId = u <;> by_cases h2 : usdSymbol = tk <;> simp [h1, h2]
    omega
  | ask hside =>
    have hm : ¬ o.IsMarketBid := fun hm => by rw [hm.2] at hside; cases hside
    simp only [NewOrderSingle.holds, hside, hm, false_and, if_false, Int.add_zero, Arith.exact_int]
    by_cases h1 : o.senderCompId = u <;> by_cases h2 : o.symbol = tk <;> simp [h1, h2]
    omega

end accept

/-! ### Responses -/

/-- After the report of a cancellation no response is about the order. -/
private theorem Agrees.untouched (h : s.Agrees cfg) {c : Container} {responses : List Container}
    (hr : s.responses = c :: responses) {id : Int} (hid : id ∈ s.history.confirmed) : ¬ c.Touches id := by
  obtain ⟨d, hd, hcl⟩ := mem_confirmed.1 hid
  have := h.placed.closing
  rw [stream, List.pairwise_append] at this
  exact this.2.2 d hd c (by rw [hr]; simp) id hcl

section settle

variable {t : TradeContainer} {responses : List Container} {buyer seller : NewOrderSingle} {om : OrderManager}

theorem amountFor_eq (t : TradeContainer) (id : Int) : t.amountFor id =
    (if t.buyerOrderId = id then t.quantity else 0) + (if t.sellerOrderId = id then t.quantity else 0) := by
  unfold TradeContainer.amountFor TradeContainer.buyerOrderId TradeContainer.sellerOrderId
  cases t.isTakerBuyer
  · exact Int.add_comm _ _
  · rfl

private theorem touches_buyer (t : TradeContainer) : (Container.trade t).Touches t.buyerOrderId := by
  refine Or.inr ⟨t, rfl, ?_⟩
  unfold TradeContainer.buyerOrderId
  cases t.isTakerBuyer
  · exact Or.inr rfl
  · exact Or.inl rfl

private theorem touches_seller (t : TradeContainer) : (Container.trade t).Touches t.sellerOrderId := by
  refine Or.inr ⟨t, rfl, ?_⟩
  unfold TradeContainer.sellerOrderId
  cases t.isTakerBuyer
  · exact Or.inl rfl
  · exact Or.inr rfl

private theorem holds_neg_ite (o : NewOrderSingle) (p : Prop) [Decidable p] (q : Int) :
    o.holds tk (-if p then q else 0) = if p then o.holds tk (-q) else 0 := by
  split
  · rfl
  · rw [Int.neg_zero, o.holds_zero]

/-- The two parties of the trade at the head of the responses. -/
theorem Agrees.parties (h : s.Agrees cfg) (hr : s.responses = .trade t :: responses) :
    ∃ buyer ∈ s.history.accepted, ∃ seller ∈ s.history.accepted, t.Parties buyer seller ∧
      (t.OfMarketBid s.history.accepted ↔ buyer.price = none) := by
  obtain ⟨tk, htk, mk, hmk, hb⟩ := h.trade_between hr
  rw [h.placed.ofMarketBid_iff htk hb]
  have hshape := (h.placed.admitted tk htk).shape
  rcases hb.parties with ⟨-, hp⟩ | ⟨-, hp⟩
  · refine ⟨tk, htk, mk, hmk, hp, fun hm => ?_, fun hm => ⟨?_, hp.buyer_side⟩⟩
    · by_contra hne
      have := hshape.2 (Option.isSome_iff_ne_none.2 hne)
      rw [hm.1] at this
      cases this
    · cases htype : tk.ordType with
      | market => rfl
      | limit =>
        have := hshape.1 htype
        rw [hm] at this
        cases this
  · refine ⟨mk, hmk, tk, htk, hp, fun hm => ?_, fun hm => ?_⟩
    · have := hp.seller_side
      rw [hm.2] at this
      cases this
    · rw [hb.maker_price] at hm
      cases hm

private theorem balance_tradeBalances {bc : BalanceChecker} {limit : Option Int}
    (hlimit : ∀ p, limit = some p → t.price ≤ p) :
    (tradeBalances .exact bc limit t).balance u tk = bc.balance u tk +
      (if t.buyerId = u ∧ t.ticker = tk then t.quantity else 0) +
      (if t.buyerId = u ∧ usdSymbol = tk then limit.elim 0 fun p => (p - t.price) * t.quantity else 0) +
      if t.sellerId = u ∧ usdSymbol = tk then t.cost else 0 := by
  have href : ∀ bc : BalanceChecker, (refunded .exact bc limit t).balance u tk = bc.balance u tk +
      if t.buyerId = u ∧ usdSymbol = tk then limit.elim 0 fun p => (p - t.price) * t.quantity else 0 := by
    intro bc
    cases limit with
    | none => simp [refunded]
    | some p =>
      have hle := hlimit p rfl
      simp only [refunded, Option.elim_some]
      by_cases hpos : 0 < Arith.exact.int (p - t.price)
      · rw [if_pos hpos]
        exact BalanceChecker.balance_updated ..
      · have hzero : p - t.price = 0 := by
          have : ¬ 0 < p - t.price := hpos
          omega
        rw [if_neg hpos, hzero, Int.zero_mul, ite_self, Int.add_zero]
  rw [tradeBalances, BalanceChecker.balance_updated, href, BalanceChecker.balance_updated]
  rfl

/-- A trade reduces what its two orders hold back. -/
private theorem held_settle (h : s.Agrees cfg) (hr : s.responses = .trade t :: responses)
    (hb : buyer ∈ s.history.accepted) (hs : seller ∈ s.history.accepted) (hp : t.Parties buyer seller)
    (h' : Agrees cfg { s with om, responses, history := s.history.process (.trade t) }) :
    held { s with om, responses, history := s.history.process (.trade t) } u tk = s.held u tk -
      (if buyer.senderCompId = u then buyer.holds tk t.quantity else 0) -
      (if seller.senderCompId = u then seller.holds tk t.quantity else 0) := by
  have hconf : (s.history.process (.trade t)).confirmed = s.history.confirmed := by
    simp [History.confirmed, History.process, Container.closed?]
  -- only the two orders of the trade hold back less; a confirmed order is not among them
  have hval : ∀ o ∈ s.history.accepted, o.senderCompId = u →
      (if o.id ∈ s.history.confirmed then 0 else
        o.holds tk (o.orderQty - amountOf (s.history.processed ++ [.trade t]) o.id)) =
      (if o.id ∈ s.history.confirmed then 0 else o.holds tk (o.orderQty - amountOf s.history.processed o.id)) +
        ((if o.id = buyer.id then o.holds tk (-t.quantity) else 0) +
          if o.id = seller.id then o.holds tk (-t.quantity) else 0) := by
    intro o ho _
    have hamt : amountOf (s.history.processed ++ [.trade t]) o.id =
        amountOf s.history.processed o.id + t.amountFor o.id := by
      rw [amountOf_append, amountOf_cons, amountOf_nil, Int.add_zero]
      rfl
    by_cases hc : o.id ∈ s.history.confirmed
    · have hun := h.untouched hr hc
      have hnb : o.id ≠ buyer.id := fun he => hun (he ▸ hp.buyer_id ▸ touches_buyer t)
      have hns : o.id ≠ seller.id := fun he => hun (he ▸ hp.seller_id ▸ touches_seller t)
      rw [if_pos hc, if_pos hc, if_neg hnb, if_neg hns]
      rfl
    · have hsplit : ∀ a x y : Int, o.orderQty - (a + (x + y)) = o.orderQty - a + (-x + -y) := fun a x y => by omega
      rw [if_neg hc, if_neg hc, hamt, amountFor_eq, ← hp.buyer_id, ← hp.seller_id, hsplit, o.holds_add, o.holds_add,
        holds_neg_ite, holds_neg_ite]
      simp only [eq_comm]
  rw [h'.held_eq, h.held_eq]
  show totalAt _ (fun o => if o.id ∈ (s.history.process (.trade t)).confirmed then 0 else
    o.holds tk (o.orderQty - amountOf (s.history.processed ++ [.trade t]) o.id)) s.history.accepted u = _
  rw [hconf, totalAt_congr hval, totalAt_add, totalAt_add, totalAt_single h.placed.nodup hb,
    totalAt_single h.placed.nodup hs, buyer.holds_neg, seller.holds_neg]
  split <;> split <;> omega

/-- A trade of a market bid is paid when it is processed. -/
private theorem inFlightCost_settle (hr : s.responses = .trade t :: responses)
    (hof : t.OfMarketBid s.history.accepted ↔ buyer.price = none) (om : OrderManager) :
    inFlightCost { s with om, responses, history := s.history.process (.trade t) } u =
      s.inFlightCost u - if buyer.price = none ∧ t.buyerId = u then t.cost else 0 := by
  have hcons : (Container.trade t :: responses).filterMap Container.trade? =
      t :: responses.filterMap Container.trade? := rfl
  have hnew : inFlightCost { s with om, responses, history := s.history.process (.trade t) } u =
      totalAt TradeContainer.buyerId TradeContainer.cost
        ((responses.filterMap Container.trade?).filter (fun t => t.OfMarketBid s.history.accepted)) u := rfl
  rw [hnew, inFlightCost, hr, hcons, List.filter_cons]
  by_cases hm : buyer.price = none
  · rw [if_pos (decide_eq_true (hof.2 hm)), totalAt_cons]
    simp only [hm, true_and]
    omega
  · rw [if_neg (by simpa using mt hof.1 hm), if_neg fun hc => hm hc.1, Int.sub_zero]

/-- A trade is processed: it turns what was held back or unpaid into a flow. -/
private theorem worth_settle (h : s.Agrees cfg) (hr : s.responses = .trade t :: responses)
    (hu : updateInternalData .exact s.om (.trade t) = .ok om)
    (h' : Agrees cfg { s with om, responses, history := s.history.process (.trade t) }) :
    worth { s with om, responses, history := s.history.process (.trade t) } u tk = s.worth u tk := by
  obtain ⟨buyer, hb, seller, hs, hp, hof⟩ := h.parties hr
  obtain ⟨taker, -, maker, -, hbt⟩ := h.trade_between hr
  obtain ⟨takerInfo, makerInfo, info, -, -, hinfo, hom⟩ := updateInternalData_trade_ok hbt.ids_ne hu
  have hprice : info.price = buyer.price := by
    obtain ⟨info', hinfo', hrec⟩ := h.recorded buyer hb
    rw [hp.buyer_id, hinfo] at hinfo'
    cases hinfo'
    exact hrec.price_eq
  have hbal : om.balanceChecker = tradeBalances .exact s.om.balanceChecker buyer.price t := by rw [hom, hprice]
  have hset : (s.history.process (.trade t)).settled = s.history.settled ++ [t] := by
    simp [History.settled, History.process, Container.trade?]
  have hflow : netFlow (s.history.settled ++ [t]) u tk = netFlow s.history.settled u tk + t.flow u tk := by
    simp [netFlow]
  have hpend : pendingCost { s with om, responses, history := s.history.process (.trade t) } u = s.pendingCost u :=
    rfl
  rw [worth, worth, held_settle h hr hb hs hp h', unpaid, unpaid, inFlightCost_settle hr hof, hpend]
  simp only [hset, hflow, hbal, balance_tradeBalances hp.limit_le, TradeContainer.flow, NewOrderSingle.holds,
    hp.buyer_side, hp.seller_side, hp.buyer_sender, hp.seller_sender, hp.seller_symbol]
  -- a market bid pays from what is unpaid, a limit bid from what it holds back
  cases buyer.price with
  | none =>
    by_cases h1 : t.buyerId = u <;> by_cases h2 : t.sellerId = u <;> by_cases h3 : t.ticker = tk <;>
      by_cases h4 : usdSymbol = tk <;> simp [h1, h2, h3, h4] <;> omega
  | some p =>
    simp only [Option.elim_some, Int.sub_mul, TradeContainer.cost]
    by_cases h1 : t.buyerId = u <;> by_cases h2 : t.sellerId = u <;> by_cases h3 : t.ticker = tk <;>
      by_cases h4 : usdSymbol = tk <;> simp [h1, h2, h3, h4] <;> omega

end settle

section confirm

variable {id clOrdId : Int} {responses : List Container} {om : OrderManager} {o : NewOrderSingle}

/-- A confirmed cancellation ends what the order holds back. -/
private theorem held_confirm (h : s.Agrees cfg)
    (hr : s.responses = .cancelOrderResponse ⟨o.id, clOrdId, true⟩ :: responses) (ho : o ∈ s.history.accepted)
    (h' : Agrees cfg { s with
    om, responses, history := s.history.process (.cancelOrderResponse ⟨o.id, clOrdId, true⟩) }) :
    held { s with om, responses, history := s.history.process (.cancelOrderResponse ⟨o.id, clOrdId, true⟩) } u tk =
      s.held u tk - if o.senderCompId = u then o.holds tk (s.leaves o.id) else 0 := by
  have hconf : (s.history.process (.cancelOrderResponse ⟨o.id, clOrdId, true⟩)).confirmed =
      s.history.confirmed ++ [o.id] := by
    simp [History.confirmed, History.process, Container.closed?]
  have hopen : o.id ∉ s.history.confirmed := fun hm => h.untouched hr hm (Or.inl rfl)
  have hval : ∀ o' ∈ s.history.accepted, o'.senderCompId = u →
      (if o'.id ∈ s.history.confirmed ++ [o.id] then 0 else
        o'.holds tk (o'.orderQty - amountOf (s.history.processed ++ [.cancelOrderResponse ⟨o.id, clOrdId, true⟩])
          o'.id)) =
      (if o'.id ∈ s.history.confirmed then 0 else o'.holds tk (o'.orderQty - amountOf s.history.processed o'.id)) +
        if o'.id = o.id then -o'.holds tk (o'.orderQty - amountOf s.history.processed o'.id) else 0 := by
    intro o' _ _
    have hamt : amountOf (s.history.processed ++ [.cancelOrderResponse ⟨o.id, clOrdId, true⟩]) o'.id =
        amountOf s.history.processed o'.id := by
      rw [amountOf_append]
      exact Int.add_zero _
    rw [hamt]
    by_cases he : o'.id = o.id
    · simp [he, hopen]
    · simp [he]
  rw [h'.held_eq, h.held_eq, h.leaves_eq ho]
  show totalAt _ (fun o' =>
      if o'.id ∈ (s.history.process (.cancelOrderResponse ⟨o.id, clOrdId, true⟩)).confirmed then 0 else
    o'.holds tk (o'.orderQty - amountOf (s.history.processed ++ [.cancelOrderResponse ⟨o.id, clOrdId, true⟩]) o'.id))
    s.history.accepted u = _
  rw [hconf, totalAt_congr hval, totalAt_add, totalAt_single h.placed.nodup ho]
  split <;> omega

/-- A cancellation is confirmed: what the order held back returns to the balance. -/
private theorem worth_confirm (h : s.Agrees cfg)
    (hr : s.responses = .cancelOrderResponse ⟨id, clOrdId, true⟩ :: responses)
    (hu : updateInternalData .exact s.om (.cancelOrderResponse ⟨id, clOrdId, true⟩) = .ok om)
    (h' : Agrees cfg { s with
    om, responses, history := s.history.process (.cancelOrderResponse ⟨id, clOrdId, true⟩) }) :
    worth { s with om, responses, history := s.history.process (.cancelOrderResponse ⟨id, clOrdId, true⟩) } u tk =
      s.worth u tk := by
  obtain ⟨-, -, o, ho, rfl, -⟩ := h.placed.closed _ (Agrees.mem_stream hr) id rfl
  obtain ⟨info, hinfo, hrec⟩ := h.recorded o ho
  obtain ⟨info', price, bc, hinfo', hprice, hbc, hom⟩ := updateInternalData_cancel.1 hu
  rw [hinfo] at hinfo'
  cases hinfo'
  have hleaves : s.leaves o.id = info.leavesQty := by rw [leaves, hinfo]; rfl
  have hbal : om.balanceChecker.balance u tk = s.om.balanceChecker.balance u tk +
      if o.senderCompId = u then o.holds tk (s.leaves o.id) else 0 := by
    obtain ⟨-, -, rfl⟩ := BalanceChecker.updateBalance_eq_ok_iff.1 hbc
    rw [hom, BalanceChecker.balance_updated, hrec.sender_eq, hleaves, NewOrderSingle.holds, ← hrec.price_eq, hprice,
      OrderInfo.released, hrec.side_eq]
    congr 1
    cases o.side with
    | bid => by_cases h1 : o.senderCompId = u <;> by_cases h2 : usdSymbol = tk <;> simp [h1, h2]
    | ask =>
      simp only [hrec.symbol_eq]
      by_cases h1 : o.senderCompId = u <;> by_cases h2 : o.symbol = tk <;> simp [h1, h2]
  have hset : (s.history.process (.cancelOrderResponse ⟨o.id, clOrdId, true⟩)).settled = s.history.settled := by
    simp [History.settled, History.process, Container.trade?]
  have hun : unpaid { s with
      om, responses, history := s.history.process (.cancelOrderResponse ⟨o.id, clOrdId, true⟩) } u = s.unpaid u := by
    rw [unpaid, unpaid, inFlightCost, inFlightCost, hr]
    rfl
  rw [worth, worth, held_confirm h hr ho h', hun]
  simp only [hset, hbal]
  omega

end confirm

/-! ### Every move -/

/-- No move creates or loses money or shares. -/
theorem worth_move (h : s.Agrees cfg) (hq : s.QuoteProtocol .exact) {e : Event} (hm : Move cfg .exact s e s') :
    s'.worth u tk = s.worth u tk := by
  have h' := h.move (counterFits_exact s e) hm
  cases hm with
  | refused o gw ids hw => exact worth_of_unpaid h h' rfl rfl rfl
  | rejected o gw ids userId hr => exact worth_of_unpaid h h' rfl rfl rfl
  | forwarded o gw ids userId bc hr hnm hv =>
    have hreg : (s.register .exact o userId gw).Agrees cfg := h.register rfl hr
    refine (worth_accept hreg h' hv ?_ hr.shaped.2.1 (fun hm => absurd hm hnm)).trans
      (worth_of_unpaid h hreg rfl rfl rfl)
    exact h.nextId_new rfl
  | queried o gw ids userId hr htype hside =>
    refine worth_of_unpaid h h' rfl rfl ?_
    rw [unpaid, unpaid, pendingCost, pendingCost, requested_append]
    show _ + totalAt _ _ ((requested s.requests ++ []).filter _) u = _
    rw [List.append_nil]
    rfl
  | cancelRefused c gw ids hw => rfl
  | cancelForwarded c gw ids id hw hid hinfo =>
    refine worth_of_unpaid h h' rfl rfl ?_
    rw [unpaid, unpaid, pendingCost, pendingCost, requested_append]
    show _ + totalAt _ _ ((requested s.requests ++ []).filter _) u = _
    rw [List.append_nil]
    rfl
  | answerRefused o gw cost answers ids hw ha => exact worth_of_unpaid h h' rfl rfl rfl
  | answerAccepted o gw cost answers ids bc hw ha hv =>
    obtain ⟨haw, hinfo, hnew⟩ := h.waiting o gw hw
    obtain ⟨-, -, b, hb, hquote⟩ := hq.answer hw ha
    have hwait := h.idle answers
    refine (worth_accept hwait h' hv hnew (by rw [haw.type_eq, haw.price_eq]; simp) fun hm c hc => ?_).trans
      (worth_of_unpaid h hwait rfl rfl rfl)
    -- the quote was made in the book that the bid finds
    subst hc
    show c = s.me.costToFill o
    rw [MatchingEngine.costToFill, hb]
    exact quote_eq_cost (h.placed.engine_ok.book_ok _ b hb).1 hm haw.price_eq hv.qty_pos hquote o.id
  | matched o id b b' requests draw hr hid hb hfree ht hqty hmt hok =>
    exact worth_of_unpaid h h' rfl rfl (unpaid_matched h hq hr hid hb hqty)
  | cancelled c id b b' requests draw hr hid hb hix hc hok =>
    refine worth_of_unpaid h h' rfl rfl (unpaid_of_take hq hr rfl rfl ?_ rfl)
    rw [List.filterMap_append]
    exact List.append_nil _
  | cancelMissed c id requests draw hr hid =>
    refine worth_of_unpaid h h' rfl rfl (unpaid_of_take hq hr rfl rfl ?_ rfl)
    rw [List.filterMap_append]
    exact List.append_nil _
  | quoted q b cost requests draw hr hb hcost =>
    exact worth_of_unpaid h h' rfl rfl (unpaid_of_take hq hr rfl rfl rfl rfl)
  | settled t responses ids om hw hr hu => exact worth_settle h hr hu h'
  | confirmed id clOrdId responses ids om hw hr hu => exact worth_confirm h hr hu h'
  | cancelFailed id clOrdId responses ids hw hr =>
    have hset : (s.history.process (.cancelOrderResponse ⟨id, clOrdId, false⟩)).settled = s.history.settled := by
      simp [History.settled, History.process, Container.trade?]
    have hconf : (s.history.process (.cancelOrderResponse ⟨id, clOrdId, false⟩)).confirmed = s.history.confirmed := by
      simp [History.confirmed, History.process, Container.closed?]
    have hamt : ∀ i, amountOf (s.history.process (.cancelOrderResponse ⟨id, clOrdId, false⟩)).processed i =
        amountOf s.history.processed i := fun i => (amountOf_append ..).trans (Int.add_zero _)
    rw [worth, worth, h'.held_eq, h.held_eq, unpaid, unpaid, inFlightCost, inFlightCost, hr]
    simp only [hset, hconf, hamt]
    rfl

theorem worth_of_reachable {balances : BalanceChecker} (h : Reachable cfg balances s) :
    s.Agrees cfg ∧ s.QuoteProtocol .exact ∧ ∀ u tk, s.worth u tk = balances.balance u tk := by
  refine invariant_of_moves (I := fun s => s.QuoteProtocol .exact ∧ ∀ u tk, s.worth u tk = balances.balance u tk)
    (fun s e hfed => ⟨hfed, counterFits_exact s e⟩) h ⟨QuoteProtocol.start balances, fun u tk => ?_⟩
    fun s e s' ha hi _ hm => ⟨hi.1.move hm, fun u tk => (worth_move ha hi.1 hm).trans (hi.2 u tk)⟩
  show balances.balance u tk - 0 + 0 + (if usdSymbol = tk then 0 + 0 else 0) = _
  split <;> omega

/-! ### Dollars -/

/-- The limit bids of a user reserve their price for the open quantity, until their cancellation is confirmed. -/
def limitBidReserve (s : Exchange) (u : String) : Int :=
  totalAt NewOrderSingle.senderCompId (fun o => o.price.getD 0 * s.leaves o.id)
    (s.history.accepted.filter (fun o => o.ordType = .limit ∧ o.side = .bid ∧ o.id ∉ s.history.confirmed)) u

private theorem Agrees.held_usd (h : s.Agrees cfg) (husd : usdSymbol ∉ cfg.activeSymbols) :
    s.held u usdSymbol = s.limitBidReserve u := by
  rw [held, limitBidReserve, totalAt_filter]
  refine totalAt_congr fun o ho _ => ?_
  have had := h.placed.admitted o ho
  have hsym : o.symbol ≠ usdSymbol := fun he => husd (he ▸ had.symbol_active)
  by_cases hc : o.id ∈ s.history.confirmed
  · simp [hc]
  · cases hside : o.side with
    | ask => simp [hc, hside, NewOrderSingle.holds, hsym]
    | bid =>
      cases hp : o.price with
      | none => simp [NewOrderSingle.holds, hside, hp]
      | some p =>
        have hlimit := had.shape.2 (by rw [hp]; rfl)
        simp [hc, hside, NewOrderSingle.holds, hp, hlimit]

/-- In dollars, trades are paid by their buyers and bring their cost to their sellers. -/
private theorem netFlow_usd {ts : List TradeContainer} (h : ∀ t ∈ ts, t.ticker ≠ usdSymbol) :
    netFlow ts u usdSymbol = totalAt TradeContainer.sellerId TradeContainer.cost ts u -
      totalAt TradeContainer.buyerId TradeContainer.cost ts u := by
  induction ts with
  | nil => rfl
  | cons t ts ih =>
    have ht := h t (by simp)
    have hcons : netFlow (t :: ts) u usdSymbol = t.flow u usdSymbol + netFlow ts u usdSymbol := rfl
    rw [hcons, ih fun t' ht' => h t' (List.mem_cons_of_mem _ ht'), totalAt_cons, totalAt_cons, TradeContainer.flow]
    simp only [ht, if_false, if_true]
    split <;> split <;> omega

private theorem Agrees.settled_active (h : s.Agrees cfg) {t : TradeContainer} (ht : t ∈ s.history.settled) :
    t.ticker ∈ cfg.activeSymbols := by
  obtain ⟨taker, htk, maker, -, hb⟩ := h.placed.trades t (List.mem_append_left _ (mem_trades.1 ht))
  exact hb.taker_symbol ▸ (h.placed.admitted taker htk).symbol_active

/-- The dollars of a user: what they started with, less what they paid and plus what they received in trades that
the order manager has processed, less what their limit bids reserve and what their market bids pay in trades not yet
processed.  A market bid on its way is the first request, so that the book at hand is the one it will be matched in.
-/
theorem usd_ledger (husd : usdSymbol ∉ cfg.activeSymbols) {balances : BalanceChecker} (h : Reachable cfg balances s) :
    (∀ u, s.om.balanceChecker.balance u usdSymbol = balances.balance u usdSymbol -
      totalAt TradeContainer.buyerId TradeContainer.cost s.history.settled u +
      totalAt TradeContainer.sellerId TradeContainer.cost s.history.settled u - s.limitBidReserve u - s.unpaid u) ∧
      ∀ o, .newOrderSingle o ∈ s.requests.tail → ¬ o.IsMarketBid := by
  obtain ⟨ha, hq, hw⟩ := worth_of_reachable h
  refine ⟨fun u => ?_, hq.first⟩
  have hu := hw u usdSymbol
  rw [worth, ha.held_usd husd, netFlow_usd fun t ht he => husd (he ▸ ha.settled_active ht), if_pos rfl] at hu
  omega

/-- `ann` has reserved four hundred dollars for a market bid that the engine has not taken. -/
theorem usd_ledger_sampleMarketBid : ∃ s : Exchange, Reachable twoUsers twoBalances s ∧ s.requests.length = 1 ∧
    s.unpaid "ann" = 400 ∧ s.om.balanceChecker.balance "ann" usdSymbol = 100000 - 0 + 0 - 0 - 400 := by
  have hrun : (execIf (step twoUsers .exact) (fun _ e => Fed e) (start twoUsers twoBalances)
      [.request (.newOrderSingle sampleAsk) 0 noIds, .matching zeroStamps,
      .request (.newOrderSingle sampleMarketBid) 0 noIds, .matching zeroStamps, .answer noIds]).any (fun s =>
      decide (s.requests.length = 1) && decide (s.unpaid "ann" = 400) && decide (s.history.settled = []) &&
        decide (s.limitBidReserve "ann" = 0)) = true := by decide +kernel
  obtain ⟨s, hreach, h⟩ := Reach.exists_of_execIf hrun
  simp only [Bool.and_eq_true, decide_eq_true_eq] at h
  refine ⟨s, hreach, h.1.1.1, h.1.1.2, ?_⟩
  rw [(usd_ledger (by decide) hreach).1 "ann", h.1.1.2, h.1.2, h.2]
  decide

end Exchange

end Elsa
